import ComponentRules.Yaml.Token

/-!
# YAML documents

The tokens of a text as a tree of scalars, sequences and mappings. Anchors are numbered in the
order of the text; an alias knows the number it stands for. Where a fault shows, the tree breaks
off, so that the nodes before it can still be read.

* `Node`, `Document`: a tree, and the nodes that its aliases stand for.
* `Document.ofTokens`: the only document of a text. A text may hold none, but not two.
-/

namespace ComponentRules.Yaml

inductive Node
  | scalar (place : Place) (tag : Option Uri) (plain : Bool) (text : List Char)
  | sequence (place : Place) (tag : Option Uri) (items : List Node)
  | mapping (place : Place) (tag : Option Uri) (pairs : List (Node × Node))
  | alias (place : Place) (id : Nat)
  /-- What would be here, had the text no fault. -/
  | broken (fault : Fault)

namespace Node

/-- A node that is not written. -/
def nothing (place : Place) : Node :=
  .scalar place none true []

mutual

/-- The number of marks that make a tree, and whether it is whole: one for a scalar or an alias, two
for a collection. The second of a collection is missing where the tree breaks off. -/
def marks : Node → Nat × Bool
  | .scalar _ _ _ _ => (1, true)
  | .alias _ _ => (1, true)
  | .sequence _ _ items => let (n, whole) := itemMarks items; (n + if whole then 2 else 1, whole)
  | .mapping _ _ pairs => let (n, whole) := pairMarks pairs; (n + if whole then 2 else 1, whole)
  | .broken _ => (0, false)

def itemMarks : List Node → Nat × Bool
  | [] => (0, true)
  | item :: items =>
    let (n, whole) := item.marks
    let (more, rest) := itemMarks items
    (n + more, whole && rest)

def pairMarks : List (Node × Node) → Nat × Bool
  | [] => (0, true)
  | (key, value) :: pairs =>
    let (n, whole) := key.marks
    let (m, whole') := value.marks
    let (more, rest) := pairMarks pairs
    (n + m + more, whole && whole' && rest)

end

end Node

/-! ## Anchors -/

/-- The anchors so far. The id of an anchor is the number of names before it, so an id may come up
twice; then it stands for the later anchor. -/
structure Anchors where
  /-- The ids of the names, the latest first. -/
  ids : List (List Char × Nat)
  /-- The number of names. -/
  names : Nat
  /-- Which anchor an id stands for, the latest first. -/
  places : List (Nat × Nat)
  /-- The number of anchors. -/
  count : Nat

namespace Anchors

def empty : Anchors :=
  ⟨[], 0, [], 0⟩

def id? (a : Anchors) (name : List Char) : Option Nat :=
  a.ids.lookup name

/-- The anchors after one more. -/
def add (a : Anchors) (name : List Char) : Anchors where
  ids := (name, a.names) :: a.ids
  names := if (a.id? name).isSome then a.names else a.names + 1
  places := (a.names, a.count) :: a.places
  count := a.count + 1

end Anchors

/-! ## Reading tokens -/

/-- The tokens to come and the one that stays at their end, the anchors so far and the nodes they
stand at. -/
structure Reading where
  tokens : List Token
  last : Token
  anchors : Anchors
  nodes : List (Nat × Node)

abbrev Read := StateM Reading

namespace Read

def next : Read Token := do
  let r ← get
  return r.tokens.headD r.last

def lexeme : Read Lexeme :=
  Token.lexeme <$> next

def skip : Read Unit :=
  modify fun r => { r with tokens := r.tokens.tail }

/-- Ends the reading. The same fault shows from now on. -/
def stop (fault : Fault) : Read Node := do
  modify fun r => { r with tokens := [], last := ⟨.broken fault, .start⟩ }
  return .broken fault

/-- The next token may not stand here, inside something that began at `start`. -/
def refuse (flaw : Flaw) (task : Task) (start : Place) : Read Node := do
  let t ← next
  match t.lexeme with
  | .broken fault => stop fault
  | _ => stop (.malformed flaw t.place (some (task, start)))

/-- A node that is not written. Whether it is can be known only from the next token. -/
def nothing : Read Node := do
  let t ← next
  match t.lexeme with
  | .broken fault => stop fault
  | _ => return .nothing t.place

/-- A fault that shows here, as what a list of nodes ends with. -/
def ending : Read (List Node) := do
  match ← lexeme with
  | .broken fault => return [.broken fault]
  | _ => return []

end Read

open Read

/-- The tags that handles stand for. -/
abbrev Handles := List (List Char × Uri)

/-- The handles that need no directive. -/
def Handles.standard : Handles :=
  [(['!'], .ofText ['!']), (['!', '!'], .ofText "tag:yaml.org,2002:".toList)]

/-- The whole of a tag, if its handle is known. -/
def Tag.resolve? (handles : Handles) (t : Tag) : Option Uri :=
  if t.handle.isEmpty then some t.suffix
  else (handles.lookup t.handle).map (·.append t.suffix)

/-- What may stand before a node. -/
structure Properties where
  anchor : Option (List Char)
  /-- The tag and where it stands. -/
  tag : Option (Tag × Place)

/-- The anchor before a node, if there is one. -/
def anchor? : Read (Option (List Char)) := do
  match ← lexeme with
  | .anchor name =>
    skip
    return some name
  | _ => return none

/-- The tag before a node, if there is one. -/
def tag? : Read (Option (Tag × Place)) := do
  let t ← next
  match t.lexeme with
  | .tag tag =>
    skip
    return some (tag, t.place)
  | _ => return none

/-- The anchor and the tag before a node, in any order. -/
def properties : Read Properties := do
  match ← anchor? with
  | some name => return ⟨some name, ← tag?⟩
  | none =>
    match ← tag? with
    | some tag => return ⟨← anchor?, some tag⟩
    | none => return ⟨none, none⟩

/-- Whether a block sequence goes on without an item here. -/
def endsItem : Lexeme → Bool
  | .blockEntry | .blockEnd => true
  | _ => false

/-- Whether a sequence as a mapping's value goes on without an item here. -/
def endsInnerItem : Lexeme → Bool
  | .blockEntry | .key | .value | .blockEnd => true
  | _ => false

/-- Whether a block mapping goes on without a key or a value here. -/
def endsPart : Lexeme → Bool
  | .key | .value | .blockEnd => true
  | _ => false

/-- Whether a flow sequence goes on without a value here. -/
def endsFlowItem : Lexeme → Bool
  | .flowEntry | .flowSequenceEnd => true
  | _ => false

/-- Whether a flow mapping goes on without a value here. -/
def endsFlowPart : Lexeme → Bool
  | .flowEntry | .flowMappingEnd => true
  | _ => false

def isValue : Lexeme → Bool
  | .value => true
  | _ => false

mutual

/-- A node. Blocks begin only where `block` holds; a sequence as a mapping's value may stand at the
indentation of the mapping, where `inner` holds. -/
def node (handles : Handles) : Nat → Bool → Bool → Read Node
  | 0, _, _ => stop .unfinished
  | fuel + 1, block, inner => do
    let first ← next
    match first.lexeme with
    | .alias name =>
      skip
      match (← get).anchors.id? name with
      | some id => return .alias first.place id
      | none => stop (.unknownAnchor first.place)
    | _ =>
      let p ← properties
      match ← lexeme, p.tag with
      | .broken fault, _ => stop fault
      | _, none => named handles fuel block inner p.anchor none first.place
      | _, some (tag, place) =>
        match tag.resolve? handles with
        | some tag => named handles fuel block inner p.anchor (some tag) first.place
        | none => stop (.malformed .unknownHandle place (some (.node, first.place)))

/-- A node behind its properties, with the name it has. -/
def named (handles : Handles) :
    Nat → Bool → Bool → Option (List Char) → Option Uri → Place → Read Node
  | 0, _, _, _, _, _ => stop .unfinished
  | fuel + 1, block, inner, none, tag, start =>
    content handles fuel block inner tag tag.isSome start
  | fuel + 1, block, inner, some name, tag, start => do
    let number := (← get).anchors.count
    modify fun r => { r with anchors := r.anchors.add name }
    let n ← content handles fuel block inner tag true start
    modify fun r => { r with nodes := (number, n) :: r.nodes }
    return n

/-- A node behind its properties, which began at `start`. It may be missing if it has some. -/
def content (handles : Handles) :
    Nat → Bool → Bool → Option Uri → Bool → Place → Read Node
  | 0, _, _, _, _, _ => stop .unfinished
  | fuel + 1, block, inner, tag, marked, start => do
    let first ← next
    match first.lexeme, block, inner with
    | .blockEntry, _, true => return .sequence start tag (← innerItems handles fuel)
    | .scalar plain text, _, _ =>
      skip
      return .scalar start tag plain text
    | .flowSequence, _, _ =>
      skip
      return .sequence start tag (← flowItems handles fuel true first.place)
    | .flowMapping, _, _ =>
      skip
      return .mapping start tag (← flowPairs handles fuel true first.place)
    | .blockSequence, true, _ =>
      skip
      return .sequence start tag (← blockItems handles fuel first.place)
    | .blockMapping, true, _ =>
      skip
      return .mapping start tag (← blockPairs handles fuel first.place)
    | _, _, _ =>
      if marked then return .scalar start tag true []
      else refuse .noContent (if block then .blockNode else .flowNode) start

/-- The items of a block sequence. -/
def blockItems (handles : Handles) : Nat → Place → Read (List Node)
  | 0, _ => return [← stop .unfinished]
  | fuel + 1, start => do
    match ← lexeme with
    | .blockEntry =>
      skip
      let item ← if endsItem (← lexeme) then nothing else node handles fuel true false
      return item :: (← blockItems handles fuel start)
    | .blockEnd =>
      skip
      return []
    | _ => return [← refuse .noEntry .blockSequence start]

/-- The items of a block sequence at the indentation of the mapping around it. -/
def innerItems (handles : Handles) : Nat → Read (List Node)
  | 0 => return [← stop .unfinished]
  | fuel + 1 => do
    match ← lexeme with
    | .blockEntry =>
      skip
      let item ← if endsInnerItem (← lexeme) then nothing else node handles fuel true false
      return item :: (← innerItems handles fuel)
    | _ => ending

/-- The pairs of a block mapping. -/
def blockPairs (handles : Handles) : Nat → Place → Read (List (Node × Node))
  | 0, start => return [(← stop .unfinished, .nothing start)]
  | fuel + 1, start => do
    match ← lexeme with
    | .key =>
      skip
      let key ← if endsPart (← lexeme) then nothing else node handles fuel true true
      let value ← blockValue handles fuel
      return (key, value) :: (← blockPairs handles fuel start)
    | .blockEnd =>
      skip
      return []
    | _ => return [(← refuse .noKey .blockMapping start, .nothing start)]

/-- The value behind a key of a block mapping. -/
def blockValue (handles : Handles) : Nat → Read Node
  | 0 => stop .unfinished
  | fuel + 1 => do
    if isValue (← lexeme) then
      skip
      if endsPart (← lexeme) then nothing else node handles fuel true true
    else nothing

/-- The items of a flow sequence, the first or a further one. -/
def flowItems (handles : Handles) : Nat → Bool → Place → Read (List Node)
  | 0, _, _ => return [← stop .unfinished]
  | fuel + 1, first, start => do
    match ← lexeme, first with
    | .flowSequenceEnd, _ =>
      skip
      return []
    | .flowEntry, false =>
      skip
      match ← lexeme with
      | .flowSequenceEnd =>
        skip
        return []
      | _ => flowItem handles fuel start
    | _, true => flowItem handles fuel start
    | _, false => return [← refuse .noItemEnd .flowSequence start]

/-- An item of a flow sequence and those behind it. A pair is a mapping of its own. -/
def flowItem (handles : Handles) : Nat → Place → Read (List Node)
  | 0, _ => return [← stop .unfinished]
  | fuel + 1, start => do
    let first ← next
    match first.lexeme with
    | .key =>
      skip
      let pair ← flowPair handles fuel
      let behind := (← ending).map fun n => (n, .nothing start)
      return .mapping first.place none (pair :: behind) :: (← flowItems handles fuel false start)
    | _ =>
      let item ← node handles fuel false false
      return item :: (← flowItems handles fuel false start)

/-- A pair inside a flow sequence. A missing key takes the place of the token that shows it is
missing. -/
def flowPair (handles : Handles) : Nat → Read (Node × Node)
  | 0 => do
    let n ← stop .unfinished
    return (n, n)
  | fuel + 1 => do
    let first ← next
    let key ←
      if isValue first.lexeme || endsFlowItem first.lexeme then do
        skip
        pure (.nothing first.place)
      else node handles fuel false false
    if isValue (← lexeme) then
      skip
      if endsFlowItem (← lexeme) then return (key, ← nothing)
      else return (key, ← node handles fuel false false)
    else return (key, ← nothing)

/-- The pairs of a flow mapping, the first or a further one. -/
def flowPairs (handles : Handles) : Nat → Bool → Place → Read (List (Node × Node))
  | 0, _, start => return [(← stop .unfinished, .nothing start)]
  | fuel + 1, first, start => do
    match ← lexeme, first with
    | .flowMappingEnd, _ =>
      skip
      return []
    | .flowEntry, false =>
      skip
      match ← lexeme with
      | .flowMappingEnd =>
        skip
        return []
      | _ => flowMember handles fuel start
    | _, true => flowMember handles fuel start
    | _, false => return [(← refuse .noPairEnd .flowMapping start, .nothing start)]

/-- A pair of a flow mapping and those behind it. Without a colon there is no value. -/
def flowMember (handles : Handles) : Nat → Place → Read (List (Node × Node))
  | 0, start => return [(← stop .unfinished, .nothing start)]
  | fuel + 1, start => do
    match ← lexeme with
    | .key =>
      skip
      let next ← lexeme
      let key ←
        if isValue next || endsFlowPart next then nothing else node handles fuel false false
      let value ← flowValue handles fuel
      return (key, value) :: (← flowPairs handles fuel false start)
    | _ =>
      let key ← node handles fuel false false
      let value ← nothing
      return (key, value) :: (← flowPairs handles fuel false start)

/-- The value behind a key of a flow mapping. -/
def flowValue (handles : Handles) : Nat → Read Node
  | 0 => stop .unfinished
  | fuel + 1 => do
    if isValue (← lexeme) then
      skip
      if endsFlowPart (← lexeme) then nothing else node handles fuel false false
    else nothing

end

/-! ## Documents -/

/-- A tree, the nodes that its aliases stand for, the number of marks that make it, and what is
wrong behind it. -/
structure Document where
  root : Node
  targets : List (Nat × Node)
  size : Nat
  flawBehind : Option Fault

/-- The node that an alias stands for. -/
def Document.target? (d : Document) (id : Nat) : Option Node :=
  d.targets.lookup id

/-- What the directives so far say. -/
structure Preamble where
  versioned : Bool
  handles : Handles

/-- The preamble with one more directive. Version 1.1 and 1.2 are known; nothing is said twice. -/
def Preamble.add (p : Preamble) : Directive → Except Flaw Preamble
  | .version major minor =>
    if p.versioned then .error .repeatedVersion
    else if major ≠ 1 ∨ (minor ≠ 1 ∧ minor ≠ 2) then .error .unknownVersion
    else .ok { p with versioned := true }
  | .tag handle stem =>
    if (p.handles.lookup handle).isSome then .error .repeatedHandle
    else .ok { p with handles := (handle, stem) :: p.handles }

/-- The directives before a document, and the tokens behind its opening. -/
def preamble (p : Preamble) : List Token → Scan (Preamble × List Token)
  | [] => .error .unfinished
  | t :: tokens =>
    match t.lexeme with
    | .directive d =>
      match p.add d with
      | .ok p => preamble p tokens
      | .error flaw => .error (.malformed flaw t.place none)
    | .documentStart => .ok (p, tokens)
    | .broken fault => .error fault
    | _ => .error (.malformed .noDocumentStart t.place none)

/-- Whether a document that was opened has no node. -/
def endsDocument : Lexeme → Bool
  | .directive _ | .documentStart | .documentEnd | .finish => true
  | _ => false

/-- The first of some tokens, if there is one. -/
def firstLexeme (tokens : List Token) : Lexeme :=
  (tokens.head?.map (·.lexeme)).getD .finish

/-- What is wrong behind a document: it ends in a fault, or there is more than its end. -/
def flawBehind? (tokens : List Token) : Option Fault :=
  match firstLexeme tokens with
  | .broken fault => some fault
  | _ =>
    let behind := tokens.dropWhile fun t =>
      match t.lexeme with
      | .documentEnd => true
      | _ => false
    match firstLexeme behind with
    | .finish => none
    | _ => some .severalDocuments

/-- A document from its first node on. -/
def document (handles : Handles) (missing : Bool) (tokens : List Token) : Document :=
  let last : Token := tokens.getLast?.getD ⟨.finish, .start⟩
  let root : Read Node :=
    if missing then nothing else node handles (6 * tokens.length + 6) true false
  let (root, r) := root.run ⟨tokens, last, .empty, []⟩
  let targets := r.anchors.places.filterMap fun (id, number) =>
    (r.nodes.lookup number).map fun n => (id, n)
  ⟨root, targets, root.marks.1, flawBehind? (r.tokens.headD r.last :: r.tokens.tail)⟩

/-- A document that breaks off before its first node. -/
def Document.broken (fault : Fault) : Document :=
  ⟨.broken fault, [], 0, some fault⟩

/-- The document of a text, if it has one. -/
def Document.ofTokens (tokens : List Token) : Option Document :=
  match firstLexeme tokens with
  | .finish => none
  | .directive _ | .documentStart =>
    match preamble ⟨false, []⟩ tokens with
    | .ok (p, tokens) =>
      some (document (p.handles ++ .standard) (endsDocument (firstLexeme tokens)) tokens)
    | .error fault => some (.broken fault)
  | _ => some (document .standard false tokens)

/-- The document in a text, if it has one. -/
def Document.ofText (text : String) : Option Document :=
  Document.ofTokens (Token.scan text.toList)

end ComponentRules.Yaml
