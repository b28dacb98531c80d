import ComponentRules.Yaml.Datum

/-!
# Reading YAML trees

A reader walks through a document and follows its aliases. So that no text makes it walk forever,
collections may stand only so deep inside each other and aliases are followed only so often.

* `Walk`: a walk that may come upon a fault.
* `Walk.text`, `Walk.optional`, `Walk.sequence`, `Walk.pairs`: readers for the shapes of a node. An
  empty plain scalar may stand for an empty collection.
* `Walk.datum`: what a node stands for.
* `readText`: a reader applied to the only document of a text.
-/

namespace ComponentRules.Yaml

/-- How many collections may stand inside each other. -/
def maxDepth : Nat := 128

/-- How often aliases are followed for every mark in the text. -/
def followsPerMark : Nat := 100

/-- A walk through a document, with the number of aliases that may still be followed. -/
abbrev Walk := ReaderT Document (StateT Nat (Except Fault))

/-- The steps to the value of a key. -/
def Path.value (path : Path) : Node → Path
  | .scalar _ _ _ text => .key (String.ofList text) :: path
  | _ => .unnamed :: path

namespace Walk

/-- The node that a node stands for. It is no alias, and there is no fault at it. -/
def follow (n : Node) : Walk Node := do
  match n with
  | .alias place id =>
    match ← get with
    | 0 => throw .tooManyAliases
    | left + 1 =>
      set left
      match (← read).target? id with
      | some (.broken fault) => throw fault
      | some target => return target
      | none => throw (.unknownAnchor place)
  | .broken fault => throw fault
  | n => return n

/-- Where a node begins. -/
def placeOf : Node → Place
  | .scalar place _ _ _ | .sequence place _ _ | .mapping place _ _ | .alias place _ => place
  | .broken _ => .start

/-- A node is not what is expected. -/
def misfit {α : Type} (expected : Shape) (path : Path) (n : Node) : Walk α :=
  let wrong : Misfit := match n with
    | .scalar _ tag plain text =>
      match Datum.ofScalar expected tag plain text with
      | .ok d => .wrongType d.found expected
      | .error wrong => wrong
    | .mapping _ _ _ => .wrongType .mapping expected
    | _ => .wrongType .sequence expected
  throw (.misfit wrong ⟨placeOf n, path⟩)

/-- Whether a node is a plain scalar without text. -/
def isVoid : Node → Bool
  | .scalar _ _ true [] => true
  | _ => false

/-- The text of any scalar. -/
def text (expected : Shape) (path : Path) (n : Node) : Walk (List Char) := do
  match ← follow n with
  | .scalar _ _ _ text => return text
  | n => misfit expected path n

/-- Whether a node stands for null. Only plain scalars do. If one has the tag of null but not the
text, the collection around it at `outer` does not fit. -/
def isAbsent (outer : Site) (n : Node) : Walk Bool := do
  match n with
  | .scalar _ none true text => return text.isEmpty || isNull text
  | .scalar _ (some tag) true text =>
    if tag.text = coreTag "null" then
      if isNull text then return true
      else throw (.misfit (.wrongText (String.ofList text) .null) outer)
    else return false
  | _ => return false

/-- Nothing for null. -/
def optional {α : Type} (outer : Site) (reader : Node → Walk α) (n : Node) :
    Walk (Option α) := do
  let n ← follow n
  if ← isAbsent outer n then return none else return some (← reader n)

/-- The items of a sequence, each with the same reader, which gets the depth left inside. -/
def sequence {α : Type} (reader : Nat → Path → Node → Walk α) (room : Nat) (path : Path)
    (n : Node) : Walk (List α) := do
  match ← follow n, room with
  | .sequence _ _ items, room + 1 =>
    items.zipIdx.mapM fun (item, i) => reader room (.item i :: path) item
  | .sequence place _ _, 0 => throw (.tooDeep place)
  | n, _ => if isVoid n then return [] else misfit .sequence path n

/-- The pairs of a mapping, where it stands and the depth left inside it. -/
def pairs (name : String) (room : Nat) (path : Path) (n : Node) :
    Walk (Nat × Site × List (Node × Node)) := do
  match ← follow n, room with
  | .mapping place _ pairs, room + 1 => return (room, ⟨place, path⟩, pairs)
  | .mapping place _ _, 0 => throw (.tooDeep place)
  | n, room =>
    if isVoid n then return (room, ⟨placeOf n, path⟩, []) else misfit (.record name) path n

/-- A tag of the document's own may not stand here. -/
def checkTag (tag : Option Uri) (site : Site) : Walk Unit :=
  if tag.any fun tag => tag.legible && tag.isLocal then throw (.misfit .ownTag site)
  else return ()

/-- What a node stands for. -/
def datum : Nat → Path → Node → Walk Datum
  | room, path, n => do
    match ← follow n, room with
    | .scalar place tag plain text, _ =>
      checkTag tag ⟨place, path⟩
      match Datum.ofScalar .any tag plain text with
      | .ok d => return d
      | .error wrong => throw (.misfit wrong ⟨place, path⟩)
    | .sequence place tag items, room + 1 =>
      checkTag tag ⟨place, path⟩
      return .sequence (← items.zipIdx.mapM fun (item, i) => datum room (.item i :: path) item)
    | .mapping place tag pairs, room + 1 =>
      checkTag tag ⟨place, path⟩
      return .mapping (← pairs.mapM fun (key, value) => do
        return (← datum room path key, ← datum room (path.value key) value))
    | n, _ =>
      match n with
      | .sequence place tag _ | .mapping place tag _ =>
        checkTag tag ⟨place, path⟩
        throw (.tooDeep place)
      | n => misfit .any path n

end Walk

/-- Reads the only document of a text; a text without document gives `void`. A fault behind the
document shows last. -/
def readText {α : Type} (void : α) (reader : Nat → Path → Node → Walk α) (text : String) :
    Except Fault α :=
  match Document.ofText text with
  | none => .ok void
  | some d => do
    let (a, _) ← (reader maxDepth [] d.root).run d |>.run (followsPerMark * d.size)
    match d.flawBehind with
    | none => pure a
    | some fault => .error fault

end ComponentRules.Yaml
