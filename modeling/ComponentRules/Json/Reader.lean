import ComponentRules.Json.Content
import ComponentRules.Json.Node

/-!
# Reading JSON trees

A reader asks a tree for a value of a certain shape and meets the faults in text order. It keeps
what it understands; what it does not look at it can keep as a `Content` or skip.

* `Node.value`: any value. A key that is repeated keeps its first place and its last value.
* `Node.skip`: passes over a value, with the laxer rules for skipped text.
* `Reader`: readers for strings, sequences, maps and records.
* `Document.read`: a reader applied to a whole text.
-/

namespace ComponentRules.Json

/-- How many containers may stand inside each other. -/
def maxDepth : Nat := 127

namespace Scalar

/-- The value of a scalar; a number may be too large and a string may hold half a character. -/
def value : Scalar → Except Fault Content
  | .null => .ok .null
  | .bool b => .ok (.bool b)
  | .number n => n.map .number
  | .string s => s.map .string

/-- What a scalar is, for one who asks for something else. -/
def found : Scalar → Except Fault Found
  | .null => .ok .null
  | .bool b => .ok (.bool b)
  | .number n => n.map .number
  | .string s => s.map .string

end Scalar

/-! ## The ends of containers -/

/-- The end of an array whose items are kept. -/
def ArrayEnd.kept : ArrayEnd → Except Fault Unit
  | .closed => .ok ()
  | .cut offset => .error ⟨.endInList, offset⟩
  | .junk start => .error ⟨.expectedCommaOrBracket, start + 1⟩
  | .commaClosed start => .error ⟨.trailingComma, start + 1⟩
  | .commaCut offset => .error ⟨.endInValue, offset⟩

/-- The end of an array that is skipped. -/
def ArrayEnd.skipped : ArrayEnd → Except Fault Unit
  | .commaClosed start => .error ⟨.expectedValue, start + 1⟩
  | fin => fin.kept

/-- The end of an array of which no further item is wanted. -/
def ArrayEnd.full : ArrayEnd → Except Fault Unit
  | .junk start => .error ⟨.trailingCharacters, start + 1⟩
  | .commaCut offset => .error ⟨.trailingCharacters, offset⟩
  | fin => fin.kept

/-- The end of an object whose members are kept: the number of bytes up to behind its brace. -/
def ObjectEnd.kept : ObjectEnd → Except Fault Nat
  | .closed stop => .ok stop
  | .cut offset => .error ⟨.endInObject, offset⟩
  | .junk start => .error ⟨.expectedCommaOrBrace, start + 1⟩
  | .noKey start => .error ⟨.expectedKey, start + 1⟩
  | .brokenKey fault => .error fault.kept
  | .commaClosed start => .error ⟨.trailingComma, start + 1⟩
  | .commaCut offset => .error ⟨.endInValue, offset⟩

/-- The end of an object that is skipped. -/
def ObjectEnd.skipped : ObjectEnd → Except Fault Nat
  | .brokenKey fault => .error fault.skipped
  | .commaClosed start => .error ⟨.expectedKey, start + 1⟩
  | .commaCut offset => .error ⟨.endInObject, offset⟩
  | fin => fin.kept

/-! ## Any value -/

namespace Node

mutual

/-- The value of a node in which at most `room` containers stand inside each other. -/
def value (room : Nat) : Node → Except Fault Content
  | .scalar v _ _ => v.value
  | .broken _ fault => .error fault.kept
  | .array start items fin =>
    match room with
    | 0 => .error ⟨.tooDeep, start + 1⟩
    | room + 1 => do
      let items ← values room items
      fin.kept
      pure (.array items)
  | .object start members fin =>
    match room with
    | 0 => .error ⟨.tooDeep, start + 1⟩
    | room + 1 => do
      let members ← fields room .empty members
      let _ ← fin.kept
      pure (.object members)

/-- The values of the items. -/
def values (room : Nat) : List Node → Except Fault (List Content)
  | [] => .ok []
  | item :: items => do
    let v ← item.value room
    let vs ← values room items
    pure (v :: vs)

/-- The members, behind those read before. -/
def fields (room : Nat) (before : Object) : List (Key × Node) → Except Fault Object
  | [] => .ok before
  | (key, node) :: members => do
    let text ← key.text
    let v ← node.value room
    fields room (before.insert text v) members

end

mutual

/-- Passes over a node. -/
def skip : Node → Except Fault Unit
  | .scalar _ _ _ => .ok ()
  | .broken _ fault => .error fault.skipped
  | .array _ items fin => do
    skipItems items
    fin.skipped
  | .object _ members fin => do
    skipMembers members
    let _ ← fin.skipped
    pure ()

/-- Passes over items. -/
def skipItems : List Node → Except Fault Unit
  | [] => .ok ()
  | item :: items => do
    item.skip
    skipItems items

/-- Passes over members. -/
def skipMembers : List (Key × Node) → Except Fault Unit
  | [] => .ok ()
  | (_, node) :: members => do
    node.skip
    skipMembers members

end

/-- The fault of a node that is not what was asked for. A scalar is consumed, a container is
not. -/
def mismatch (expected : Shape) : Node → Fault
  | .scalar v _ stop =>
    match v.found with
    | .ok found => ⟨.invalidType found expected, stop⟩
    | .error fault => fault
  | .array start _ _ => ⟨.invalidType .sequence expected, start⟩
  | .object start _ _ => ⟨.invalidType .map expected, start⟩
  | .broken _ fault => fault.kept

end Node

/-! ## Readers -/

/-- Reads a node in which a number of containers may stand inside each other. -/
abbrev Reader (α : Type) := Nat → Node → Except Fault α

namespace Reader

def string : Reader String := fun _ node =>
  match node with
  | .scalar (.string s) _ _ => s
  | node => .error (node.mismatch .string)

/-- Nothing for `null`. -/
def optional {α : Type} (reader : Reader α) : Reader (Option α) := fun room node =>
  match node with
  | .scalar .null _ _ => .ok none
  | node => do
    let a ← reader room node
    pure (some a)

/-- The items of an array, each with the same reader. -/
def sequence {α : Type} (reader : Reader α) : Reader (List α) := fun room node =>
  match node with
  | .array start items fin =>
    match room with
    | 0 => .error ⟨.tooDeep, start + 1⟩
    | room + 1 => do
      let as ← items.mapM (reader room)
      fin.kept
      pure as
  | node => .error (node.mismatch .sequence)

/-- The members of any object. -/
def map : Reader Object := fun room node =>
  match node with
  | .object start members fin =>
    match room with
    | 0 => .error ⟨.tooDeep, start + 1⟩
    | room + 1 => do
      let fields ← Node.fields room .empty members
      let _ ← fin.kept
      pure fields
  | node => .error (node.mismatch .map)

/-- What to do with one member of a record, after the members before it. -/
abbrev Member (σ : Type) := σ → String → Nat → Nat → Node → Except Fault σ

/-- The members of an object in order. -/
def members {σ : Type} (room : Nat) (member : Member σ) :
    σ → List (Key × Node) → Except Fault σ
  | s, [] => .ok s
  | s, (key, node) :: rest => do
    let text ← key.text
    let s ← member s text key.settled room node
    members room member s rest

/-- An object with known members: `member` takes each in, and `finish` makes the result of them
all or names the one that is missing. -/
def object {σ α : Type} (member : Member σ) (empty : σ) (finish : σ → Except String α)
    (room start : Nat) (ms : List (Key × Node)) (fin : ObjectEnd) : Except Fault α :=
  match room with
  | 0 => .error ⟨.tooDeep, start + 1⟩
  | room + 1 => do
    let s ← members room member empty ms
    let stop ← fin.kept
    match finish s with
    | .ok a => .ok a
    | .error name => .error ⟨.missingField name, stop⟩

/-- A record: an object with known members and nothing else. -/
def record {σ α : Type} (name : String) (member : Member σ) (empty : σ)
    (finish : σ → Except String α) : Reader α := fun room node =>
  match node with
  | .object start ms fin => object member empty finish room start ms fin
  | node => .error (node.mismatch (.record name))

/-- What to do with the item at one place of a tuple. -/
abbrev Place (σ : Type) := σ → Nat → Node → Except Fault σ

/-- The items of an array, each with the place it is for. Places at the end may stay empty; an
item without a place may not be there. -/
def tuple {σ : Type} (room : Nat) (fin : ArrayEnd) :
    List (Place σ) → List Node → σ → Except Fault σ
  | [], [], s => do
    fin.full
    pure s
  | [], item :: _, _ => .error ⟨.trailingCharacters, item.start + 1⟩
  | _ :: _, [], s => do
    fin.kept
    pure s
  | place :: places, item :: items, s => do
    let s ← place s room item
    tuple room fin places items s

/-- Sets a member of a record that may be there once. -/
def once {α : Type} (current : Option α) (name : String) (settled : Nat)
    (read : Except Fault α) : Except Fault (Option α) :=
  match current with
  | some _ => .error ⟨.duplicateField name, settled⟩
  | none => read.map some

/-- A member that must be there. -/
def required {α : Type} (name : String) : Option α → Except String α
  | some a => .ok a
  | none => .error name

end Reader

/-- A whole text read as one value. -/
def Document.read {α : Type} (document : Document) (reader : Reader α) : Except Fault α := do
  let a ← reader maxDepth document.root
  match document.trailing with
  | none => pure a
  | some fault => .error fault

/-- A text read as one value. -/
def read {α : Type} (reader : Reader α) (text : String) : Except LocatedFault α :=
  ((Document.ofText text).read reader).mapError (Fault.locate text.toList)

/-- A text read as any value. -/
def Content.ofText (text : String) : Except LocatedFault Content :=
  read (fun room node => node.value room) text

end ComponentRules.Json
