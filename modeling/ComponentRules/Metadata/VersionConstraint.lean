import ComponentRules.Json.Reader

/-!
# Version constraints

What a dependency declaration demands of the version. Rules never look at it; it is kept so that
metadata written back demands the same.

* `VersionConstraint.preferred`: the version that comes first.
* `VersionConstraint.reader`, `VersionConstraint.toValue`: reading and writing one. It may also be
  read from an array, by position. Members it does not know are passed over.
-/

namespace ComponentRules

open Json

structure VersionConstraint where
  strictly : Option String
  requires : Option String
  prefers : Option String
  rejects : List String
  deriving DecidableEq, Repr

namespace VersionConstraint

/-- No demand at all. -/
def free : VersionConstraint :=
  ⟨none, none, none, []⟩

/-- The demand for one version. -/
def requiring (version : String) : VersionConstraint :=
  { free with requires := some version }

/-- The strict version, else the required one, else the preferred one. -/
def preferred (v : VersionConstraint) : Option String :=
  v.strictly <|> v.requires <|> v.prefers

/-! ## Writing -/

/-- A member that is left out if there is no text. -/
def textField (name : String) : Option String → Fields
  | none => []
  | some text => [(name, .string text)]

/-- A member that is left out if the list is empty. -/
def listField (name : String) : List Value → Fields
  | [] => []
  | items => [(name, .array items)]

def toValue (v : VersionConstraint) : Value :=
  .object (textField "strictly" v.strictly ++ textField "requires" v.requires ++
    textField "prefers" v.prefers ++ listField "rejects" (v.rejects.map .string))

/-! ## Reading -/

/-- The members read so far. -/
structure Draft where
  strictly : Option (Option String)
  requires : Option (Option String)
  prefers : Option (Option String)
  rejects : Option (List String)

namespace Draft

def empty : Draft :=
  ⟨none, none, none, none⟩

def member : Reader.Member Draft := fun draft key settled room node =>
  if key = "strictly" then do
    let text ← Reader.once draft.strictly key settled (Reader.optional .string room node)
    pure { draft with strictly := text }
  else if key = "requires" then do
    let text ← Reader.once draft.requires key settled (Reader.optional .string room node)
    pure { draft with requires := text }
  else if key = "prefers" then do
    let text ← Reader.once draft.prefers key settled (Reader.optional .string room node)
    pure { draft with prefers := text }
  else if key = "rejects" then do
    let texts ← Reader.once draft.rejects key settled (Reader.sequence .string room node)
    pure { draft with rejects := texts }
  else do
    node.skip
    pure draft

/-- What is not there is not demanded. -/
def finish (draft : Draft) : VersionConstraint :=
  ⟨draft.strictly.join, draft.requires.join, draft.prefers.join, draft.rejects.getD []⟩

end Draft

/-- The places of the demands in an array. -/
def places : List (Reader.Place VersionConstraint) :=
  [fun v room node => do pure { v with strictly := ← Reader.optional .string room node },
    fun v room node => do pure { v with requires := ← Reader.optional .string room node },
    fun v room node => do pure { v with prefers := ← Reader.optional .string room node },
    fun v room node => do pure { v with rejects := ← Reader.sequence .string room node }]

def reader : Reader VersionConstraint := fun room node =>
  match node with
  | .array start items fin =>
    match room with
    | 0 => .error ⟨.tooDeep, start + 1⟩
    | room + 1 => Reader.tuple room fin places items free
  | node =>
    Reader.record "VersionConstraint" Draft.member .empty (fun draft => .ok draft.finish) room node

end VersionConstraint

end ComponentRules
