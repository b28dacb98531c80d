import ComponentRules.Metadata.VersionConstraint

/-!
# Dependency declarations

A reference from a variant to another component. Rules look at its name only; every member that is
not known here is kept as it stands.

* `Declaration.text`: a declaration in one line, with the version it prefers.
* `Declaration.same`: equality, up to the order of unknown members.
* `Declaration.reader`, `Declaration.toValue`: reading and writing one.
-/

namespace ComponentRules

open Json

structure Declaration where
  group : String
  name : String
  version : Option VersionConstraint
  extra : Object

namespace Declaration

/-- A declaration of any version. -/
def ofName (group name : String) : Declaration :=
  ⟨group, name, none, .empty⟩

/-- Sets the version. -/
def withVersion (d : Declaration) (version : VersionConstraint) : Declaration :=
  { d with version := some version }

/-- Sets an unknown member. -/
def withProperty (d : Declaration) (key : String) (value : Content) : Declaration :=
  { d with extra := d.extra.insert key value }

def text (d : Declaration) : String :=
  d.group ++ ":" ++ d.name ++
    match d.version.bind (·.preferred) with
    | none => ""
    | some version => ":" ++ version

/-- Equality; the order of unknown members does not count. -/
def same (a b : Declaration) : Bool :=
  a.group == b.group && a.name == b.name && a.version == b.version && a.extra.same b.extra

/-! ## Writing -/

/-- The known members, those that are there. -/
def known (d : Declaration) : Fields :=
  [("group", .string d.group), ("module", .string d.name)] ++
    match d.version with
    | none => []
    | some version => [("version", version.toValue)]

def toValue (d : Declaration) : Value :=
  .object (d.known ++ d.extra.fields)

/-! ## Reading -/

/-- The members read so far. -/
structure Draft where
  group : Option String
  name : Option String
  version : Option (Option VersionConstraint)
  extra : Object

namespace Draft

def empty : Draft :=
  ⟨none, none, none, .empty⟩

def member : Reader.Member Draft := fun draft key settled room node =>
  if key = "group" then do
    let group ← Reader.once draft.group key settled (Reader.string room node)
    pure { draft with group }
  else if key = "module" then do
    let name ← Reader.once draft.name key settled (Reader.string room node)
    pure { draft with name }
  else if key = "version" then do
    let version ← Reader.once draft.version key settled
      (Reader.optional VersionConstraint.reader room node)
    pure { draft with version }
  else do
    let value ← node.value room
    pure { draft with extra := draft.extra.insert key value }

def finish (draft : Draft) : Except String Declaration := do
  let group ← Reader.required "group" draft.group
  let name ← Reader.required "module" draft.name
  pure ⟨group, name, draft.version.join, draft.extra⟩

end Draft

def reader : Reader Declaration :=
  Reader.record "DependencyDeclaration" Draft.member .empty Draft.finish

end Declaration

end ComponentRules
