import ComponentRules.Metadata.Declaration

/-!
# Variants

A variant of a component is one way to use it, with the dependencies that this use needs. Members
that are not known here are kept as they stand.

* `Variant.reader`, `Variant.toValue`: reading and writing one. Attributes and dependencies that are
  empty are not written.
* `Variant.same`: equality, up to the order of attributes and of unknown members.
-/

namespace ComponentRules

open Json

structure Variant where
  name : String
  attributes : Object
  dependencies : List Declaration
  extra : Object

namespace Variant

/-- A variant with nothing but a name. -/
def ofName (name : String) : Variant :=
  ⟨name, .empty, [], .empty⟩

/-- Sets an attribute. -/
def withAttribute (v : Variant) (key : String) (value : Content) : Variant :=
  { v with attributes := v.attributes.insert key value }

/-- Adds a declaration behind the others. -/
def withDependency (v : Variant) (d : Declaration) : Variant :=
  { v with dependencies := v.dependencies ++ [d] }

/-- Equality of two lists of declarations, one by one. -/
def sameDependencies : List Declaration → List Declaration → Bool
  | [], [] => true
  | a :: as, b :: bs => a.same b && sameDependencies as bs
  | _, _ => false

/-- Equality; the order of attributes and of unknown members does not count. -/
def same (a b : Variant) : Bool :=
  a.name == b.name && a.attributes.same b.attributes &&
    sameDependencies a.dependencies b.dependencies && a.extra.same b.extra

/-! ## Writing -/

/-- The known members, without empty ones. -/
def known (v : Variant) : Fields :=
  ("name", .string v.name) ::
    ((match v.attributes.fields with
      | [] => []
      | attributes => [("attributes", .object attributes)]) ++
    VersionConstraint.listField "dependencies" (v.dependencies.map Declaration.toValue))

def toValue (v : Variant) : Value :=
  .object (v.known ++ v.extra.fields)

/-! ## Reading -/

/-- The members read so far. -/
structure Draft where
  name : Option String
  attributes : Option Object
  dependencies : Option (List Declaration)
  extra : Object

namespace Draft

def empty : Draft :=
  ⟨none, none, none, .empty⟩

def member : Reader.Member Draft := fun draft key settled room node =>
  if key = "name" then do
    let name ← Reader.once draft.name key settled (Reader.string room node)
    pure { draft with name }
  else if key = "attributes" then do
    let attributes ← Reader.once draft.attributes key settled (Reader.map room node)
    pure { draft with attributes }
  else if key = "dependencies" then do
    let dependencies ← Reader.once draft.dependencies key settled
      (Reader.sequence Declaration.reader room node)
    pure { draft with dependencies }
  else do
    let value ← node.value room
    pure { draft with extra := draft.extra.insert key value }

def finish (draft : Draft) : Except String Variant := do
  let name ← Reader.required "name" draft.name
  pure ⟨name, draft.attributes.getD .empty, draft.dependencies.getD [], draft.extra⟩

end Draft

def reader : Reader Variant :=
  Reader.record "Variant" Draft.member .empty Draft.finish

end Variant

end ComponentRules
