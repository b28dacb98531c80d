import ComponentRules.Coordinate
import ComponentRules.Metadata.Variant

/-!
# Component metadata

What is published about one version of a module: who it is, who wrote it, and its variants in
order. Members that are not known here are kept as they stand.

* `Metadata.coordinate`: the coordinate of the component. Metadata that was read may hold texts
  that make none.
* `Metadata.variant?`: the first variant of a name.
* `Metadata.reader`, `Metadata.toValue`: reading and writing.
-/

namespace ComponentRules

open Json

/-- Who the metadata is about. -/
structure Component where
  group : String
  module : String
  version : String
  extra : Object

structure Metadata where
  formatVersion : String
  component : Component
  createdBy : Option Content
  variants : List Variant
  extra : Object

namespace Component

/-- Equality; the order of unknown members does not count. -/
def same (a b : Component) : Bool :=
  a.group == b.group && a.module == b.module && a.version == b.version && a.extra.same b.extra

def toValue (c : Component) : Value :=
  .object ([("group", .string c.group), ("module", .string c.module),
    ("version", .string c.version)] ++ c.extra.fields)

/-- The members read so far. -/
structure Draft where
  group : Option String
  module : Option String
  version : Option String
  extra : Object

namespace Draft

def empty : Draft :=
  ⟨none, none, none, .empty⟩

def member : Reader.Member Draft := fun draft key settled room node =>
  if key = "group" then do
    let group ← Reader.once draft.group key settled (Reader.string room node)
    pure { draft with group }
  else if key = "module" then do
    let module ← Reader.once draft.module key settled (Reader.string room node)
    pure { draft with module }
  else if key = "version" then do
    let version ← Reader.once draft.version key settled (Reader.string room node)
    pure { draft with version }
  else do
    let value ← node.value room
    pure { draft with extra := draft.extra.insert key value }

def finish (draft : Draft) : Except String Component := do
  let group ← Reader.required "group" draft.group
  let module ← Reader.required "module" draft.module
  let version ← Reader.required "version" draft.version
  pure ⟨group, module, version, draft.extra⟩

end Draft

def reader : Reader Component :=
  Reader.record "ComponentIdentity" Draft.member .empty Draft.finish

end Component

namespace Metadata

/-- The version of the format that new metadata is in. -/
def currentFormat : String := "1.1"

/-- Metadata of a component without variants. -/
def ofCoordinate (c : Coordinate) : Metadata :=
  ⟨currentFormat, ⟨c.group.text, c.module.text, c.version.text, .empty⟩, none, [], .empty⟩

/-- Adds a variant behind the others. -/
def withVariant (m : Metadata) (v : Variant) : Metadata :=
  { m with variants := m.variants ++ [v] }

/-- The coordinate of the component. -/
def coordinate (m : Metadata) : Attempt Coordinate :=
  Coordinate.ofTexts m.component.group m.component.module m.component.version

/-- The first variant of a name. -/
def variant? (m : Metadata) (name : String) : Option Variant :=
  m.variants.find? (·.name == name)

/-- Equality of two lists of variants, one by one. -/
def sameVariants : List Variant → List Variant → Bool
  | [], [] => true
  | a :: as, b :: bs => a.same b && sameVariants as bs
  | _, _ => false

/-- Equality of what the two tools wrote about themselves. -/
def sameCreator : Option Content → Option Content → Bool
  | none, none => true
  | some a, some b => a.same b
  | _, _ => false

/-- Equality; the order of unknown members does not count. -/
def same (a b : Metadata) : Bool :=
  a.formatVersion == b.formatVersion && a.component.same b.component &&
    sameCreator a.createdBy b.createdBy && sameVariants a.variants b.variants &&
    a.extra.same b.extra

/-! ## Writing -/

/-- The known members. Variants are written even if there are none. -/
def known (m : Metadata) : Fields :=
  [("formatVersion", .string m.formatVersion), ("component", m.component.toValue)] ++
    (match m.createdBy with
      | none => []
      | some creator => [("createdBy", creator.value)]) ++
    [("variants", .array (m.variants.map Variant.toValue))]

def toValue (m : Metadata) : Value :=
  .object (m.known ++ m.extra.fields)

/-! ## Reading -/

/-- The members read so far. -/
structure Draft where
  formatVersion : Option String
  component : Option Component
  createdBy : Option (Option Content)
  variants : Option (List Variant)
  extra : Object

namespace Draft

def empty : Draft :=
  ⟨none, none, none, none, .empty⟩

def member : Reader.Member Draft := fun draft key settled room node =>
  if key = "formatVersion" then do
    let formatVersion ← Reader.once draft.formatVersion key settled (Reader.string room node)
    pure { draft with formatVersion }
  else if key = "component" then do
    let component ← Reader.once draft.component key settled (Component.reader room node)
    pure { draft with component }
  else if key = "createdBy" then do
    let createdBy ← Reader.once draft.createdBy key settled
      (Reader.optional (fun room node => node.value room) room node)
    pure { draft with createdBy }
  else if key = "variants" then do
    let variants ← Reader.once draft.variants key settled
      (Reader.sequence Variant.reader room node)
    pure { draft with variants }
  else do
    let value ← node.value room
    pure { draft with extra := draft.extra.insert key value }

def finish (draft : Draft) : Except String Metadata := do
  let formatVersion ← Reader.required "formatVersion" draft.formatVersion
  let component ← Reader.required "component" draft.component
  pure ⟨formatVersion, component, draft.createdBy.join, draft.variants.getD [], draft.extra⟩

end Draft

def reader : Reader Metadata :=
  Reader.record "ComponentMetadata" Draft.member .empty Draft.finish

end Metadata

end ComponentRules
