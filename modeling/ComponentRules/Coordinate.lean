import ComponentRules.Failure
import ComponentRules.Text.Blank
import ComponentRules.Text.Split

/-!
# Coordinates and selectors

A published component is named by its coordinate, `group:module:version`. A selector names one
component, or all versions of a module, as `group:module`.

* `Part`: one part of either; it is not empty, not too long, and holds no colon and no blank.
* `Coordinate.parse`, `Selector.parse`: reading them. A selector may have blanks around it.
* `Selector.names`: whether a selector names a component.
-/

namespace ComponentRules

/-! ## Parts -/

/-- The most bytes a part may have. -/
def maxPartSize : Nat := 255

/-- The characters that may not stand in a part. -/
def isForbidden (c : Char) : Bool :=
  c == ':' || Text.isBlank c

/-- Why a text is no part. -/
inductive PartFault
  | empty
  | tooLong (size : Nat)
  | forbidden (text : String)
  deriving DecidableEq, Repr

/-- What is wrong with a text that should be a part of the given kind. -/
def PartFault.message (kind : String) : PartFault → String
  | .empty => kind ++ " cannot be empty"
  | .tooLong size =>
    kind ++ " is too long (" ++ Text.decimal size ++ " bytes). Maximum allowed: " ++
      Text.decimal maxPartSize ++ " bytes"
  | .forbidden text => kind ++ " '" ++ text ++ "' must not contain ':' or whitespace"

/-- The first fault of a text as a part, if it has any. -/
def partFault? (text : String) : Option PartFault :=
  if text.isEmpty then some .empty
  else if maxPartSize < text.utf8ByteSize then some (.tooLong text.utf8ByteSize)
  else if text.toList.any isForbidden then some (.forbidden text)
  else none

/-- A part of a coordinate. -/
structure Part where
  text : String
  valid : partFault? text = none
  deriving DecidableEq

/-- A text as a part. -/
def Part.ofText (text : String) : Except PartFault Part :=
  match h : partFault? text with
  | some fault => .error fault
  | none => .ok ⟨text, h⟩

/-- A text as a part of a given kind; the fault is put into words. -/
def Part.ofKind (kind text : String) : Except String Part :=
  (Part.ofText text).mapError (PartFault.message kind)

/-- The parts of a text, separated by colons. -/
def colonParts (text : String) : List String :=
  (Text.splitOn ':' text.toList).map String.ofList

/-! ## Coordinates -/

/-- The name of one version of a module. -/
structure Coordinate where
  group : Part
  module : Part
  version : Part
  deriving DecidableEq

namespace Coordinate

/-- A coordinate of three texts; the first that is no part is refused. -/
def ofTexts (group module version : String) : Attempt Coordinate :=
  let parts : Except String Coordinate := do
    let group ← Part.ofKind "group" group
    let module ← Part.ofKind "module" module
    let version ← Part.ofKind "version" version
    pure ⟨group, module, version⟩
  match parts with
  | .ok coordinate => .ok coordinate
  | .error reason => .fail (.invalid ("Invalid component coordinate: " ++ reason))

/-- Reads `group:module:version`. -/
def parse (text : String) : Attempt Coordinate :=
  match colonParts text with
  | [group, module, version] => ofTexts group module version
  | _ =>
    .fail (.invalid
      ("Invalid component coordinate '" ++ text ++ "': expected GROUP:MODULE:VERSION"))

def text (c : Coordinate) : String :=
  c.group.text ++ ":" ++ c.module.text ++ ":" ++ c.version.text

/-- The order by group, then module, then version, each by its characters. -/
def le (a b : Coordinate) : Bool :=
  if a.group.text = b.group.text then
    if a.module.text = b.module.text then !decide (b.version.text < a.version.text)
    else decide (a.module.text < b.module.text)
  else decide (a.group.text < b.group.text)

/-- The coordinates in ascending order. -/
def sort (coordinates : List Coordinate) : List Coordinate :=
  coordinates.mergeSort le

end Coordinate

/-! ## Selectors -/

/-- A module, in one version or in any. -/
structure Selector where
  group : Part
  module : Part
  version : Option Part
  deriving DecidableEq

namespace Selector

/-- A selector of two or three texts, or why they are none. -/
def ofParts : List String → Except String Selector
  | [group, module] => do
    let group ← Part.ofKind "group" group
    let module ← Part.ofKind "module" module
    pure ⟨group, module, none⟩
  | [group, module, version] => do
    let group ← Part.ofKind "group" group
    let module ← Part.ofKind "module" module
    let version ← Part.ofKind "version" version
    pure ⟨group, module, some version⟩
  | parts => .error ("expected 2 or 3 ':'-separated parts, found " ++ Text.decimal parts.length)

/-- Reads `group:module` or `group:module:version`; blanks around it do not count. -/
def parse (text : String) : Attempt Selector :=
  match ofParts (colonParts (Text.trim text)) with
  | .ok selector => .ok selector
  | .error reason => .fail (.invalidSelector text reason)

def text (s : Selector) : String :=
  match s.version with
  | none => s.group.text ++ ":" ++ s.module.text
  | some version => s.group.text ++ ":" ++ s.module.text ++ ":" ++ version.text

/-- Whether a selector names a component: all its parts are those of the component. -/
def names (s : Selector) (c : Coordinate) : Bool :=
  s.group == c.group && s.module == c.module &&
    match s.version with
    | none => true
    | some version => version == c.version

end Selector

end ComponentRules
