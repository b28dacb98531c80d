import ComponentRules.Metadata.Document

/-!
# Rules

A rule rewrites the dependency lists of a component's variants. It may look at all of the metadata
and at the place of a variant in it, but it gives every variant a new list and nothing else.

* `Rule.run`: a rule applied to metadata.
* `Rule.run_frame`: all but the dependency lists stays as it is.
* `Removal`: the rule that drops the declarations of one name.
-/

namespace ComponentRules

structure Rule where
  name : String
  /-- Whether the result may be kept for the next time. -/
  cacheable : Bool
  /-- The new dependencies of a variant, which stands at a place in the metadata. -/
  edit : Metadata → Nat → Variant → List Declaration

namespace Rule

/-- The rule that edits every dependency list in the same way. -/
def ofEdit (name : String) (edit : List Declaration → List Declaration) : Rule :=
  ⟨name, false, fun _ _ v => edit v.dependencies⟩

/-- The same rule for the variants of one name only. -/
def onVariant (variant : String) (rule : Rule) : Rule :=
  { rule with edit := fun m i v => if v.name = variant then rule.edit m i v else v.dependencies }

/-- The same rule for the components of one group only. -/
def onGroup (group : String) (rule : Rule) : Rule :=
  { rule with edit := fun m i v =>
      if m.component.group = group then rule.edit m i v else v.dependencies }

/-- A variant after the rule. -/
def runVariant (rule : Rule) (m : Metadata) (i : Nat) (v : Variant) : Variant :=
  { v with dependencies := rule.edit m i v }

/-- Metadata after the rule. -/
def run (rule : Rule) (m : Metadata) : Metadata :=
  { m with variants := m.variants.mapIdx (rule.runVariant m) }

/-! ## What a rule leaves alone -/

/-- A variant without its dependencies. -/
def frame (v : Variant) : Variant :=
  { v with dependencies := [] }

@[simp] theorem frame_runVariant (rule : Rule) (m : Metadata) (i : Nat) (v : Variant) :
    frame (rule.runVariant m i v) = frame v := rfl

theorem run_frame (rule : Rule) (m : Metadata) :
    (rule.run m).formatVersion = m.formatVersion ∧ (rule.run m).component = m.component ∧
      (rule.run m).createdBy = m.createdBy ∧ (rule.run m).extra = m.extra ∧
      (rule.run m).variants.map frame = m.variants.map frame := by
  refine ⟨rfl, rfl, rfl, rfl, ?_⟩
  refine List.ext_getElem (by simp [run]) fun i _ _ => ?_
  simp [run]

/-- A rule that does not look at the place of a variant. -/
theorem run_of_edit {rule : Rule} {m : Metadata} {f : Variant → Variant}
    (h : ∀ i v, rule.runVariant m i v = f v) :
    rule.run m = { m with variants := m.variants.map f } := by
  rw [run, Metadata.mk.injEq]
  refine ⟨rfl, rfl, rfl, List.ext_getElem (by simp) fun i _ _ => ?_, rfl⟩
  rw [List.getElem_mapIdx, List.getElem_map, h]

end Rule

/-! ## Removals -/

/-- Which dependency to drop, and from which components; from all if there is no selector. -/
structure Removal where
  target : Part
  component : Option Selector
  deriving DecidableEq

namespace Removal

/-- What is wrong with the name of a dependency to drop. -/
def targetMessage : PartFault → String
  | .empty => "Dependency name to remove cannot be empty"
  | .tooLong size =>
    "Dependency name to remove is too long (" ++ Text.decimal size ++
      " bytes). Maximum allowed: " ++ Text.decimal maxPartSize ++ " bytes"
  | .forbidden text =>
    "Dependency name '" ++ text ++ "' must be a bare module name (no whitespace or ':')"

/-- The removal of a name from every component. -/
def ofName (name : String) : Attempt Removal :=
  match Part.ofText name with
  | .ok target => .ok ⟨target, none⟩
  | .error fault => .fail (.invalid (targetMessage fault))

/-- The same removal from the components of a selector, if there is one. -/
def restrict (removal : Removal) : Option Selector → Removal
  | none => removal
  | some selector => { removal with component := some selector }

/-- The removal of an assertion library that the components using `junit:junit` never need. -/
def hamcrestCore : Removal :=
  ⟨⟨"hamcrest-core", by decide⟩, some ⟨⟨"junit", by decide⟩, ⟨"junit", by decide⟩, none⟩⟩

/-- Whether a declaration is dropped: the name decides alone. -/
def removes (removal : Removal) (d : Declaration) : Bool :=
  d.name == removal.target.text

/-- The rule that drops the declarations and keeps the others in order. -/
def rule (removal : Removal) : Rule where
  name := "remove-dependency(" ++ removal.target.text ++ ")"
  cacheable := true
  edit _ _ v := v.dependencies.filter fun d => !removal.removes d

end Removal

end ComponentRules
