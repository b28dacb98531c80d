import ComponentRules.Proofs.Metadata.Codec

/-!
# Equal metadata

Equality does not count the order of members, and so it is not the equality of records. It compares
declarations and variants one by one. All metadata equals itself.

* `Variant.sameDependencies_iff`, `Metadata.sameVariants_iff`: equal lists are equal one by one.
* `Metadata.same_self`: metadata equals itself.
* `Metadata.listing`: metadata by hand, from names only.
-/

namespace ComponentRules

open Json

/-! ## Declarations -/

namespace Declaration

theorem same_iff {a b : Declaration} :
    a.same b = true ↔
      a.group = b.group ∧ a.name = b.name ∧ a.version = b.version ∧
        a.extra.same b.extra = true := by
  simp only [same, Bool.and_eq_true, beq_iff_eq, and_assoc]

theorem same_self (d : Declaration) : d.same d = true :=
  same_iff.mpr ⟨rfl, rfl, rfl, d.extra.same_self⟩

end Declaration

/-! ## Variants -/

namespace Variant

theorem sameDependencies_iff {as bs : List Declaration} :
    sameDependencies as bs = true ↔ List.Forall₂ (fun a b => a.same b = true) as bs := by
  induction as generalizing bs with
  | nil => cases bs <;> simp [sameDependencies]
  | cons a as ih => cases bs <;> simp [sameDependencies, ih]

theorem sameDependencies_self (ds : List Declaration) : sameDependencies ds ds = true :=
  sameDependencies_iff.mpr (List.forall₂_same.mpr fun d _ => d.same_self)

theorem same_self (v : Variant) : v.same v = true := by
  simp only [same, beq_self_eq_true, v.attributes.same_self, sameDependencies_self,
    v.extra.same_self, Bool.and_self]

end Variant

/-! ## Whole metadata -/

theorem Component.same_self (c : Component) : c.same c = true := by
  simp only [same, beq_self_eq_true, c.extra.same_self, Bool.and_self]

namespace Metadata

theorem sameVariants_iff {vs ws : List Variant} :
    sameVariants vs ws = true ↔ List.Forall₂ (fun v w => v.same w = true) vs ws := by
  induction vs generalizing ws with
  | nil => cases ws <;> simp [sameVariants]
  | cons v vs ih => cases ws <;> simp [sameVariants, ih]

theorem sameVariants_self (vs : List Variant) : sameVariants vs vs = true :=
  sameVariants_iff.mpr (List.forall₂_same.mpr fun v _ => v.same_self)

theorem sameCreator_self (creator : Option Content) : sameCreator creator creator = true := by
  cases creator with
  | none => rfl
  | some c => exact c.same_self

/-- Metadata equals itself. -/
theorem same_self (m : Metadata) : m.same m = true := by
  simp only [same, beq_self_eq_true, m.component.same_self, sameCreator_self, sameVariants_self,
    m.extra.same_self, Bool.and_self]

/-- Equal metadata has equal variants. -/
theorem variants_of_same {after m : Metadata} (h : after.same m = true) :
    List.Forall₂ (fun w v => w.same v = true) after.variants m.variants := by
  rw [← sameVariants_iff]
  simp only [same, Bool.and_eq_true] at h
  exact h.1.2

/-- Metadata given by its variants, and these by their names and the names that they depend on. -/
def listing (variants : List (String × List String)) : Metadata :=
  ⟨currentFormat, ⟨"foo", "bar", "1.0", .empty⟩, none,
    variants.map fun (name, names) => ⟨name, .empty, names.map (.ofName "junit"), .empty⟩, .empty⟩

theorem coordinate_listing (variants : List (String × List String)) :
    (listing variants).coordinate =
      .ok ⟨⟨"foo", by decide⟩, ⟨"bar", by decide⟩, ⟨"1.0", by decide⟩⟩ :=
  show Coordinate.ofTexts "foo" "bar" "1.0" = _ by decide +kernel

end Metadata

end ComponentRules
