import ComponentRules.Proofs.Composition

/-!
# What a rewrite leaves alone

A registry may also rewrite metadata in place: the rules change it one after the other, and whoever
holds it finds what they made of it, whether the work came to its end or not. All that can differ
then are the dependency lists of the variants. Only a missing coordinate ends the work early, and it
is missed before the first rule runs, so that in this case nothing differs at all.

* `Metadata.Framed`: metadata that differs in its dependency lists only.
* `Registry.applyInPlace`: a registry applied in place.
* `Registry.applyInPlace_framed`: what it leaves alone, however it ends.
-/

namespace ComponentRules

/-! ## Metadata with other dependency lists -/

/-- A variant with other dependencies. -/
structure Variant.Framed (before after : Variant) : Prop where
  name : after.name = before.name
  attributes : after.attributes = before.attributes
  extra : after.extra = before.extra

namespace Metadata

/-- Metadata with other dependencies of its variants. Members are compared with their order. -/
structure Framed (before after : Metadata) : Prop where
  formatVersion : after.formatVersion = before.formatVersion
  component : after.component = before.component
  createdBy : after.createdBy = before.createdBy
  variants : List.Forall₂ Variant.Framed before.variants after.variants
  extra : after.extra = before.extra

variable {m after : Metadata}

theorem framed_of_frame (h : after.frame = m.frame) : m.Framed after := by
  obtain ⟨hformat, hcomponent, hcreator, hvariants, hextra⟩ := Metadata.mk.inj h
  refine ⟨hformat, hcomponent, hcreator, ?_, hextra⟩
  rw [← List.forall₂_eq_eq_eq, List.forall₂_map_left_iff, List.forall₂_map_right_iff] at hvariants
  refine hvariants.flip.imp fun v w hframe => ?_
  obtain ⟨hname, hattributes, -, hextra⟩ := Variant.mk.inj hframe
  exact ⟨hname, hattributes, hextra⟩

theorem Framed.refl (m : Metadata) : m.Framed m :=
  framed_of_frame rfl

end Metadata

/-! ## Work in place -/

/-- Work on metadata in place. A problem ends it, and what was done until then stays done. -/
abbrev InPlace (α : Type) := ExceptT Problem (StateM Metadata) α

namespace InPlace

variable {α β : Type}

theorem run_bind (x : InPlace α) (f : α → InPlace β) (m : Metadata) :
    (x >>= f).run.run m =
      match x.run.run m with
      | (.ok a, after) => (f a).run.run after
      | (.error problem, after) => (.error problem, after) := by
  rw [ExceptT.run_bind, StateT.run_bind]
  rcases x.run.run m with ⟨_ | _, _⟩ <;> rfl

theorem run_get (m : Metadata) : (get : InPlace Metadata).run.run m = (.ok m, m) := rfl

theorem run_lift (x : Attempt α) (m : Metadata) : (liftM x : InPlace α).run.run m = (x, m) := by
  cases x <;> rfl

end InPlace

/-- Runs a rule in place, and gives its name. -/
def Rule.execute (rule : Rule) : InPlace String := do
  modify rule.run
  pure rule.name

namespace Registry

/-- Runs the rules for the component in place. -/
def rewriteInPlace (registry : Registry) : InPlace Rewrite := do
  let before ← get
  let c ← before.coordinate
  let applied ← (registry.rulesFor c).mapM Rule.execute
  let after ← get
  pure ⟨c, applied, changes before after, !after.same before⟩

/-- How a rewrite in place ends, and what it leaves. -/
def applyInPlace (registry : Registry) (m : Metadata) : Attempt Rewrite × Metadata :=
  registry.rewriteInPlace.run.run m

theorem mapM_execute (rules : List Rule) (m : Metadata) :
    (rules.mapM Rule.execute).run.run m = (.ok (rules.map (·.name)), runAll rules m) := by
  induction rules generalizing m with
  | nil => rfl
  | cons rule rules ih =>
    have hrule : rule.execute.run.run m = (.ok rule.name, rule.run m) := rfl
    rw [List.mapM_cons, InPlace.run_bind, hrule]
    simp only
    rw [InPlace.run_bind, ih]
    rfl

/-- A rewrite in place ends like the rewrite of a value, and leaves what that gives. If it ends with
a problem, it leaves what it was given. -/
theorem applyInPlace_eq (registry : Registry) (m : Metadata) :
    registry.applyInPlace m =
      match registry.apply m with
      | .ok (rewrite, after) => (.ok rewrite, after)
      | .error problem => (.error problem, m) := by
  unfold applyInPlace rewriteInPlace apply
  rw [InPlace.run_bind, InPlace.run_get]
  simp only
  rw [InPlace.run_bind, InPlace.run_lift]
  cases m.coordinate with
  | error problem => rfl
  | ok c =>
    simp only
    rw [InPlace.run_bind, mapM_execute]
    rfl

/-- **What a rewrite leaves alone.** However a rewrite in place ends, the metadata differs from what
it was in the dependency lists of its variants only. If it ends with a problem, it does not differ
at all; and if it ends with a rewrite, this tells the coordinate of the component, which is the same
before and after. -/
theorem applyInPlace_framed (registry : Registry) (m : Metadata) :
    m.Framed (registry.applyInPlace m).2 ∧
      (∀ problem, (registry.applyInPlace m).1 = .error problem →
        registry.apply m = .error problem ∧ (registry.applyInPlace m).2 = m) ∧
      (∀ rewrite, (registry.applyInPlace m).1 = .ok rewrite →
        registry.apply m = .ok (rewrite, (registry.applyInPlace m).2) ∧
          m.coordinate = .ok rewrite.coordinate ∧
          (registry.applyInPlace m).2.coordinate = .ok rewrite.coordinate) := by
  rw [applyInPlace_eq]
  cases happly : registry.apply m with
  | error problem =>
    refine ⟨.refl m, fun problem' hproblem => ?_, fun rewrite hrewrite => ?_⟩
    · cases hproblem
      exact ⟨rfl, rfl⟩
    · cases hrewrite
  | ok result =>
    obtain ⟨rewrite, after⟩ := result
    obtain ⟨c, hc, rfl, rfl⟩ := apply_eq_ok.mp happly
    refine ⟨Metadata.framed_of_frame (frame_runAll _ m), fun problem hproblem => ?_,
      fun rewrite' hrewrite => ?_⟩
    · cases hproblem
    · cases hrewrite
      exact ⟨rfl, hc, (coordinate_runAll _ m).trans hc⟩

end Registry

end ComponentRules
