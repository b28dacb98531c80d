import ComponentRules.Proofs.Metadata.Equality
import ComponentRules.Proofs.Removals

/-!
# Registries one after the other

Which rules run is decided once, by the coordinate that the metadata has before the first of them.
No rule can change who the component is, so a decision taken again after some rules is the same one,
and a list of registrations can be cut in two at any place. Registrations that are not for the
component may be left out.

For removals more is true. What they do to metadata depends on the names that they drop from the
component and on nothing else, so they may be exchanged, repeated and run again.

* `Registry.frame_runAll`: all but the dependency lists stays as it is.
* `Registry.apply_append`: registrations in two parts, and those that may be left out.
* `Registry.apply_drops`: removals that drop the same names from the same components.
-/

namespace ComponentRules

open Outcome

/-! ## What rules leave alone -/

/-- Metadata without the dependencies of its variants. -/
def Metadata.frame (m : Metadata) : Metadata :=
  { m with variants := m.variants.map Rule.frame }

theorem Metadata.coordinate_frame (m : Metadata) : m.frame.coordinate = m.coordinate := rfl

theorem Rule.frame_run (rule : Rule) (m : Metadata) : (rule.run m).frame = m.frame := by
  obtain ⟨hformat, hcomponent, hcreator, hextra, hvariants⟩ := rule.run_frame m
  simp only [Metadata.frame, hformat, hcomponent, hcreator, hextra, hvariants]

namespace Registry

theorem frame_runAll (rules : List Rule) (m : Metadata) : (runAll rules m).frame = m.frame := by
  induction rules generalizing m with
  | nil => rfl
  | cons rule rules ih =>
    calc (runAll (rule :: rules) m).frame
        = (runAll rules (rule.run m)).frame := rfl
      _ = (rule.run m).frame := ih (rule.run m)
      _ = m.frame := rule.frame_run m

/-- Rules do not change who the component is. -/
theorem coordinate_runAll (rules : List Rule) (m : Metadata) :
    (runAll rules m).coordinate = m.coordinate := by
  rw [← Metadata.coordinate_frame, frame_runAll, Metadata.coordinate_frame]

theorem runAll_append (rules more : List Rule) (m : Metadata) :
    runAll (rules ++ more) m = runAll more (runAll rules m) :=
  List.foldl_append

/-! ## What a registry does to a component -/

theorem apply_eq_ok {registry : Registry} {m : Metadata} {rewrite : Rewrite} {after : Metadata} :
    registry.apply m = .ok (rewrite, after) ↔ ∃ c, m.coordinate = .ok c ∧
      after = runAll (registry.rulesFor c) m ∧
      rewrite = ⟨c, (registry.rulesFor c).map (·.name), changes m after, !after.same m⟩ := by
  unfold apply
  simp only [bind_eq_ok, pure_eq_ok, Prod.mk.injEq]
  constructor
  · rintro ⟨c, hc, rfl, rfl⟩
    exact ⟨c, hc, rfl, rfl⟩
  · rintro ⟨c, hc, rfl, rfl⟩
    exact ⟨c, hc, rfl, rfl⟩

/-- The rules for the component decide what a registry does. -/
theorem apply_of_rulesFor {registry : Registry} {m : Metadata} {c : Coordinate} {rules : List Rule}
    (hc : m.coordinate = .ok c) (hrules : registry.rulesFor c = rules) :
    registry.apply m = .ok (⟨c, rules.map (·.name), changes m (runAll rules m),
      !(runAll rules m).same m⟩, runAll rules m) := by
  subst hrules
  exact apply_eq_ok.mpr ⟨c, hc, rfl, rfl⟩

theorem rulesFor_append (first second : List Registration) (c : Coordinate) :
    rulesFor ⟨first ++ second⟩ c = rulesFor ⟨first⟩ c ++ rulesFor ⟨second⟩ c := by
  simp only [rulesFor, List.filter_append, List.map_append]

theorem runAll_rulesFor (registrations : List Registration) (c : Coordinate) (m : Metadata) :
    runAll (rulesFor ⟨registrations⟩ c) m =
      (registrations.filter (·.scope.covers c)).foldl (fun m r => r.rule.run m) m :=
  List.foldl_map

/-! ## Registrations that may be left out -/

/-- Whether the second list is the first without some registrations, none of which is for the
component. -/
inductive Pruned (c : Coordinate) : List Registration → List Registration → Prop
  | nil : Pruned c [] []
  | keep (r : Registration) {rs kept : List Registration} :
      Pruned c rs kept → Pruned c (r :: rs) (r :: kept)
  | drop {r : Registration} {rs kept : List Registration} :
      r.scope.covers c = false → Pruned c rs kept → Pruned c (r :: rs) kept

theorem Pruned.rulesFor {c : Coordinate} {registrations kept : List Registration}
    (h : Pruned c registrations kept) :
    rulesFor ⟨kept⟩ c = Registry.rulesFor ⟨registrations⟩ c := by
  unfold Registry.rulesFor
  congr 1
  induction h with
  | nil => rfl
  | keep r _ ih =>
    rw [List.filter_cons, List.filter_cons, ih]
  | drop hr _ ih =>
    rw [List.filter_cons_of_neg (by simp [hr]), ih]

theorem rulesFor_of_uncovered {c : Coordinate} {registrations : List Registration}
    (h : ∀ r ∈ registrations, r.scope.covers c = false) : rulesFor ⟨registrations⟩ c = [] := by
  have hnone : registrations.filter (·.scope.covers c) = [] := by
    refine List.filter_eq_nil_iff.mpr fun r hr => ?_
    rw [h r hr]
    exact Bool.false_ne_true
  rw [rulesFor, hnone, List.map_nil]

/-- **Registrations in two parts.** A registry runs the rules that are for the component, each once
and in the order of registration. To apply registrations in two parts, the second to what the first
left, is to apply them all, and the rules applied are those of the one part and then those of the
other. Registrations that are not for the component may be left out, and if none is for it, it stays
as it is and is not modified. -/
theorem apply_append {m : Metadata} {c : Coordinate} (hc : m.coordinate = .ok c) :
    (∀ registrations, ∃ rewrite,
      apply ⟨registrations⟩ m = .ok (rewrite,
        (registrations.filter (·.scope.covers c)).foldl (fun m r => r.rule.run m) m) ∧
      rewrite.applied = (registrations.filter (·.scope.covers c)).map (·.rule.name)) ∧
    (∀ first second, ∃ rewrite between rewrite' after whole,
      apply ⟨first⟩ m = .ok (rewrite, between) ∧ apply ⟨second⟩ between = .ok (rewrite', after) ∧
      apply ⟨first ++ second⟩ m = .ok (whole, after) ∧
      whole.applied = rewrite.applied ++ rewrite'.applied) ∧
    (∀ registrations kept, Pruned c registrations kept →
      apply ⟨kept⟩ m = apply ⟨registrations⟩ m) ∧
    (∀ registrations : List Registration, (∀ r ∈ registrations, r.scope.covers c = false) →
      ∃ rewrite, apply ⟨registrations⟩ m = .ok (rewrite, m) ∧ rewrite.modified = false ∧
        rewrite.applied = []) := by
  refine ⟨fun registrations => ?_, fun first second => ?_, fun registrations kept hpruned => ?_,
    fun registrations hnone => ?_⟩
  · rw [← runAll_rulesFor]
    exact ⟨_, apply_of_rulesFor hc rfl, List.map_map⟩
  · -- the second part finds the coordinate that the first part found
    have hbetween : (runAll (rulesFor ⟨first⟩ c) m).coordinate = .ok c := by
      rw [coordinate_runAll, hc]
    have hwhole := apply_of_rulesFor hc (rulesFor_append first second c)
    rw [runAll_append] at hwhole
    refine ⟨_, _, _, _, _, apply_of_rulesFor hc rfl, apply_of_rulesFor hbetween rfl, hwhole, ?_⟩
    exact List.map_append
  · rw [apply_of_rulesFor hc hpruned.rulesFor, apply_of_rulesFor hc rfl]
  · refine ⟨_, apply_of_rulesFor hc (rulesFor_of_uncovered hnone), ?_, rfl⟩
    have hsame : (runAll [] m).same m = true := m.same_self
    rw [hsame]
    rfl

end Registry

/-- The registration of a rule that edits every dependency list in the same way. -/
def Registration.ofEdit (scope : Scope) (name : String)
    (edit : List Declaration → List Declaration) : Registration :=
  ⟨scope, .ofEdit name edit⟩

/-- The components that the default removal is for. -/
def Scope.junit : Scope :=
  .ofSelector Removal.hamcrestCore.component

namespace Registry

/-- A rule that turns round and one that cuts off, and between them one for another component. -/
theorem apply_append_reverse :
    ∃ m c, m = Metadata.listing [("api", ["asm", "junit"])] ∧ m.coordinate = .ok c ∧
      Scope.junit.covers c = false ∧
      ∃ rewrite between rewrite' after whole idle,
        apply ⟨[.ofEdit .everywhere "reverse" List.reverse,
          .ofEdit .junit "clear" (List.take 0)]⟩ m = .ok (rewrite, between) ∧
        apply ⟨[.ofEdit .everywhere "cut" (List.take 1)]⟩ between = .ok (rewrite', after) ∧
        apply ⟨[.ofEdit .everywhere "reverse" List.reverse, .ofEdit .junit "clear" (List.take 0),
          .ofEdit .everywhere "cut" (List.take 1)]⟩ m = .ok (whole, after) ∧
        whole.applied = ["reverse", "cut"] ∧ after = Metadata.listing [("api", ["junit"])] ∧
        apply ⟨[.ofEdit .everywhere "reverse" List.reverse]⟩ m = .ok (rewrite, between) ∧
        apply ⟨[.ofEdit .junit "clear" (List.take 0)]⟩ m = .ok (idle, m) ∧
        idle.modified = false := by
  have hc := Metadata.coordinate_listing [("api", ["asm", "junit"])]
  obtain ⟨hexact, hparts, hpruned, hnone⟩ := apply_append hc
  obtain ⟨rewrite, between, rewrite', after, whole, hfirst, hsecond, hwhole, -⟩ :=
    hparts [.ofEdit .everywhere "reverse" List.reverse, .ofEdit .junit "clear" (List.take 0)]
      [.ofEdit .everywhere "cut" (List.take 1)]
  obtain ⟨whole', hwhole', happlied⟩ :=
    hexact [.ofEdit .everywhere "reverse" List.reverse, .ofEdit .junit "clear" (List.take 0),
      .ofEdit .everywhere "cut" (List.take 1)]
  cases hwhole.symm.trans hwhole'
  have hkept := hpruned [.ofEdit .everywhere "reverse" List.reverse,
    .ofEdit .junit "clear" (List.take 0)] _ (.keep _ (.drop rfl .nil))
  obtain ⟨idle, hidle, hmodified, -⟩ :=
    hnone [.ofEdit .junit "clear" (List.take 0)] (List.forall_mem_singleton.mpr rfl)
  exact ⟨_, _, rfl, hc, rfl, rewrite, between, rewrite', _, whole, idle, hfirst, hsecond,
    hwhole, happlied, rfl, hkept.trans hfirst, hidle, hmodified⟩

end Registry

/-! ## Registries of removals -/

namespace Registry

/-- The names that a registry of removals drops, each with the components that it is dropped
from. -/
def drops (removals : List (Scope × Removal)) : List (Scope × String) :=
  removals.map fun p => (p.1, p.2.target.text)

theorem mem_targets_iff_drops {removals : List (Scope × Removal)} {c : Coordinate}
    {name : String} :
    name ∈ targets removals c ↔
      ∃ scope, (scope, name) ∈ drops removals ∧ scope.covers c = true := by
  rw [mem_targets]
  constructor
  · rintro ⟨p, hp, hcovers, rfl⟩
    exact ⟨p.1, List.mem_map_of_mem hp, hcovers⟩
  · rintro ⟨scope, hdrops, hcovers⟩
    obtain ⟨p, hp, heq⟩ := List.mem_map.mp hdrops
    cases heq
    exact ⟨p, hp, hcovers, rfl⟩

/-- A registry of removals finds nothing left to drop. -/
theorem apply_without_targets (removals : List (Scope × Removal)) {m : Metadata} {c : Coordinate}
    (hc : m.coordinate = .ok c) :
    ∃ again, (ofRemovals removals).apply (m.without (targets removals c)) =
      .ok (again, m.without (targets removals c)) ∧ again.modified = false := by
  have hafter : (m.without (targets removals c)).coordinate = .ok c := by
    rw [m.coordinate_without, hc]
  have happly := apply_ofRemovals removals hafter
  rw [Metadata.without_self] at happly
  refine ⟨_, happly, ?_⟩
  rw [Metadata.same_self]
  rfl

/-- **Removals may be exchanged, repeated and run again.** Two registries that drop the same names
from the same components, in any order and however often, leave the same metadata, report the same
losses and modify the same metadata. Run again on what is left, neither modifies anything. -/
theorem apply_drops {removals others : List (Scope × Removal)}
    (h : ∀ pair, pair ∈ drops removals ↔ pair ∈ drops others) {m : Metadata} {c : Coordinate}
    (hc : m.coordinate = .ok c) :
    ∃ rewrite rewrite' after,
      (ofRemovals removals).apply m = .ok (rewrite, after) ∧
      (ofRemovals others).apply m = .ok (rewrite', after) ∧
      rewrite.changes = rewrite'.changes ∧ rewrite.modified = rewrite'.modified ∧
      (∃ again, (ofRemovals removals).apply after = .ok (again, after) ∧
        again.modified = false) ∧
      ∃ again, (ofRemovals others).apply after = .ok (again, after) ∧ again.modified = false := by
  have htargets : ∀ name, name ∈ targets removals c ↔ name ∈ targets others c := by
    intro name
    rw [mem_targets_iff_drops, mem_targets_iff_drops]
    exact exists_congr fun scope => and_congr_left' (h (scope, name))
  have hafter : m.without (targets removals c) = m.without (targets others c) :=
    m.without_congr htargets
  have hother := apply_ofRemovals others hc
  have hagain := apply_without_targets others hc
  rw [← hafter] at hother hagain
  exact ⟨_, _, _, apply_ofRemovals removals hc, hother, rfl, rfl,
    apply_without_targets removals hc, hagain⟩

/-- Two removals, and the same in the other order with one of them twice. -/
theorem apply_drops_twice :
    ∃ m c, m = Metadata.listing [("api", ["hamcrest-core", "asm"])] ∧ m.coordinate = .ok c ∧
      (∀ pair, pair ∈ [(.everywhere, "hamcrest-core"), (.junit, "asm")] ↔
        pair ∈ [(Scope.junit, "asm"), (.everywhere, "hamcrest-core"),
          (.everywhere, "hamcrest-core")]) ∧
      ∃ rewrite rewrite' after again,
        (ofRemovals [(.everywhere, .hamcrestCore), (.junit, ⟨⟨"asm", by decide⟩, none⟩)]).apply m =
          .ok (rewrite, after) ∧
        (ofRemovals [(.junit, ⟨⟨"asm", by decide⟩, none⟩), (.everywhere, .hamcrestCore),
          (.everywhere, .hamcrestCore)]).apply m = .ok (rewrite', after) ∧
        after = Metadata.listing [("api", ["asm"])] ∧ rewrite.changes = rewrite'.changes ∧
        rewrite.modified = rewrite'.modified ∧
        (ofRemovals [(.everywhere, .hamcrestCore), (.junit, ⟨⟨"asm", by decide⟩, none⟩)]).apply
          after = .ok (again, after) ∧ again.modified = false := by
  have hc := Metadata.coordinate_listing [("api", ["hamcrest-core", "asm"])]
  have hdrops : ∀ pair, pair ∈ [(.everywhere, "hamcrest-core"), (.junit, "asm")] ↔
      pair ∈ [(Scope.junit, "asm"), (.everywhere, "hamcrest-core"),
        (.everywhere, "hamcrest-core")] := by
    intro pair
    simp only [List.mem_cons, List.not_mem_nil, or_false]
    tauto
  obtain ⟨rewrite, rewrite', after, hfirst, hsecond, hchanges, hmodified, ⟨again, hagain⟩, -⟩ :=
    @apply_drops [(.everywhere, .hamcrestCore), (.junit, ⟨⟨"asm", by decide⟩, none⟩)]
      [(.junit, ⟨⟨"asm", by decide⟩, none⟩), (.everywhere, .hamcrestCore),
        (.everywhere, .hamcrestCore)] hdrops _ _ hc
  have hafter : after = Metadata.listing [("api", ["asm"])] := by
    rw [apply_ofRemovals _ hc] at hfirst
    cases hfirst
    rfl
  exact ⟨_, _, rfl, hc, hdrops, rewrite, rewrite', after, again, hfirst, hsecond, hafter,
    hchanges, hmodified, hagain⟩

end Registry

end ComponentRules
