import ComponentRules.Registry
import ComponentRules.Proofs.Outcome

/-!
# Registries of removals

What a registry does to metadata if all its rules are removals. The rules drop one name after the
other; together they drop all names in one step, so neither their order nor their number matters
to the result.

* `Registry.ofRemovals`: the registry of some removals, each registered under any scope.
* `Registry.targets`: the names that such a registry drops from a component.
* `apply_ofRemovals`: the metadata after such a registry is the metadata without its targets.
* `Metadata.without_without`: dropping names twice is dropping them all.
-/

namespace ComponentRules

open Outcome

/-! ## Metadata without some names -/

/-- A variant without the declarations of some names. -/
def Variant.without (names : List String) (v : Variant) : Variant :=
  { v with dependencies := v.dependencies.filter fun d => !names.contains d.name }

/-- Metadata without the declarations of some names. -/
def Metadata.without (names : List String) (m : Metadata) : Metadata :=
  { m with variants := m.variants.map (Variant.without names) }

theorem Variant.without_nil (v : Variant) : v.without [] = v := by
  simp [without]

theorem Variant.without_without (names more : List String) (v : Variant) :
    (v.without names).without more = v.without (names ++ more) := by
  simp only [without, List.filter_filter, List.contains_append, Bool.not_or, Bool.and_comm]

theorem Metadata.without_nil (m : Metadata) : m.without [] = m := by
  have h : Variant.without [] = id := funext Variant.without_nil
  simp [without, h]

theorem Metadata.without_without (names more : List String) (m : Metadata) :
    (m.without names).without more = m.without (names ++ more) := by
  simp only [without, List.map_map]
  congr 1
  exact List.map_congr_left fun v _ => v.without_without names more

theorem Variant.without_congr {names more : List String} (h : ∀ name, name ∈ names ↔ name ∈ more)
    (v : Variant) : v.without names = v.without more := by
  have hcontains : ∀ name, names.contains name = more.contains name := by
    intro name
    rw [List.contains_eq_mem, List.contains_eq_mem, decide_eq_decide]
    exact h name
  simp only [without, hcontains]

theorem Metadata.without_congr {names more : List String} (h : ∀ name, name ∈ names ↔ name ∈ more)
    (m : Metadata) : m.without names = m.without more := by
  have hvariant : Variant.without names = Variant.without more := funext (Variant.without_congr h)
  rw [without, without, hvariant]

theorem Variant.without_self (names : List String) (v : Variant) :
    (v.without names).without names = v.without names := by
  simp [without]

theorem Metadata.without_self (names : List String) (m : Metadata) :
    (m.without names).without names = m.without names := by
  simp only [without, List.map_map]
  congr 1
  exact List.map_congr_left fun v _ => v.without_self names

theorem Variant.without_eq_self {names : List String} {v : Variant}
    (h : (v.without names).dependencies.length = v.dependencies.length) : v.without names = v := by
  have hkept := List.length_filter_eq_length_iff.mp h
  have hall : v.dependencies.filter (fun d => !names.contains d.name) = v.dependencies :=
    List.filter_eq_self.mpr hkept
  rw [Variant.without, hall]

theorem Metadata.without_eq_self {names : List String} {m : Metadata}
    (h : List.Forall₂ (fun v w => v.dependencies.length = w.dependencies.length)
      (m.without names).variants m.variants) : m.without names = m := by
  rw [Metadata.without, List.forall₂_map_left_iff, List.forall₂_same] at h
  have hvariants : m.variants.map (Variant.without names) = m.variants :=
    calc m.variants.map (Variant.without names)
        = m.variants.map id := List.map_congr_left fun v hv => Variant.without_eq_self (h v hv)
      _ = m.variants := List.map_id _
  rw [Metadata.without, hvariants]

theorem Metadata.component_without (names : List String) (m : Metadata) :
    (m.without names).component = m.component := rfl

theorem Metadata.coordinate_without (names : List String) (m : Metadata) :
    (m.without names).coordinate = m.coordinate := by
  unfold coordinate
  rw [component_without]

/-! ## The rules of a registry of removals -/

theorem Removal.runVariant_rule (removal : Removal) (m : Metadata) (i : Nat) (v : Variant) :
    removal.rule.runVariant m i v = v.without [removal.target.text] := by
  unfold Rule.runVariant rule Variant.without
  congr 1
  refine List.filter_congr fun d _ => ?_
  rw [removes, List.contains_cons, List.contains_nil, Bool.or_false]

theorem Removal.run_rule (removal : Removal) (m : Metadata) :
    removal.rule.run m = m.without [removal.target.text] :=
  Rule.run_of_edit (removal.runVariant_rule m)

namespace Registry

theorem runAll_removals (removals : List Removal) (m : Metadata) :
    runAll (removals.map Removal.rule) m = m.without (removals.map (·.target.text)) := by
  induction removals generalizing m with
  | nil => exact m.without_nil.symm
  | cons removal removals ih =>
    calc runAll ((removal :: removals).map Removal.rule) m
        = runAll (removals.map Removal.rule) (removal.rule.run m) := rfl
      _ = (m.without [removal.target.text]).without (removals.map (·.target.text)) := by
        rw [ih, removal.run_rule]
      _ = m.without ((removal :: removals).map (·.target.text)) := m.without_without _ _

/-- The registry of some removals, each under a scope of its own. -/
def ofRemovals (removals : List (Scope × Removal)) : Registry :=
  ⟨removals.map fun p => ⟨p.1, p.2.rule⟩⟩

/-- The names that a registry of removals drops from a component. -/
def targets (removals : List (Scope × Removal)) (c : Coordinate) : List String :=
  (removals.filter (·.1.covers c)).map (·.2.target.text)

theorem mem_targets {removals : List (Scope × Removal)} {c : Coordinate} {name : String} :
    name ∈ targets removals c ↔
      ∃ p ∈ removals, p.1.covers c = true ∧ p.2.target.text = name := by
  simp only [targets, List.mem_map, List.mem_filter, and_assoc]

theorem isEmpty_ofRemovals {removals : List (Scope × Removal)} (h : removals ≠ []) :
    (ofRemovals removals).isEmpty = false := by
  cases removals with
  | nil => exact absurd rfl h
  | cons p removals => rfl

theorem rulesFor_ofRemovals (removals : List (Scope × Removal)) (c : Coordinate) :
    (ofRemovals removals).rulesFor c =
      ((removals.filter (·.1.covers c)).map (·.2)).map Removal.rule := by
  simp [rulesFor, ofRemovals, List.filter_map, Function.comp_def]

/-- What the rules of a registry of removals make of metadata. -/
theorem apply_ofRemovals (removals : List (Scope × Removal)) {m : Metadata} {c : Coordinate}
    (hc : m.coordinate = .ok c) :
    (ofRemovals removals).apply m =
      .ok (⟨c, ((ofRemovals removals).rulesFor c).map (·.name),
        changes m (m.without (targets removals c)),
        !(m.without (targets removals c)).same m⟩, m.without (targets removals c)) := by
  have hrun : runAll ((ofRemovals removals).rulesFor c) m = m.without (targets removals c) := by
    rw [rulesFor_ofRemovals, runAll_removals, targets, List.map_map]
    rfl
  rw [apply, hc]
  simp only [bind, Except.bind, pure, Except.pure, hrun]

theorem registerRemoval_ofRemovals (removals : List (Scope × Removal)) (removal : Removal) :
    (ofRemovals removals).registerRemoval removal =
      ofRemovals (removals ++ [(.ofSelector removal.component, removal)]) := by
  simp [registerRemoval, register, ofRemovals]

/-- Each of some removals registered for the components it is restricted to. -/
theorem foldl_registerRemoval (removals : List Removal) :
    removals.foldl registerRemoval .empty =
      ofRemovals (removals.map fun r => (.ofSelector r.component, r)) := by
  have key : ∀ before, removals.foldl registerRemoval (ofRemovals before) =
      ofRemovals (before ++ removals.map fun r => (.ofSelector r.component, r)) := by
    induction removals with
    | nil => simp
    | cons removal removals ih =>
      intro before
      rw [List.foldl_cons, registerRemoval_ofRemovals, ih, List.map_cons, List.append_assoc,
        List.singleton_append]
  exact key []

end Registry

end ComponentRules
