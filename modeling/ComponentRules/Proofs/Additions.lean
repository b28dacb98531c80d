import ComponentRules.Proofs.Configurations

/-!
# Removals asked for besides a configuration

Names that are asked for besides a configuration, and the module they are removed from, come to the
same as one more rule behind the rules of the configuration. The two ways differ in the words that
stand around a failure: the rules of a configuration are numbered, and the names in them.

* `Attempt.Agree`: attempts with the same result or the same failure, whatever was being done.
* `agree_removalsOf`, `agree_removalsFrom`: the removals of names, and those of rules.
* `removalsFrom_append`: the rules of a configuration are followed one after the other.
* `Config.registry_withRule`: both ways lead to the same registry or to the same failure.
-/

namespace ComponentRules

open Outcome

/-! ## Attempts that agree -/

namespace Attempt

/-- Two attempts agree if both have the same result, or if both fail with the same failure. What was
being done when it came up does not matter. An attempt agrees with itself if it can fail with
nothing but failures. -/
inductive Agree {α : Type} : Attempt α → Attempt α → Prop
  | ok (a : α) : Agree (.ok a) (.ok a)
  | error (failure : Failure) (contexts contexts' : List String) :
      Agree (.error ⟨contexts, .failure failure⟩) (.error ⟨contexts', .failure failure⟩)

namespace Agree

variable {α β : Type} {x y z : Attempt α}

theorem symm (h : Agree x y) : Agree y x := by
  cases h with
  | ok a => exact .ok a
  | error failure contexts contexts' => exact .error failure contexts' contexts

theorem trans (hxy : Agree x y) (hyz : Agree y z) : Agree x z := by
  cases hxy with
  | ok a => exact hyz
  | error failure contexts contexts' =>
    cases hyz with
    | error _ _ contexts'' => exact .error failure contexts contexts''

/-- What was being done may be said of one attempt alone. -/
theorem within (h : Agree x y) (context : String) : Agree x (y.within context) := by
  cases h with
  | ok a => exact .ok a
  | error failure contexts contexts' => exact .error failure contexts (context :: contexts')

theorem bind {f g : α → Attempt β} (h : Agree x y) (hfg : ∀ a, Agree (f a) (g a)) :
    Agree (x >>= f) (y >>= g) := by
  cases h with
  | ok a => exact hfg a
  | error failure contexts contexts' => exact .error failure contexts contexts'

end Agree

end Attempt

/-! ## Texts and names -/

theorem Selector.agree_parse (text : String) : (parse text).Agree (parse text) := by
  unfold parse
  split
  · exact .ok _
  · exact .error _ _ _

theorem Removal.agree_ofName (name : String) : (ofName name).Agree (ofName name) := by
  unfold ofName
  split
  · exact .ok _
  · exact .error _ _ _

namespace Config

theorem agree_module (module : Option String) :
    Attempt.Agree (module.mapM Selector.parse) (module.mapM Selector.parse) := by
  cases module with
  | none => exact .ok none
  | some text =>
    have hmap : (some text).mapM Selector.parse =
        Selector.parse text >>= fun selector => pure (some selector) := by
      cases h : Selector.parse text <;> simp [h, Functor.map, Except.map, bind, Except.bind, pure,
        Except.pure]
    rw [hmap]
    exact (Selector.agree_parse text).bind fun selector => .ok (some selector)

/-- Names asked for besides a configuration, and the same names in the rule of a number. -/
theorem agree_removalsOf (selector : Option Selector) (i j : Nat) (names : List String) :
    Attempt.Agree (names.mapM (removalFor selector)) (removalsOf selector i j names) := by
  induction names generalizing j with
  | nil => exact .ok []
  | cons name names ih =>
    rw [List.mapM_cons, removalsOf, removalFor, bind_assoc]
    refine ((Removal.agree_ofName name).within _).bind fun removal => ?_
    rw [pure_bind]
    exact (ih (j + 1)).bind fun more => .ok _

/-! ## Rules -/

theorem agree_removalsAt (i : Nat) (rule : ConfigRule) :
    (removalsAt i rule).Agree (removalsAt i rule) := by
  unfold removalsAt
  refine Attempt.Agree.bind ?_ fun selector => ?_
  · have hmodule := (agree_module rule.module).within ("Invalid config: " ++ ruleField i "module")
    exact hmodule.symm.trans hmodule
  · have hnames := agree_removalsOf selector i 0 rule.removeDependencies
    exact hnames.symm.trans hnames

/-- Rules can fail with nothing but failures. -/
theorem agree_removalsFrom (i : Nat) (rules : List ConfigRule) :
    (removalsFrom i rules).Agree (removalsFrom i rules) := by
  induction rules generalizing i with
  | nil => exact .ok []
  | cons rule rules ih =>
    rw [removalsFrom_cons]
    refine (agree_removalsAt i rule).bind fun removals => ?_
    exact (ih (i + 1)).bind fun more => .ok _

theorem removalsFrom_append (i : Nat) (front rules : List ConfigRule) :
    removalsFrom i (front ++ rules) = (do
      let removals ← removalsFrom i front
      let more ← removalsFrom (i + front.length) rules
      pure (removals ++ more)) := by
  induction front generalizing i with
  | nil =>
    rw [List.nil_append, removalsFrom, List.length_nil, Nat.add_zero]
    change _ = removalsFrom i rules >>= fun more => pure ([] ++ more)
    simp
  | cons rule front ih =>
    have hplace : i + 1 + front.length = i + (rule :: front).length := by
      rw [List.length_cons]
      omega
    rw [List.cons_append, removalsFrom_cons, removalsFrom_cons, ih, hplace]
    simp only [bind_assoc, pure_bind, List.append_assoc]

theorem removalsFrom_singleton (i : Nat) (rule : ConfigRule) :
    removalsFrom i [rule] = removalsAt i rule := by
  rw [removalsFrom_cons, removalsFrom]
  change (removalsAt i rule >>= fun removals => pure (removals ++ [])) = _
  simp

/-! ## Registries -/

/-- A configuration with one more rule behind the others. Where there is none, the rule is the only
one. -/
def withRule (config : Option Config) (rule : ConfigRule) : Config :=
  ⟨some (entries config ++ [rule]), (config.map (·.unknown)).getD []⟩

/-- The rules of a configuration with one more rule: first the others, then this one. -/
theorem registry_withRule_eq (config : Option Config) (rule : ConfigRule) :
    Config.registry (some (withRule config rule)) [] none = (do
      let configured ← removalsFrom 0 (entries config)
      let named ← removalsAt (entries config).length rule
      pure (gather (configured ++ named))) := by
  have hentries : entries (some (withRule config rule)) = entries config ++ [rule] := rfl
  rw [registry_eq, hentries, removalsFrom_append, removalsFrom_singleton, Nat.zero_add]
  simp only [bind_assoc, pure_bind, List.mapM_nil, Option.mapM_none, List.append_nil]

/-- **Names asked for besides a configuration come to the same as one more rule of it.** Either both
lead to the same registry, with the same scopes and rules in the same order, or both fail with the
same failure. -/
theorem registry_withRule (config : Option Config) (names : List String) (module : Option String)
    (unknown : List String) :
    (∃ registry, Config.registry config names module = .ok registry ∧
      Config.registry (some (withRule config ⟨module, names, unknown⟩)) [] none = .ok registry) ∨
    ∃ failure contexts contexts',
      Config.registry config names module = .error ⟨contexts, .failure failure⟩ ∧
      Config.registry (some (withRule config ⟨module, names, unknown⟩)) [] none =
        .error ⟨contexts', .failure failure⟩ := by
  have hagree : (Config.registry config names module).Agree
      (Config.registry (some (withRule config ⟨module, names, unknown⟩)) [] none) := by
    rw [registry_eq, registry_withRule_eq]
    refine (agree_removalsFrom 0 (entries config)).bind fun configured => ?_
    unfold removalsAt
    rw [bind_assoc]
    refine ((agree_module module).within _).bind fun selector => ?_
    exact (agree_removalsOf selector _ 0 names).bind fun named => .ok _
  generalize Config.registry config names module = asked at hagree ⊢
  generalize Config.registry (some (withRule config ⟨module, names, unknown⟩)) [] none = listed
    at hagree ⊢
  cases hagree with
  | ok registry => exact .inl ⟨registry, rfl, rfl⟩
  | error failure contexts contexts' =>
    exact .inr ⟨failure, contexts, contexts', rfl, rfl⟩

end Config

end ComponentRules
