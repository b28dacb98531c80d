import ComponentRules.ConfigFile
import ComponentRules.Proofs.Files.Effects
import ComponentRules.Proofs.Targets

/-!
# The checks of configurations

A configuration that was loaded has passed its checks, and these are exactly what is needed: the
removals it asks for can be made, one for every name, and a registry can fail only for what is asked
besides. A configuration that does not pass is refused for its first fault.

* `ConfigRule.Followable`, `Config.Passable`: what passes, said without the checks.
* `ConfigRule.Fault`, `Config.Refusal`: the first fault of a rule and of a configuration.
* `Config.check_eq_ok_iff`, `Config.check_eq_error_iff`: the checks are exact.
* `Config.registry_eq_error_iff`: what a registry for a loaded configuration can fail for.
* `Config.load_exact`: all this for a file.
-/

namespace ComponentRules

open Outcome

/-! ## Single rules -/

/-- Whether a module text is a selector, or there is none. -/
def IsModule (module : Option String) : Prop :=
  ∀ text, module = some text → ∃ selector, Selector.parse text = .ok selector

/-- Whether a name can be removed. -/
def IsRemovable (name : String) : Prop :=
  ∃ removal, Removal.ofName name = .ok removal

/-- Whether a rule can be followed. -/
structure ConfigRule.Followable (rule : ConfigRule) : Prop where
  module : IsModule rule.module
  names : ∀ name ∈ rule.removeDependencies, IsRemovable name

/-- The first fault of the rule of a number: its module text is no selector, or else a name, all
before which can be removed, cannot. -/
inductive ConfigRule.Fault (i : Nat) (rule : ConfigRule) : Problem → Prop
  | module {text : String} {problem : Problem} : rule.module = some text →
      Selector.parse text = .error problem →
      Fault i rule (problem.within ("Invalid config: " ++ Config.ruleField i "module"))
  | name {front rest : List String} {name : String} {problem : Problem} : IsModule rule.module →
      rule.removeDependencies = front ++ name :: rest →
      (∀ earlier ∈ front, IsRemovable earlier) → Removal.ofName name = .error problem →
      Fault i rule (problem.within ("Invalid config: " ++
        Config.ruleField i "remove_dependencies[" ++ Text.decimal front.length ++ "]"))

namespace Config

theorem mapM_parse_eq_error {module : Option String} {problem : Problem} :
    module.mapM Selector.parse = .error problem ↔
      ∃ text, module = some text ∧ Selector.parse text = .error problem := by
  cases module with
  | none => simp [pure, Except.pure]
  | some text =>
    cases h : Selector.parse text <;> simp [h, Functor.map, Except.map]

theorem exists_mapM_parse {module : Option String} :
    (∃ selector, module.mapM Selector.parse = .ok selector) ↔ IsModule module := by
  cases module with
  | none => simp [IsModule, pure, Except.pure]
  | some text =>
    cases h : Selector.parse text <;> simp [IsModule, h, Functor.map, Except.map]

/-- The names of a rule fail with the first that cannot be removed. -/
theorem removalsOf_eq_error {selector : Option Selector} {i j : Nat} {names : List String}
    {problem : Problem} :
    removalsOf selector i j names = .error problem ↔
      ∃ front name rest cause, names = front ++ name :: rest ∧
        (∀ earlier ∈ front, IsRemovable earlier) ∧ Removal.ofName name = .error cause ∧
        problem = cause.within ("Invalid config: " ++ ruleField i "remove_dependencies[" ++
          Text.decimal (j + front.length) ++ "]") := by
  induction names generalizing j with
  | nil => simp [removalsOf]
  | cons name names ih =>
    rw [removalsOf, bind_eq_error]
    constructor
    · rintro (h | ⟨removal, hremoval, h⟩)
      · obtain ⟨cause, hcause, rfl⟩ := within_eq_error.mp h
        exact ⟨[], name, names, cause, rfl, nofun, hcause, rfl⟩
      · rw [within_eq_ok] at hremoval
        rcases bind_eq_error.mp h with h | ⟨_, -, h⟩
        · obtain ⟨front, later, rest, cause, rfl, hfront, hcause, rfl⟩ := ih.mp h
          refine ⟨name :: front, later, rest, cause, rfl,
            List.forall_mem_cons.mpr ⟨⟨removal, hremoval⟩, hfront⟩, hcause, ?_⟩
          rw [List.length_cons, Nat.add_right_comm, Nat.add_assoc]
        · cases h
    · rintro ⟨front, later, rest, cause, hsplit, hfront, hcause, rfl⟩
      cases front with
      | nil =>
        cases hsplit
        exact .inl (within_eq_error.mpr ⟨cause, hcause, rfl⟩)
      | cons first front =>
        cases hsplit
        obtain ⟨⟨removal, hremoval⟩, hfront⟩ := List.forall_mem_cons.mp hfront
        refine .inr ⟨removal, within_eq_ok.mpr hremoval, bind_eq_error.mpr (.inl ?_)⟩
        refine ih.mpr ⟨front, later, rest, cause, rfl, hfront, hcause, ?_⟩
        rw [List.length_cons, Nat.add_right_comm, Nat.add_assoc]

theorem exists_removalsOf {selector : Option Selector} {i j : Nat} {names : List String} :
    (∃ removals, removalsOf selector i j names = .ok removals) ↔
      ∀ name ∈ names, IsRemovable name := by
  induction names generalizing j with
  | nil => simp [removalsOf]
  | cons name names ih =>
    rw [List.forall_mem_cons, ← @ih (j + 1), removalsOf]
    constructor
    · rintro ⟨removals, h⟩
      obtain ⟨removal, hremoval, h⟩ := bind_eq_ok.mp h
      obtain ⟨more, hmore, -⟩ := bind_eq_ok.mp h
      exact ⟨⟨removal, within_eq_ok.mp hremoval⟩, more, hmore⟩
    · rintro ⟨⟨removal, hremoval⟩, more, hmore⟩
      exact ⟨_, bind_eq_ok.mpr ⟨removal, within_eq_ok.mpr hremoval,
        bind_eq_ok.mpr ⟨more, hmore, rfl⟩⟩⟩

/-- The removals of the rule of a number. -/
def removalsAt (i : Nat) (rule : ConfigRule) : Attempt (List Removal) := do
  let selector ← (rule.module.mapM Selector.parse).within
    ("Invalid config: " ++ ruleField i "module")
  removalsOf selector i 0 rule.removeDependencies

theorem removalsFrom_cons (i : Nat) (rule : ConfigRule) (rules : List ConfigRule) :
    removalsFrom i (rule :: rules) = (do
      let removals ← removalsAt i rule
      let more ← removalsFrom (i + 1) rules
      pure (removals ++ more)) := by
  rw [removalsFrom, removalsAt, bind_assoc]

/-- A rule fails with its first fault. -/
theorem removalsAt_eq_error {i : Nat} {rule : ConfigRule} {problem : Problem} :
    removalsAt i rule = .error problem ↔ rule.Fault i problem := by
  rw [removalsAt, bind_eq_error]
  constructor
  · rintro (h | ⟨selector, hselector, h⟩)
    · obtain ⟨cause, hcause, rfl⟩ := within_eq_error.mp h
      obtain ⟨text, htext, hparse⟩ := mapM_parse_eq_error.mp hcause
      exact .module htext hparse
    · have hmodule := exists_mapM_parse.mp ⟨selector, within_eq_ok.mp hselector⟩
      obtain ⟨front, name, rest, cause, hnames, hfront, hcause, rfl⟩ := removalsOf_eq_error.mp h
      rw [Nat.zero_add]
      exact .name hmodule hnames hfront hcause
  · rintro (⟨htext, hparse⟩ | ⟨hmodule, hnames, hfront, hcause⟩)
    · exact .inl (within_eq_error.mpr ⟨_, mapM_parse_eq_error.mpr ⟨_, htext, hparse⟩, rfl⟩)
    · obtain ⟨selector, hselector⟩ := exists_mapM_parse.mpr hmodule
      refine .inr ⟨selector, within_eq_ok.mpr hselector, removalsOf_eq_error.mpr
        ⟨_, _, _, _, hnames, hfront, hcause, ?_⟩⟩
      rw [Nat.zero_add]

theorem exists_removalsAt {i : Nat} {rule : ConfigRule} :
    (∃ removals, removalsAt i rule = .ok removals) ↔ rule.Followable := by
  constructor
  · rintro ⟨removals, h⟩
    obtain ⟨selector, hselector, h⟩ := bind_eq_ok.mp h
    exact ⟨exists_mapM_parse.mp ⟨selector, within_eq_ok.mp hselector⟩,
      exists_removalsOf.mp ⟨removals, h⟩⟩
  · rintro ⟨hmodule, hnames⟩
    obtain ⟨selector, hselector⟩ := exists_mapM_parse.mpr hmodule
    obtain ⟨removals, h⟩ := exists_removalsOf.mpr hnames
    exact ⟨removals, bind_eq_ok.mpr ⟨selector, within_eq_ok.mpr hselector, h⟩⟩

/-! ## All rules -/

/-- The rules fail with the first fault of the first rule that has one. -/
theorem removalsFrom_eq_error {i : Nat} {rules : List ConfigRule} {problem : Problem} :
    removalsFrom i rules = .error problem ↔
      ∃ front rule rest, rules = front ++ rule :: rest ∧
        (∀ earlier ∈ front, earlier.Followable) ∧ rule.Fault (i + front.length) problem := by
  induction rules generalizing i with
  | nil => simp [removalsFrom]
  | cons rule rules ih =>
    rw [removalsFrom_cons, bind_eq_error]
    constructor
    · rintro (h | ⟨removals, hremovals, h⟩)
      · exact ⟨[], rule, rules, rfl, nofun, removalsAt_eq_error.mp h⟩
      · have hrule := exists_removalsAt.mp ⟨removals, hremovals⟩
        rcases bind_eq_error.mp h with h | ⟨_, -, h⟩
        · obtain ⟨front, later, rest, rfl, hfront, hfault⟩ := ih.mp h
          rw [Nat.add_assoc, Nat.add_comm 1] at hfault
          exact ⟨rule :: front, later, rest, rfl, List.forall_mem_cons.mpr ⟨hrule, hfront⟩, hfault⟩
        · cases h
    · rintro ⟨front, later, rest, hsplit, hfront, hfault⟩
      cases front with
      | nil =>
        cases hsplit
        exact .inl (removalsAt_eq_error.mpr hfault)
      | cons first front =>
        cases hsplit
        obtain ⟨hrule, hfront⟩ := List.forall_mem_cons.mp hfront
        obtain ⟨removals, hremovals⟩ := exists_removalsAt.mpr hrule
        rw [List.length_cons, Nat.add_comm front.length, ← Nat.add_assoc] at hfault
        exact .inr ⟨removals, hremovals, bind_eq_error.mpr
          (.inl (ih.mpr ⟨front, later, rest, rfl, hfront, hfault⟩))⟩

theorem exists_removalsFrom {i : Nat} {rules : List ConfigRule} :
    (∃ removals, removalsFrom i rules = .ok removals) ↔ ∀ rule ∈ rules, rule.Followable := by
  induction rules generalizing i with
  | nil => simp [removalsFrom]
  | cons rule rules ih =>
    rw [List.forall_mem_cons, ← @ih (i + 1), ← @exists_removalsAt i, removalsFrom_cons]
    constructor
    · rintro ⟨all, h⟩
      obtain ⟨removals, hremovals, h⟩ := bind_eq_ok.mp h
      obtain ⟨more, hmore, -⟩ := bind_eq_ok.mp h
      exact ⟨⟨removals, hremovals⟩, more, hmore⟩
    · rintro ⟨⟨removals, hremovals⟩, more, hmore⟩
      exact ⟨_, bind_eq_ok.mpr ⟨removals, hremovals, bind_eq_ok.mpr ⟨more, hmore, rfl⟩⟩⟩

end Config

/-- Whether a configuration passes the checks: it has no rules, or at most 64, each of which removes
something and can be followed. -/
def Config.Passable (config : Config) : Prop :=
  ∀ rules, config.rules = some rules → rules.length ≤ 64 ∧
    ∀ rule ∈ rules, rule.removeDependencies ≠ [] ∧ rule.Followable

/-- The first fault of rules: there are too many, or else one removes nothing, or else one cannot be
followed. -/
inductive Config.Refusal (rules : List ConfigRule) : Problem → Prop
  | tooMany : 64 < rules.length →
      Refusal rules (.plain ("Invalid config: too many rules: " ++ Text.decimal rules.length ++
        " (maximum: " ++ Text.decimal 64 ++ ")"))
  | idle {front rest : List ConfigRule} {rule : ConfigRule} : rules.length ≤ 64 →
      rules = front ++ rule :: rest → (∀ earlier ∈ front, earlier.removeDependencies ≠ []) →
      rule.removeDependencies = [] →
      Refusal rules (.plain (withHint ("Invalid config: " ++
        ruleField front.length "remove_dependencies must not be empty.")
        "List at least one dependency name (e.g., \"hamcrest-core\")."))
  | fault {front rest : List ConfigRule} {rule : ConfigRule} {problem : Problem} :
      rules.length ≤ 64 → (∀ rule ∈ rules, rule.removeDependencies ≠ []) →
      rules = front ++ rule :: rest → (∀ earlier ∈ front, earlier.Followable) →
      rule.Fault front.length problem → Refusal rules problem

namespace Config

/-! ## The checks -/

theorem idle?_eq_none {rules : List ConfigRule} :
    idle? rules = none ↔ ∀ rule ∈ rules, rule.removeDependencies ≠ [] := by
  simp [idle?, List.findIdx?_eq_none_iff]

/-- The number of the first rule that removes nothing. -/
theorem idle?_eq_some {rules : List ConfigRule} {i : Nat} :
    idle? rules = some i ↔ ∃ front rule rest, rules = front ++ rule :: rest ∧
      (∀ earlier ∈ front, earlier.removeDependencies ≠ []) ∧ rule.removeDependencies = [] ∧
      i = front.length := by
  constructor
  · intro h
    obtain ⟨hi, hidle, hfront⟩ := List.findIdx?_eq_some_iff_getElem.mp h
    refine ⟨rules.take i, rules[i], rules.drop (i + 1), ?_, ?_, by simpa using hidle, ?_⟩
    · simp
    · intro earlier hearlier
      obtain ⟨j, hj, rfl⟩ := List.mem_take_iff_getElem.mp hearlier
      simpa using hfront j (by omega)
    · rw [List.length_take, Nat.min_eq_left (Nat.le_of_lt hi)]
  · rintro ⟨front, rule, rest, rfl, hfront, hidle, rfl⟩
    have hnone : front.findIdx? (·.removeDependencies.isEmpty) = none := idle?_eq_none.mpr hfront
    rw [idle?, List.findIdx?_append, hnone, List.findIdx?_cons, if_pos (by simp [hidle])]
    simp

/-- The checks of rules, one after the other. -/
theorem check_of_some {config : Config} {rules : List ConfigRule} (h : config.rules = some rules) :
    config.check =
      if 64 < rules.length then
        .error (.plain ("Invalid config: too many rules: " ++ Text.decimal rules.length ++
          " (maximum: " ++ Text.decimal 64 ++ ")"))
      else match idle? rules with
        | some i =>
          .error (.plain (withHint
            ("Invalid config: " ++ ruleField i "remove_dependencies must not be empty.")
            "List at least one dependency name (e.g., \"hamcrest-core\")."))
        | none => (do
          let _ ← removalsFrom 0 rules
          pure ()) := by
  unfold check removals
  rw [h]
  rfl

/-- **A configuration that passes the checks is exactly one that is passable.** -/
theorem check_eq_ok_iff {config : Config} : config.check = .ok () ↔ config.Passable := by
  cases hrules : config.rules with
  | none => simp [check, Passable, hrules]
  | some rules =>
    rw [check_of_some hrules]
    constructor
    · intro h rules' hrules'
      cases hrules.symm.trans hrules'
      split at h
      · cases h
      rename_i hlength
      split at h
      · cases h
      rename_i hidle
      obtain ⟨removals, hremovals, -⟩ := bind_eq_ok.mp h
      refine ⟨Nat.not_lt.mp hlength, fun rule hrule => ⟨idle?_eq_none.mp hidle rule hrule, ?_⟩⟩
      exact exists_removalsFrom.mp ⟨removals, hremovals⟩ rule hrule
    · intro h
      obtain ⟨hlength, hall⟩ := h rules hrules
      have hidle := idle?_eq_none.mpr fun rule hrule => (hall rule hrule).1
      obtain ⟨removals, hremovals⟩ := exists_removalsFrom.mpr fun rule hrule => (hall rule hrule).2
      rw [if_neg (Nat.not_lt.mpr hlength), hidle]
      exact bind_eq_ok.mpr ⟨removals, hremovals, rfl⟩

/-- **A configuration is refused for its first fault.** -/
theorem check_eq_error_iff {config : Config} {problem : Problem} :
    config.check = .error problem ↔ ∃ rules, config.rules = some rules ∧ Refusal rules problem := by
  cases hrules : config.rules with
  | none => simp [check, hrules]
  | some rules =>
    rw [check_of_some hrules]
    simp only [Option.some.injEq, exists_eq_left']
    constructor
    · intro h
      split at h
      · rename_i hlength
        cases h
        exact .tooMany hlength
      rename_i hlength
      have hlength := Nat.not_lt.mp hlength
      split at h
      · rename_i i hidle
        cases h
        obtain ⟨front, rule, rest, hsplit, hfront, hempty, rfl⟩ := idle?_eq_some.mp hidle
        exact .idle hlength hsplit hfront hempty
      · rename_i hidle
        rcases bind_eq_error.mp h with h | ⟨_, -, h⟩
        · obtain ⟨front, rule, rest, hsplit, hfront, hfault⟩ := removalsFrom_eq_error.mp h
          rw [Nat.zero_add] at hfault
          exact .fault hlength (idle?_eq_none.mp hidle) hsplit hfront hfault
        · cases h
    · intro h
      cases h with
      | tooMany hlength => rw [if_pos hlength]
      | idle hlength hsplit hfront hempty =>
        have hidle := idle?_eq_some.mpr ⟨_, _, _, hsplit, hfront, hempty, rfl⟩
        rw [if_neg (Nat.not_lt.mpr hlength), hidle]
      | fault hlength hnonempty hsplit hfront hfault =>
        rw [if_neg (Nat.not_lt.mpr hlength), idle?_eq_none.mpr hnonempty]
        refine bind_eq_error.mpr (.inl (removalsFrom_eq_error.mpr ⟨_, _, _, hsplit, hfront, ?_⟩))
        rwa [Nat.zero_add]

end Config

/-! ## Registries -/

/-- What can be wrong with what is asked for besides a configuration: the module text is no
selector, or else a name, all before which can be removed, cannot. -/
inductive Config.Unanswerable (names : List String) (module : Option String) : Problem → Prop
  | module {text : String} {problem : Problem} : module = some text →
      Selector.parse text = .error problem → Unanswerable names module problem
  | name {front rest : List String} {name : String} {problem : Problem} : IsModule module →
      names = front ++ name :: rest → (∀ earlier ∈ front, IsRemovable earlier) →
      Removal.ofName name = .error problem → Unanswerable names module problem

namespace Config

theorem removalFor_eq_error {selector : Option Selector} {name : String} {problem : Problem} :
    removalFor selector name = .error problem ↔ Removal.ofName name = .error problem := by
  unfold removalFor
  cases Removal.ofName name <;> simp [bind, Except.bind, pure, Except.pure]

theorem exists_removalFor {selector : Option Selector} {name : String} :
    (∃ removal, removalFor selector name = .ok removal) ↔ IsRemovable name := by
  unfold removalFor IsRemovable
  cases Removal.ofName name <;> simp [bind, Except.bind, pure, Except.pure]

section Registries

variable {config : Config} {removals : List Removal} {names : List String}
  {module : Option String}

/-- The registry for a configuration whose removals can be made. -/
theorem registry_of_removals (h : config.removals = .ok removals) (names : List String)
    (module : Option String) :
    Config.registry (some config) names module = (do
      let selector ← module.mapM Selector.parse
      let named ← names.mapM (removalFor selector)
      pure (gather (removals ++ named))) := by
  have hconfigured : removalsFrom 0 (entries (some config)) = .ok removals := h
  rw [registry_eq, hconfigured]
  rfl

/-- **If the removals of a configuration can be made, a registry fails only for what is asked
besides.** -/
theorem registry_eq_error_iff (h : config.removals = .ok removals) {problem : Problem} :
    Config.registry (some config) names module = .error problem ↔
      Unanswerable names module problem := by
  rw [registry_of_removals h, bind_eq_error]
  constructor
  · rintro (hmodule | ⟨selector, hselector, hrest⟩)
    · obtain ⟨text, htext, hparse⟩ := mapM_parse_eq_error.mp hmodule
      exact .module htext hparse
    · have hmodule := exists_mapM_parse.mp ⟨selector, hselector⟩
      rcases bind_eq_error.mp hrest with hnames | ⟨_, -, hdone⟩
      · obtain ⟨front, name, rest, hsplit, hfront, hname⟩ := mapM_eq_error.mp hnames
        refine .name hmodule hsplit (fun earlier hearlier => ?_) (removalFor_eq_error.mp hname)
        exact exists_removalFor.mp (hfront earlier hearlier)
      · cases hdone
  · rintro (⟨htext, hparse⟩ | ⟨hmodule, hsplit, hfront, hname⟩)
    · exact .inl (mapM_parse_eq_error.mpr ⟨_, htext, hparse⟩)
    · obtain ⟨selector, hselector⟩ := exists_mapM_parse.mpr hmodule
      refine .inr ⟨selector, hselector, bind_eq_error.mpr (.inl (mapM_eq_error.mpr
        ⟨_, _, _, hsplit, fun earlier hearlier => ?_, removalFor_eq_error.mpr hname⟩))⟩
      exact exists_removalFor.mpr (hfront earlier hearlier)

/-- If a configuration asks for removals, the registry holds these and the ones asked for besides,
and nothing by default. -/
theorem registry_of_removals_ne_nil (h : config.removals = .ok removals) (hsome : removals ≠ [])
    {registry : Registry} (hregistry : Config.registry (some config) names module = .ok registry) :
    ∃ named, List.Forall₂ Answers (names.map fun name => (name, module)) named ∧
      registry = .ofRemovals ((removals ++ named).map fun r => (.ofSelector r.component, r)) := by
  rw [registry_of_removals h] at hregistry
  obtain ⟨selector, hselector, hregistry⟩ := bind_eq_ok.mp hregistry
  obtain ⟨named, hnamed, hregistry⟩ := bind_eq_ok.mp hregistry
  refine ⟨named, named_answers hselector hnamed, ?_⟩
  have hall : removals ++ named ≠ [] := List.append_ne_nil_of_left_ne_nil hsome named
  rw [← scopedRemovals_of_ne_nil hall, ← gather_eq]
  exact (pure_eq_ok.mp hregistry).symm

/-- A passable configuration with rules asks for removals. -/
theorem removals_ne_nil (hconfig : config.Passable) (hrules : config.hasRules = true)
    (h : config.removals = .ok removals) : removals ≠ [] := by
  rcases hsome : config.rules with _ | _ | ⟨rule, rules⟩
  · simp [hasRules, hsome] at hrules
  · simp [hasRules, hsome] at hrules
  · obtain ⟨hremoves, -⟩ := (hconfig _ hsome).2 rule List.mem_cons_self
    rintro rfl
    have hnone : (entries (some config)).flatMap requests = [] :=
      List.forall₂_nil_right_iff.mp (removals_answers h)
    rw [List.flatMap_eq_nil_iff] at hnone
    have hrequests := hnone rule (by simp [entries, hsome])
    exact hremoves (List.map_eq_nil_iff.mp hrequests)

end Registries

/-! ## Files -/

theorem load_of_text {tree : FileTree} {path text : String} {config : Config}
    (htext : tree.readText path = .ok text) (hconfig : ofText text = .ok config) :
    load tree path = (do
      config.check
      pure config) := by
  unfold load ofFile
  rw [htext]
  simp only [pure_bind, hconfig]

/-- **The checks of a configuration file are exact and sufficient.** If a file holds a
configuration, it is loaded if and only if it is passable, and otherwise refused for its first
fault. If it is loaded, it makes one removal for every name that its rules list, in order and each
with the module text of its own rule. Then a registry can only fail for what is asked besides, and
if there are rules, it holds the removals asked for and nothing by default. -/
theorem load_exact {tree : FileTree} {path text : String} {config : Config}
    (htext : tree.readText path = .ok text) (hconfig : ofText text = .ok config) :
    ((∃ loaded, load tree path = .ok loaded) ↔ config.Passable) ∧
      (∀ problem, load tree path = .error problem ↔
        ∃ rules, config.rules = some rules ∧ Refusal rules problem) ∧
      (∀ loaded, load tree path = .ok loaded → loaded = config ∧
        ∃ removals, loaded.removals = .ok removals ∧
          List.Forall₂ Answers ((loaded.rules.getD []).flatMap fun rule =>
            rule.removeDependencies.map fun name => (name, rule.module)) removals ∧
          ∀ names module,
            (∀ problem, Config.registry (some loaded) names module = .error problem ↔
              Unanswerable names module problem) ∧
            (loaded.hasRules = true → ∀ registry,
              Config.registry (some loaded) names module = .ok registry →
              ∃ named, List.Forall₂ Answers (names.map fun name => (name, module)) named ∧
                registry = .ofRemovals
                  ((removals ++ named).map fun r => (.ofSelector r.component, r)))) := by
  rw [load_of_text htext hconfig]
  have hloads : ∀ loaded, (do config.check; pure config) = (.ok loaded : Attempt Config) ↔
      config.Passable ∧ config = loaded := by
    intro loaded
    rw [bind_eq_ok, ← check_eq_ok_iff]
    constructor
    · rintro ⟨⟨⟩, hcheck, hsame⟩
      exact ⟨hcheck, pure_eq_ok.mp hsame⟩
    · rintro ⟨hcheck, rfl⟩
      exact ⟨(), hcheck, rfl⟩
  simp only [hloads]
  refine ⟨by simp, fun problem => ?_, ?_⟩
  · rw [← check_eq_error_iff, bind_eq_error]
    simp [pure, Except.pure]
  · rintro loaded ⟨hpassable, rfl⟩
    have hfollowable : ∀ rule ∈ config.rules.getD [], rule.Followable := by
      intro rule hrule
      cases hrules : config.rules with
      | none =>
        rw [hrules] at hrule
        cases hrule
      | some rules =>
        rw [hrules] at hrule
        exact ((hpassable rules hrules).2 rule hrule).2
    obtain ⟨removals, hremovals⟩ := exists_removalsFrom.mpr hfollowable
    refine ⟨rfl, removals, hremovals, removals_answers hremovals, fun names module =>
      ⟨fun problem => registry_eq_error_iff hremovals, fun hrules registry hregistry => ?_⟩⟩
    exact registry_of_removals_ne_nil hremovals (removals_ne_nil hpassable hrules hremovals)
      hregistry

/-- A configuration with a rule for one module and a rule for all. -/
def listed : String :=
  "rules:\n- module: junit:junit\n  remove_dependencies: [hamcrest-core, asm]\n" ++
    "- remove_dependencies: [log4j]\n"

theorem ofText_listed :
    ofText listed = .ok ⟨some [⟨some "junit:junit", ["hamcrest-core", "asm"], []⟩,
      ⟨none, ["log4j"], []⟩], []⟩ := by
  decide +kernel

/-- A tree with a configuration in its root, which is the working directory. -/
def listedTree : FileTree :=
  ⟨[], 0o022, [(["rules.yml".toList], .file listed.toUTF8 0o644)]⟩

theorem readText_listedTree : listedTree.readText "rules.yml" = .ok listed := by
  have hpath : FileTree.pathFault? "rules.yml" = none := by decide
  have hsteps : FileTree.steps "rules.yml" = ["rules.yml".toList] := by decide
  have hname : FileTree.IsName "rules.yml".toList :=
    ⟨by unfold FileTree.IsDots; decide, by decide⟩
  exact FileTree.readText_of_file (FileTree.look_single hpath hsteps hname)

/-- Both rules of a file are followed, each with its own module text. -/
theorem load_exact_listedTree :
    listedTree.readText "rules.yml" = .ok listed ∧
      ∃ loaded removals, load listedTree "rules.yml" = .ok loaded ∧
        loaded.removals = .ok removals ∧
        List.Forall₂ Answers [("hamcrest-core", some "junit:junit"), ("asm", some "junit:junit"),
          ("log4j", none)] removals := by
  obtain ⟨hpassable, -, hloaded⟩ := load_exact readText_listedTree ofText_listed
  have hchecked := check_eq_ok_iff.mp (rfl : Config.check ⟨some
    [⟨some "junit:junit", ["hamcrest-core", "asm"], []⟩, ⟨none, ["log4j"], []⟩], []⟩ = .ok ())
  obtain ⟨loaded, hload⟩ := hpassable.mpr hchecked
  obtain ⟨rfl, removals, hremovals, hanswers, -⟩ := hloaded loaded hload
  exact ⟨readText_listedTree, _, removals, hload, hremovals, hanswers⟩

end Config

end ComponentRules
