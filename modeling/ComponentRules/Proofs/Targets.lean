import ComponentRules.Config
import ComponentRules.Proofs.Coordinates
import ComponentRules.Proofs.Removals

/-!
# What a configured registry removes

A registry is built from the rules of a configuration, from names asked for besides it, or by
default. This module says in one sentence which names such a registry drops from a component, and
proves that applying it drops exactly their declarations.

* `Targeted`: the names dropped from a component, said without any registry.
* `Config.Answers`: the removal that a name and a module text ask for.
* `registry_eq`: what a registry is built from, whether or not there is a configuration.
* `removals_answers`, `registry_eq_ofRemovals`: the registry holds one removal for every name asked
  for, in order, with the selector it was asked for with.
* `apply_configured`: every variant keeps the declarations that are not targeted, in order.
-/

namespace ComponentRules

open Outcome

/-! ## Targeted names -/

/-- Whether a module text is for a component. Without a text, all components are meant. -/
def Selects (c : Coordinate) : Option String → Prop
  | none => True
  | some text => ∃ selector, Selector.parse text = .ok selector ∧ selector.names c = true

instance (c : Coordinate) : (module : Option String) → Decidable (Selects c module)
  | none => .isTrue trivial
  | some text =>
    match h : Selector.parse text with
    | .ok selector => decidable_of_iff (selector.names c = true) (by simp [Selects, h])
    | .error _ => .isFalse (by simp [Selects, h])

/-- The rules of a configuration, if there is one. -/
def Config.entries (config : Option Config) : List ConfigRule :=
  (config.bind (·.rules)).getD []

/-- Whether a name is to be dropped from a component: a rule of the configuration lists it for the
component, or it is asked for besides, or nothing is asked for and it is the default. -/
def Targeted (config : Option Config) (names : List String) (module : Option String)
    (c : Coordinate) (name : String) : Prop :=
  (∃ rule ∈ Config.entries config, name ∈ rule.removeDependencies ∧ Selects c rule.module) ∨
  (name ∈ names ∧ Selects c module) ∨
  ((∀ rule ∈ Config.entries config, rule.removeDependencies = []) ∧ names = [] ∧
    name = "hamcrest-core" ∧ c.group.text = "junit" ∧ c.module.text = "junit")

instance (config : Option Config) (names : List String) (module : Option String)
    (c : Coordinate) (name : String) : Decidable (Targeted config names module c name) := by
  unfold Targeted
  infer_instance

/-! ## One removal for every name asked for -/

namespace Config

/-- The removal that a name asks for together with a module text. -/
def Answers (request : String × Option String) (removal : Removal) : Prop :=
  removal.target.text = request.1 ∧
    Option.Rel (fun text selector => Selector.parse text = .ok selector) request.2
      removal.component

/-- The names a rule lists, each with the rule's module text. -/
def requests (rule : ConfigRule) : List (String × Option String) :=
  rule.removeDependencies.map fun name => (name, rule.module)

theorem target_of_ofName {name : String} {removal : Removal}
    (h : Removal.ofName name = .ok removal) :
    removal.target.text = name ∧ removal.component = none := by
  unfold Removal.ofName at h
  split at h
  · rename_i target htarget
    cases h
    exact ⟨Part.ofText_eq_ok_iff.mp htarget, rfl⟩
  · cases h

theorem restrict_of_ofName {name : String} {removal : Removal}
    (h : Removal.ofName name = .ok removal) (selector : Option Selector) :
    (removal.restrict selector).target.text = name ∧
      (removal.restrict selector).component = selector := by
  obtain ⟨ht, hc⟩ := target_of_ofName h
  cases selector with
  | none => exact ⟨ht, hc⟩
  | some selector => exact ⟨ht, rfl⟩

theorem removalsOf_spec {selector : Option Selector} {i j : Nat} {names : List String}
    {removals : List Removal} (h : removalsOf selector i j names = .ok removals) :
    List.Forall₂ (fun name r => r.target.text = name ∧ r.component = selector) names
      removals := by
  induction names generalizing j removals with
  | nil =>
    cases h
    exact .nil
  | cons name names ih =>
    obtain ⟨removal, hremoval, h⟩ := bind_eq_ok.mp h
    obtain ⟨more, hmore, h⟩ := bind_eq_ok.mp h
    cases h
    exact .cons (restrict_of_ofName (within_eq_ok.mp hremoval) selector) (ih hmore)

/-- The names of one rule: they share the rule's module text. -/
theorem requests_answers {rule : ConfigRule} {selector : Option Selector} {i : Nat}
    {removals : List Removal} (hs : rule.module.mapM Selector.parse = .ok selector)
    (h : removalsOf selector i 0 rule.removeDependencies = .ok removals) :
    List.Forall₂ Answers (requests rule) removals := by
  rw [requests, List.forall₂_map_left_iff]
  refine (removalsOf_spec h).imp fun name r hr => ⟨hr.1, ?_⟩
  rw [hr.2]
  exact optionMapM_eq_ok.mp hs

theorem removalsFrom_answers {i : Nat} {rules : List ConfigRule} {removals : List Removal}
    (h : removalsFrom i rules = .ok removals) :
    List.Forall₂ Answers (rules.flatMap requests) removals := by
  induction rules generalizing i removals with
  | nil =>
    cases h
    exact .nil
  | cons rule rules ih =>
    obtain ⟨selector, hs, h⟩ := bind_eq_ok.mp h
    obtain ⟨first, hfirst, h⟩ := bind_eq_ok.mp h
    obtain ⟨more, hmore, h⟩ := bind_eq_ok.mp h
    cases h
    exact List.rel_append (requests_answers (within_eq_ok.mp hs) hfirst) (ih hmore)

/-- The removals of a configuration, one for every name listed, in order. -/
theorem removals_answers {config : Config} {removals : List Removal}
    (h : config.removals = .ok removals) :
    List.Forall₂ Answers ((entries (some config)).flatMap requests) removals :=
  removalsFrom_answers h

/-- The removal of a name from the components of a selector. -/
def removalFor (selector : Option Selector) (name : String) : Attempt Removal := do
  pure ((← Removal.ofName name).restrict selector)

theorem named_answers {names : List String} {module : Option String} {selector : Option Selector}
    {removals : List Removal} (hs : module.mapM Selector.parse = .ok selector)
    (h : names.mapM (removalFor selector) = .ok removals) :
    List.Forall₂ Answers (names.map fun name => (name, module)) removals := by
  rw [List.forall₂_map_left_iff]
  refine (mapM_eq_ok.mp h).imp fun name r hr => ?_
  obtain ⟨removal, hremoval, hr⟩ := bind_eq_ok.mp hr
  cases hr
  obtain ⟨ht, hc⟩ := restrict_of_ofName hremoval selector
  refine ⟨ht, ?_⟩
  rw [hc]
  exact optionMapM_eq_ok.mp hs

/-- All that is asked for: by the configuration, then besides it. -/
def asked (config : Option Config) (names : List String) (module : Option String) :
    List (String × Option String) :=
  (entries config).flatMap requests ++ names.map fun name => (name, module)

/-- The scope of a removal that answers a request covers the components the request is for. -/
theorem covers_of_answers {request : String × Option String} {removal : Removal}
    (h : Answers request removal) (c : Coordinate) :
    (Scope.ofSelector removal.component).covers c = true ↔ Selects c request.2 := by
  obtain ⟨name, module⟩ := request
  obtain ⟨target, component⟩ := removal
  obtain ⟨-, hm⟩ := h
  cases hm with
  | none => simp [Scope.ofSelector, Scope.covers, Selects]
  | some hp => simp [Scope.ofSelector, Scope.covers, Selects, hp]

theorem mem_targets_iff {requests : List (String × Option String)} {removals : List Removal}
    (h : List.Forall₂ Answers requests removals) (c : Coordinate) (name : String) :
    name ∈ Registry.targets (removals.map fun r => (.ofSelector r.component, r)) c ↔
      ∃ request ∈ requests, request.1 = name ∧ Selects c request.2 := by
  induction h with
  | nil => simp [Registry.targets]
  | @cons request removal requests removals ha _ ih =>
    rw [Registry.mem_targets] at ih ⊢
    rw [List.map_cons, List.exists_mem_cons_iff, List.exists_mem_cons_iff, ih,
      covers_of_answers ha, ha.1]
    tauto

theorem exists_asked_iff {config : Option Config} {names : List String} {module : Option String}
    {c : Coordinate} {name : String} :
    (∃ request ∈ asked config names module, request.1 = name ∧ Selects c request.2) ↔
      (∃ rule ∈ entries config, name ∈ rule.removeDependencies ∧ Selects c rule.module) ∨
        (name ∈ names ∧ Selects c module) := by
  simp only [asked, requests, List.mem_append, List.mem_flatMap, List.mem_map, or_and_right,
    exists_or]
  constructor
  · rintro (⟨_, ⟨rule, hrule, n, hn, rfl⟩, rfl, hs⟩ | ⟨_, ⟨n, hn, rfl⟩, rfl, hs⟩)
    · exact .inl ⟨rule, hrule, hn, hs⟩
    · exact .inr ⟨hn, hs⟩
  · rintro (⟨rule, hrule, hn, hs⟩ | ⟨hn, hs⟩)
    · exact .inl ⟨_, ⟨rule, hrule, name, hn, rfl⟩, rfl, hs⟩
    · exact .inr ⟨_, ⟨name, hn, rfl⟩, rfl, hs⟩

theorem asked_eq_nil_iff {config : Option Config} {names : List String} {module : Option String} :
    asked config names module = [] ↔
      (∀ rule ∈ entries config, rule.removeDependencies = []) ∧ names = [] := by
  simp only [asked, requests, List.append_eq_nil_iff, List.flatMap_eq_nil_iff, List.map_eq_nil_iff]

/-! ## The registry -/

/-- The registry of some removals, or the default registry if there is none. -/
def gather (removals : List Removal) : Registry :=
  let registry := removals.foldl Registry.registerRemoval .empty
  if registry.isEmpty then .default else registry

/-- A registry gathers the removals of the rules and those asked for besides. -/
theorem registry_eq (config : Option Config) (names : List String) (module : Option String) :
    Config.registry config names module = (do
      let configured ← removalsFrom 0 (entries config)
      let selector ← module.mapM Selector.parse
      let named ← names.mapM (removalFor selector)
      pure (gather (configured ++ named))) := by
  cases config <;> rfl

/-- The removals of a registry built from what is asked for. -/
def scopedRemovals (removals : List Removal) : List (Scope × Removal) :=
  (if removals.isEmpty then [.hamcrestCore] else removals).map fun r =>
    (.ofSelector r.component, r)

theorem scopedRemovals_of_ne_nil {removals : List Removal} (h : removals ≠ []) :
    scopedRemovals removals = removals.map fun r => (.ofSelector r.component, r) := by
  rw [scopedRemovals, if_neg (by rwa [List.isEmpty_iff])]

theorem gather_eq (removals : List Removal) :
    gather removals = .ofRemovals (scopedRemovals removals) := by
  rw [gather, Registry.foldl_registerRemoval, scopedRemovals]
  cases removals with
  | nil => exact Registry.foldl_registerRemoval [.hamcrestCore]
  | cons removal removals => rfl

theorem registry_eq_ofRemovals {config : Option Config} {names : List String}
    {module : Option String} {registry : Registry}
    (h : Config.registry config names module = .ok registry) :
    ∃ removals, List.Forall₂ Answers (asked config names module) removals ∧
      registry = .ofRemovals (scopedRemovals removals) := by
  rw [registry_eq] at h
  obtain ⟨configured, hconfigured, h⟩ := bind_eq_ok.mp h
  obtain ⟨selector, hs, h⟩ := bind_eq_ok.mp h
  obtain ⟨named, hnamed, h⟩ := bind_eq_ok.mp h
  refine ⟨configured ++ named,
    List.rel_append (removalsFrom_answers hconfigured) (named_answers hs hnamed), ?_⟩
  rw [← gather_eq]
  exact (pure_eq_ok.mp h).symm

theorem scopedRemovals_ne_nil (removals : List Removal) : scopedRemovals removals ≠ [] := by
  cases removals <;> simp [scopedRemovals]

theorem mem_targets_default (c : Coordinate) (name : String) :
    name ∈ Registry.targets (scopedRemovals []) c ↔
      name = "hamcrest-core" ∧ c.group.text = "junit" ∧ c.module.text = "junit" := by
  obtain ⟨⟨group, _⟩, ⟨module, _⟩, version⟩ := c
  simp only [Registry.mem_targets, scopedRemovals, Removal.hamcrestCore, Scope.ofSelector,
    Scope.covers, Selector.names, List.isEmpty_nil, if_true, List.map_cons, List.map_nil,
    List.mem_singleton, exists_eq_left, Bool.and_eq_true, beq_iff_eq, Part.mk.injEq, and_true]
  tauto

/-- The names that a configured registry drops are the targeted ones. -/
theorem mem_targets_scopedRemovals {config : Option Config} {names : List String}
    {module : Option String} {removals : List Removal}
    (h : List.Forall₂ Answers (asked config names module) removals) (c : Coordinate)
    (name : String) :
    name ∈ Registry.targets (scopedRemovals removals) c ↔
      Targeted config names module c name := by
  have hnil : asked config names module = [] ↔ _ := asked_eq_nil_iff
  have hasked :
      (∃ request ∈ asked config names module, request.1 = name ∧ Selects c request.2) ↔ _ :=
    exists_asked_iff
  unfold Targeted
  generalize asked config names module = requests at h hnil hasked
  cases h with
  | nil =>
    -- nothing is asked for, so only the default is left
    obtain ⟨hrules, rfl⟩ := hnil.mp rfl
    rw [mem_targets_default]
    constructor
    · intro h
      exact .inr (.inr ⟨hrules, rfl, h⟩)
    · rintro (⟨rule, hrule, hn, -⟩ | ⟨hn, -⟩ | ⟨-, -, h⟩)
      · rw [hrules rule hrule] at hn
        cases hn
      · cases hn
      · exact h
  | @cons request removal requests removals ha hs =>
    rw [scopedRemovals_of_ne_nil (List.cons_ne_nil _ _), mem_targets_iff (.cons ha hs), hasked]
    constructor
    · rintro (h | h)
      · exact .inl h
      · exact .inr (.inl h)
    · rintro (h | h | ⟨hrules, hnames, -⟩)
      · exact .inl h
      · exact .inr h
      · exact absurd (hnil.mpr ⟨hrules, hnames⟩) (List.cons_ne_nil _ _)

end Config

/-! ## Applying the registry -/

/-- **What a configured registry removes.** The registry has a rule, and applied to metadata with a
coordinate it leaves in every variant the declarations that are not targeted, in their order. -/
theorem apply_configured {config : Option Config} {names : List String} {module : Option String}
    {registry : Registry} (h : Config.registry config names module = .ok registry) :
    registry.isEmpty = false ∧
      ∀ (m : Metadata) (c : Coordinate), m.coordinate = .ok c →
        ∃ rewrite, registry.apply m = .ok (rewrite,
          { m with variants := m.variants.map fun v =>
            { v with dependencies := v.dependencies.filter fun d =>
              ¬ Targeted config names module c d.name } }) := by
  obtain ⟨removals, hanswers, rfl⟩ := Config.registry_eq_ofRemovals h
  constructor
  · exact Registry.isEmpty_ofRemovals (Config.scopedRemovals_ne_nil removals)
  · intro m c hc
    have hkeep : Metadata.without (Registry.targets (Config.scopedRemovals removals) c) m =
        { m with variants := m.variants.map fun v =>
          { v with dependencies := v.dependencies.filter fun d =>
            ¬ Targeted config names module c d.name } } := by
      have hv : ∀ v : Variant,
          v.without (Registry.targets (Config.scopedRemovals removals) c) =
            { v with dependencies := v.dependencies.filter fun d =>
              ¬ Targeted config names module c d.name } := by
        intro v
        simp only [Variant.without, List.contains_eq_mem,
          Config.mem_targets_scopedRemovals hanswers, decide_not]
      rw [Metadata.without, funext hv]
    rw [Registry.apply_ofRemovals _ hc, hkeep]
    exact ⟨_, rfl⟩

/-- A rule for the module, a rule for another module, and a name asked for besides. -/
theorem apply_configured_junit :
    ∃ registry rewrite after,
      Config.registry (some ⟨some [⟨some " junit:junit ", ["hamcrest-core"], []⟩,
        ⟨some "foo:bar", ["asm"], []⟩], []⟩) ["slf4j-api"] (some "junit:junit:4.13.2") =
          .ok registry ∧
      registry.isEmpty = false ∧
      registry.apply ⟨"1.1", ⟨"junit", "junit", "4.13.2", .empty⟩, none, [⟨"runtime", .empty,
        [.ofName "org.hamcrest" "hamcrest-core", .ofName "org.ow2.asm" "asm",
          .ofName "org.slf4j" "slf4j-api"], .empty⟩], .empty⟩ = .ok (rewrite, after) ∧
      after.variants.map (fun v => v.dependencies.map (·.name)) = [["asm"]] := by
  obtain ⟨registry, h⟩ := exists_of_isOk (x := Config.registry (some ⟨some
    [⟨some " junit:junit ", ["hamcrest-core"], []⟩, ⟨some "foo:bar", ["asm"], []⟩], []⟩)
    ["slf4j-api"] (some "junit:junit:4.13.2")) (by decide +kernel)
  obtain ⟨hne, happly⟩ := apply_configured h
  have hc : Coordinate.ofTexts "junit" "junit" "4.13.2" =
      .ok ⟨⟨"junit", by decide⟩, ⟨"junit", by decide⟩, ⟨"4.13.2", by decide⟩⟩ := by
    decide +kernel
  have hrewrite := fun vs =>
    happly ⟨"1.1", ⟨"junit", "junit", "4.13.2", .empty⟩, none, vs, .empty⟩ _ hc
  exact ⟨registry, _, _, h, hne, (hrewrite _).choose_spec, by decide +kernel⟩

end ComponentRules
