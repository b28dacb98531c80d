import ComponentRules.CommandLine
import ComponentRules.Proofs.Outcome
import Mathlib.Tactic.Choose

/-!
# Arguments step by step

However an argument is spelled, it is added to what is given in the same few steps. What is true of
these steps is true of whole command lines, and has to be shown for the steps only.

* `Given.Step`: the steps; `Given.step_addAll`: all arguments are added in steps.
* `Given.Step.filled`: what takes values is given with values.
* `Given.Step.carries`: a change of what is settled is carried through the steps, if it is carried
  through the settling of single parameters.
-/

namespace ComponentRules.Given

open Outcome

variable {g h : Given}

/-! ## What is given -/

theorem has_iff {p : Parameter} : g.has p = true ↔ ∃ values, (p, values) ∈ g.settled := by
  simp [has]

theorem has_of_values {p : Parameter} {value : String} (h : value ∈ g.values p) :
    g.has p = true := by
  obtain ⟨⟨p', values⟩, hmem, -⟩ := List.mem_flatMap.mp h
  obtain ⟨hsettled, hp⟩ := List.mem_filter.mp hmem
  cases eq_of_beq hp
  exact has_iff.mpr ⟨values, hsettled⟩

theorem settle_eq_ok {p : Parameter} {values : List String} :
    g.settle p values = .ok h ↔ (p.takesValue && values.isEmpty) = false ∧
      (!p.repeats && g.has p) = false ∧ (p.isPath && values.any (·.isEmpty)) = false ∧
        h = { g with settled := g.settled ++ [(p, values)] } := by
  unfold settle has
  generalize (p.takesValue && values.isEmpty) = missing
  generalize (!p.repeats && g.settled.any (·.1 == p)) = repeated
  generalize (p.isPath && values.any (·.isEmpty)) = empty
  cases missing <;> cases repeated <;> cases empty <;> simp [eq_comm]

theorem has_append (g : Given) (p q : Parameter) (values : List String) :
    { g with settled := g.settled ++ [(p, values)] : Given }.has q = (g.has q || p == q) := by
  simp [has]

/-! ## Steps -/

/-- The steps in which arguments are added to what is given. A step fails, changes what is pending,
settles a parameter, makes one step and then another, or looks at what is pending first. -/
inductive Step : (Given → Except UsageFault Given) → Prop
  | fail (fault : UsageFault) : Step fun _ => .error fault
  | pend (change : Option (Parameter × List String) → Option (Parameter × List String)) :
      Step fun g => .ok { g with pending := change g.pending }
  | settle (p : Parameter) (values : List String) : Step (settle · p values)
  | andThen {f next : Given → Except UsageFault Given} :
      Step f → Step next → Step fun g => f g >>= next
  | look {f : Option (Parameter × List String) → Given → Except UsageFault Given} :
      (∀ pending, Step (f pending)) → Step fun g => f g.pending g

theorem step_of_pending {f : Given → Except UsageFault Given}
    (h : ∀ pending, ∃ f', Step f' ∧ ∀ g, g.pending = pending → f g = f' g) : Step f := by
  choose f' hstep heq using h
  have hlook : f = fun g => f' g.pending g := funext fun g => heq g.pending g rfl
  rw [hlook]
  exact .look hstep

theorem step_ok : Step .ok :=
  .pend id

theorem step_flush : Step flush := by
  refine step_of_pending fun pending => ?_
  cases pending with
  | none => exact ⟨.ok, step_ok, fun g hg => by rw [flush, hg]⟩
  | some entry =>
    obtain ⟨p, values⟩ := entry
    refine ⟨_, .andThen (.pend fun _ => none) (.settle p values), fun g hg => ?_⟩
    rw [flush, hg]
    rfl

theorem step_addValue (value : String) : Step fun g => .ok (g.addValue value) :=
  .pend (Option.map (Prod.map id (· ++ [value])))

theorem step_addFile (file : String) : Step (addFile · file) := by
  have hflush : Step fun g =>
      flush g >>= fun g => .ok { g with pending := some (.files, [file]) } :=
    .andThen step_flush (.pend fun _ => some (.files, [file]))
  refine step_of_pending fun pending => ?_
  by_cases hfiles : ∃ files, pending = some (.files, files)
  · obtain ⟨files, rfl⟩ := hfiles
    refine ⟨_, step_addValue file, fun g hg => ?_⟩
    simp only [addFile, hg]
    rfl
  · refine ⟨_, hflush, fun g hg => ?_⟩
    simp only [addFile]
    split
    · rename_i files hpending
      exact absurd ⟨files, hg.symm.trans hpending⟩ hfiles
    · rfl

theorem step_addSwitch (s : Switch) : Step (addSwitch · s) := by
  unfold addSwitch
  refine .andThen step_flush ?_
  cases s with
  | help => exact .fail _
  | version => exact .fail _
  | parameter p =>
    simp only
    split
    · exact .pend fun _ => some (p, [])
    · exact .settle p []

theorem step_addValued (p : Parameter) (value : String) : Step (addValued · p value) :=
  .andThen step_flush (.settle p [value])

theorem step_addLong (text : List Char) : Step (addLong · text) := by
  unfold addLong
  simp only
  split
  · exact .fail _
  · exact step_addSwitch _
  · split
    · exact step_addValued _ _
    · exact .fail _

theorem step_addShort (letters : List Char) : Step (addShort · letters) := by
  induction letters with
  | nil => exact step_ok
  | cons c rest ih =>
    unfold addShort
    split
    · exact .fail _
    · split
      · exact step_addValued _ _
      · exact step_addValued _ _
      · exact .andThen (step_addSwitch _) ih

theorem step_addArgument (argument : String) : Step (addArgument · argument) := by
  unfold addArgument
  split
  · exact step_addLong _
  · exact step_addShort _
  · refine step_of_pending fun pending => ?_
    have hawaits : ∀ g : Given, g.pending = pending →
        g.awaitsValue = awaitsValue ⟨[], pending⟩ := by
      intro g hg
      unfold awaitsValue
      rw [hg]
    by_cases hpending : awaitsValue ⟨[], pending⟩ = true
    · refine ⟨_, step_addValue argument, fun g hg => ?_⟩
      rw [if_pos ((hawaits g hg).trans hpending)]
    · refine ⟨_, step_addFile argument, fun g hg => ?_⟩
      rw [if_neg (hawaits g hg ▸ hpending)]

theorem step_addFiles (files : List String) : Step (files.foldlM addFile ·) := by
  induction files with
  | nil => exact step_ok
  | cons file files ih =>
    simp only [List.foldlM_cons]
    exact .andThen (step_addFile file) ih

/-- **All arguments are added in steps.** -/
theorem step_addAll (arguments : List String) : Step (addAll · arguments) := by
  induction arguments with
  | nil => exact step_flush
  | cons argument arguments ih =>
    unfold addAll
    split
    · exact .andThen (step_addFiles arguments) step_flush
    · exact .andThen (step_addArgument argument) ih

/-! ## Values -/

/-- Whether each parameter that takes values has some. -/
def Filled (g : Given) : Prop :=
  ∀ p values, (p, values) ∈ g.settled → p.takesValue = true → values ≠ []

theorem filled_nothing : nothing.Filled :=
  nofun

/-- A step settles what takes values with values. -/
theorem Step.filled {f : Given → Except UsageFault Given} (hf : Step f) (hg : g.Filled)
    (hstep : f g = .ok h) : h.Filled := by
  induction hf generalizing g h with
  | fail fault => cases hstep
  | pend change =>
    cases hstep
    exact hg
  | settle p values =>
    obtain ⟨hvalues, -, -, rfl⟩ := settle_eq_ok.mp hstep
    intro q others hmem htakes
    rcases List.mem_append.mp hmem with hmem | hmem
    · exact hg q others hmem htakes
    · cases List.mem_singleton.mp hmem
      simpa [htakes] using hvalues
  | andThen _ _ ihf ihnext =>
    obtain ⟨mid, hmid, hlast⟩ := bind_eq_ok.mp hstep
    exact ihnext (ihf hg hmid) hlast
  | look _ ih => exact ih g.pending hg hstep

theorem Filled.values_ne_nil (hg : g.Filled) {p : Parameter} (htakes : p.takesValue = true)
    (hp : g.has p = true) : g.values p ≠ [] := by
  obtain ⟨values, hmem⟩ := has_iff.mp hp
  obtain ⟨value, hvalue⟩ := List.exists_mem_of_ne_nil values (hg p values hmem htakes)
  refine List.ne_nil_of_mem (List.mem_flatMap.mpr ⟨(p, values), ?_, hvalue⟩)
  exact List.mem_filter.mpr ⟨hmem, beq_self_eq_true p⟩

/-! ## Changes of what is settled -/

/-- What is given, with a change of what is settled. -/
def resettle (change : List (Parameter × List String) → List (Parameter × List String))
    (g : Given) : Given :=
  { g with settled := change g.settled }

/-- Whether a step can be made as well after a change of what is settled, and comes to the same then
but for the change. It has to only if it is made where `start` holds, which it keeps, and ends where
`fine` holds, which must then have held before. -/
def Carries (change : List (Parameter × List String) → List (Parameter × List String))
    (start fine : List (Parameter × List String) → Prop)
    (f : Given → Except UsageFault Given) : Prop :=
  ∀ g h, f g = .ok h → start g.settled → start h.settled ∧
    (fine h.settled → fine g.settled ∧ f (g.resettle change) = .ok (h.resettle change))

section Carries

variable {change : List (Parameter × List String) → List (Parameter × List String)}
  {start fine : List (Parameter × List String) → Prop} {f next : Given → Except UsageFault Given}

theorem Carries.andThen (hf : Carries change start fine f)
    (hnext : Carries change start fine next) : Carries change start fine fun g => f g >>= next := by
  intro g h hstep hstart
  obtain ⟨mid, hmid, hlast⟩ := bind_eq_ok.mp hstep
  obtain ⟨hstart', hback⟩ := hf g mid hmid hstart
  obtain ⟨hstart'', hback'⟩ := hnext mid h hlast hstart'
  refine ⟨hstart'', fun hfine => ?_⟩
  obtain ⟨hfineMid, hlast'⟩ := hback' hfine
  obtain ⟨hfineFirst, hmid'⟩ := hback hfineMid
  exact ⟨hfineFirst, bind_eq_ok.mpr ⟨_, hmid', hlast'⟩⟩

/-- **A change is carried through all steps if settling carries it.** -/
theorem Step.carries (hf : Step f)
    (hsettle : ∀ p values, Carries change start fine (Given.settle · p values)) :
    Carries change start fine f := by
  induction hf with
  | fail fault => nofun
  | pend next =>
    intro g h hstep hstart
    cases hstep
    exact ⟨hstart, fun hfine => ⟨hfine, rfl⟩⟩
  | settle p values => exact hsettle p values
  | andThen _ _ ihf ihnext => exact ihf.andThen ihnext
  | look _ ih =>
    -- what is pending is the same after the change
    intro g h hstep hstart
    exact ih g.pending g h hstep hstart

end Carries

end ComponentRules.Given
