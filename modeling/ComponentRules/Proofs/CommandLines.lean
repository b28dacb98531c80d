import ComponentRules.Proofs.Arguments

/-!
# Command lines with one destination changed

An accepted command line has at most one destination. If it is a check, the same command line with
the in-place option instead is accepted as well, and asks for the same otherwise: arguments are
settled one after the other, and nothing looks at a destination before all are.

* `Options.exclusive_of_parse`: there is at most one destination.
* `Options.parse_inPlace`: a check replaced by the in-place option.
-/

namespace ComponentRules

open Outcome

/-! ## One destination -/

namespace Given

variable {g h : Given}

theorem mem_destinations {p : Parameter} :
    p ∈ g.destinations ↔ g.has p = true ∧ p.isDestination = true := by
  rw [destinations, List.mem_filter, has_iff]
  simp

theorem eq_of_mem_destinations (h : g.destinations.length ≤ 1) {p q : Parameter}
    (hp : p ∈ g.destinations) (hq : q ∈ g.destinations) : p = q := by
  obtain ⟨only, hall⟩ | hnil : (∃ only, g.destinations = [only]) ∨ g.destinations = [] := by
    cases hd : g.destinations with
    | nil => exact .inr rfl
    | cons p others =>
      rw [hd, List.length_cons] at h
      have hothers : others = [] := List.length_eq_zero_iff.mp (by omega)
      exact .inl ⟨p, by rw [hothers]⟩
  · rw [hall, List.mem_singleton] at hp hq
    exact hp.trans hq.symm
  · rw [hnil] at hp
    cases hp

end Given

namespace Options

variable {g : Given} {o : Options}

theorem ofGiven_eq_ok :
    ofGiven g = .ok o ↔ g.destinations.length ≤ 1 ∧ g.has .files = true ∧
      (g.has .module = true → g.has .remove = true) ∧
      o = { files := g.values .files
            config := (g.values .config).head?
            remove := g.values .remove
            module := (g.values .module).head?
            output := (g.values .output).head?
            inPlace := g.has .inPlace
            check := g.has .check
            quiet := g.has .quiet } := by
  unfold ofGiven
  split
  · rename_i hdestinations
    simp [hdestinations]
  · rename_i hdestinations
    have hlength : g.destinations.length ≤ 1 := by
      cases hd : g.destinations with
      | nil => exact Nat.zero_le _
      | cons p others =>
        cases others with
        | nil => exact Nat.le_refl _
        | cons other others => exact absurd hd (hdestinations p other others)
    cases g.has .files <;> cases g.has .module <;> cases g.has .remove <;>
      simp [hlength, eq_comm]

theorem parse_eq_ok {arguments : List String} :
    parse arguments = .ok o ↔ ∃ g, Given.nothing.addAll arguments = .ok g ∧ ofGiven g = .ok o := by
  unfold parse
  rw [bind_eq_ok]

/-- **There is at most one destination.** -/
theorem exclusive_of_parse {arguments : List String} (h : parse arguments = .ok o) :
    (o.check = true → o.inPlace = false ∧ o.output = none) ∧
      (o.inPlace = true → o.check = false ∧ o.output = none) := by
  obtain ⟨g, -, hg⟩ := parse_eq_ok.mp h
  obtain ⟨hlength, -, -, rfl⟩ := ofGiven_eq_ok.mp hg
  have honly : ∀ p q : Parameter, p ≠ q → p.isDestination = true → q.isDestination = true →
      g.has p = true → g.has q = false := by
    intro p q hne hp hq hgiven
    by_contra hother
    rw [Bool.not_eq_false] at hother
    exact hne (Given.eq_of_mem_destinations hlength (Given.mem_destinations.mpr ⟨hgiven, hp⟩)
      (Given.mem_destinations.mpr ⟨hother, hq⟩))
  have hnone : g.has .output = false → (g.values .output).head? = none := by
    intro houtput
    cases hvalues : g.values .output with
    | nil => rfl
    | cons value values =>
      have hgiven := Given.has_of_values (hvalues ▸ List.mem_cons_self)
      rw [houtput] at hgiven
      cases hgiven
  constructor
  · intro hcheck
    exact ⟨honly .check .inPlace (by decide) rfl rfl hcheck,
      hnone (honly .check .output (by decide) rfl rfl hcheck)⟩
  · intro hinPlace
    exact ⟨honly .inPlace .check (by decide) rfl rfl hinPlace,
      hnone (honly .inPlace .output (by decide) rfl rfl hinPlace)⟩

theorem exclusive_of_output {arguments : List String} {path : String}
    (h : parse arguments = .ok o) (houtput : o.output = some path) :
    o.check = false ∧ o.inPlace = false := by
  obtain ⟨honlyCheck, honlyInPlace⟩ := exclusive_of_parse h
  rw [houtput] at honlyCheck honlyInPlace
  refine ⟨Bool.not_eq_true _ ▸ fun hcheck => ?_, Bool.not_eq_true _ ▸ fun hinPlace => ?_⟩
  · cases (honlyCheck hcheck).2
  · cases (honlyInPlace hinPlace).2

/-- Only several files with no place of their own are objected to. -/
theorem objection?_eq_none :
    o.objection? = none ↔ (1 < o.files.length → o.inPlace = true ∨ o.check = true) := by
  unfold objection?
  split
  next hmany =>
    simp only [Bool.and_eq_true, decide_eq_true_eq, Bool.not_eq_true'] at hmany
    obtain ⟨⟨hfiles, hinPlace⟩, hcheck⟩ := hmany
    refine iff_of_false (by split <;> nofun) fun h => ?_
    simpa [hinPlace, hcheck] using h hfiles
  next hfew =>
    refine iff_of_true rfl fun hfiles => ?_
    simpa [hfiles, or_iff_not_imp_left] using hfew

theorem length_files_le (h : o.objection? = none) (hcheck : o.check = false)
    (hinPlace : o.inPlace = false) : o.files.length ≤ 1 := by
  by_contra hmany
  simpa [hcheck, hinPlace] using objection?_eq_none.mp h (Nat.lt_of_not_le hmany)

end Options

/-! ## The in-place option for a check -/

/-- A parameter, with the in-place option for a check. -/
def Parameter.inPlaced : Parameter → Parameter
  | .check => .inPlace
  | p => p

theorem Parameter.inPlaced_of_ne {p : Parameter} (h : p ≠ .check) : p.inPlaced = p := by
  cases p <;> first | rfl | exact absurd rfl h

namespace Given

variable {g h : Given}

/-- What is given, with the in-place option for a check. -/
def inPlaced (g : Given) : Given :=
  { g with settled := g.settled.map fun (p, values) => (p.inPlaced, values) }

theorem has_inPlaced (g : Given) {p : Parameter} (hcheck : p ≠ .check) (hinPlace : p ≠ .inPlace) :
    g.inPlaced.has p = g.has p := by
  simp only [has, inPlaced, List.any_map]
  refine List.any_congr rfl fun entry => ?_
  obtain ⟨p', values⟩ := entry
  cases p' <;> simp [Parameter.inPlaced, Ne.symm hcheck, Ne.symm hinPlace]

theorem values_inPlaced (g : Given) {p : Parameter} (hcheck : p ≠ .check)
    (hinPlace : p ≠ .inPlace) :
    g.inPlaced.values p = g.values p := by
  have hsame : ∀ q : Parameter, (q.inPlaced == p) = (q == p) := by
    intro q
    cases q <;> simp [Parameter.inPlaced, Ne.symm hcheck, Ne.symm hinPlace]
  simp only [values, inPlaced, List.filter_map, List.flatMap_map, Function.comp_def, hsame]

theorem destinations_inPlaced (g : Given) :
    g.inPlaced.destinations = g.destinations.map Parameter.inPlaced := by
  have hsame : ∀ q : Parameter, q.inPlaced.isDestination = q.isDestination := by
    intro q
    cases q <;> rfl
  simp only [destinations, inPlaced, List.map_map, List.filter_map, Function.comp_def, hsame]

theorem has_inPlace_inPlaced (h : g.has .check = true) : g.inPlaced.has .inPlace = true := by
  obtain ⟨values, hmem⟩ := has_iff.mp h
  exact has_iff.mpr ⟨values, List.mem_map.mpr ⟨_, hmem, rfl⟩⟩

theorem has_check_inPlaced (g : Given) : g.inPlaced.has .check = false := by
  by_contra h
  rw [Bool.not_eq_false] at h
  obtain ⟨values, hmem⟩ := has_iff.mp h
  obtain ⟨⟨p, values'⟩, -, heq⟩ := List.mem_map.mp hmem
  cases p <;> cases heq

theorem inPlaced_of_not_has (h : g.has .check = false) : g.inPlaced = g := by
  have hsettled : g.settled.map (fun (p, values) => (p.inPlaced, values)) = g.settled := by
    refine (List.map_congr_left ?_).trans (List.map_id _)
    rintro ⟨p, values⟩ hmem
    have hne : p ≠ .check := by
      rintro rfl
      rw [has_iff.mpr ⟨values, hmem⟩] at h
      cases h
    simp only [Parameter.inPlaced_of_ne hne, id_eq]
  rw [inPlaced, hsettled]

/-- Whether a step does the same with the in-place option for a check: then a step after
a check, and after which no in-place option is given, can be made as well if the check is one. -/
def Mirrors (f : Given → Except UsageFault Given) : Prop :=
  ∀ g h, f g = .ok h → g.has .check = true →
    h.has .check = true ∧
      (h.has .inPlace = false → g.has .inPlace = false ∧ f g.inPlaced = .ok h.inPlaced)

theorem mirrors_settle (p : Parameter) (values : List String) : Mirrors (settle · p values) := by
  intro g h hstep hcheck
  obtain ⟨hvalues, hrepeated, hpath, rfl⟩ := settle_eq_ok.mp hstep
  refine ⟨by rw [has_append, hcheck, Bool.true_or], fun hinPlace => ?_⟩
  rw [has_append, Bool.or_eq_false_iff, beq_eq_false_iff_ne] at hinPlace
  have hne : p ≠ .check := by
    -- a check has been given before and cannot be given twice
    rintro rfl
    rw [hcheck] at hrepeated
    cases hrepeated
  refine ⟨hinPlace.1, settle_eq_ok.mpr ⟨hvalues, ?_, hpath, ?_⟩⟩
  · rw [has_inPlaced g hne hinPlace.2]
    exact hrepeated
  · simp [inPlaced, Parameter.inPlaced_of_ne hne]

theorem Step.mirrors {f : Given → Except UsageFault Given} (hf : Step f) : Mirrors f :=
  @Step.carries (List.map fun (p, values) => (p.inPlaced, values))
    (fun settled => settled.any (·.1 == .check) = true)
    (fun settled => settled.any (·.1 == .inPlace) = false) f hf mirrors_settle

theorem addAll_append {before : List String} (h : "--" ∉ before) (after : List String) (g : Given) :
    g.addAll (before ++ after) = before.foldlM addArgument g >>= (addAll · after) := by
  induction before generalizing g with
  | nil => rfl
  | cons argument before ih =>
    rw [List.mem_cons, not_or] at h
    rw [List.cons_append, addAll, if_neg (Ne.symm h.1), List.foldlM_cons]
    cases g.addArgument argument with
    | error fault => rfl
    | ok next => exact ih h.2 next

theorem addArgument_check (g : Given) :
    g.addArgument "--check" = g.flush >>= (settle · .check []) := rfl

theorem addArgument_inPlace (g : Given) :
    g.addArgument "--in-place" = g.flush >>= (settle · .inPlace []) := rfl

end Given

namespace Options

variable {o : Options}

theorem ofGiven_inPlaced {g : Given} (h : ofGiven g = .ok o) (hcheck : g.has .check = true) :
    ofGiven g.inPlaced = .ok { o with check := false, inPlace := true } := by
  obtain ⟨hlength, hfiles, hmodule, rfl⟩ := ofGiven_eq_ok.mp h
  refine ofGiven_eq_ok.mpr ⟨?_, ?_, ?_, ?_⟩
  · rw [Given.destinations_inPlaced, List.length_map]
    exact hlength
  · rw [g.has_inPlaced (by decide) (by decide)]
    exact hfiles
  · rw [g.has_inPlaced (by decide) (by decide), g.has_inPlaced (by decide) (by decide)]
    exact hmodule
  · have hvalues : ∀ p : Parameter, p ≠ .check → p ≠ .inPlace →
        g.inPlaced.values p = g.values p := fun p => g.values_inPlaced
    rw [hvalues .files (by decide) (by decide), hvalues .config (by decide) (by decide),
      hvalues .remove (by decide) (by decide), hvalues .module (by decide) (by decide),
      hvalues .output (by decide) (by decide), Given.has_inPlace_inPlaced hcheck,
      g.has_check_inPlaced, g.has_inPlaced (by decide) (by decide)]

/-- **A check replaced by the in-place option**: the command line is accepted as well, and asks for
the same otherwise. -/
theorem parse_inPlace {before after : List String} (hbefore : "--" ∉ before)
    (h : parse (before ++ "--check" :: after) = .ok o) :
    o.check = true ∧ parse (before ++ "--in-place" :: after) =
      .ok { o with check := false, inPlace := true } := by
  obtain ⟨hexclusive, -⟩ := exclusive_of_parse h
  obtain ⟨g, hall, hg⟩ := parse_eq_ok.mp h
  obtain ⟨-, -, -, ho⟩ := ofGiven_eq_ok.mp hg
  rw [Given.addAll_append hbefore] at hall
  obtain ⟨start, hstart, hall⟩ := bind_eq_ok.mp hall
  rw [Given.addAll, if_neg (by decide), Given.addArgument_check] at hall
  obtain ⟨checked, hchecked, hrest⟩ := bind_eq_ok.mp hall
  obtain ⟨flushed, hflushed, hsettled⟩ := bind_eq_ok.mp hchecked
  obtain ⟨-, hfirst, -, rfl⟩ := Given.settle_eq_ok.mp hsettled
  -- the arguments behind the check are taken in the same way
  have hgiven : { flushed with settled := flushed.settled ++ [(.check, [])] : Given }.has .check =
      true := by
    rw [Given.has_append]
    exact Bool.or_true _
  obtain ⟨hcheck, hback⟩ := (Given.step_addAll after).mirrors _ _ hrest hgiven
  have hochecks : o.check = true := by rw [ho]; exact hcheck
  have hinPlace : g.has .inPlace = false := by
    have hoinPlace := (hexclusive hochecks).1
    rwa [ho] at hoinPlace
  obtain ⟨hbare, hrest'⟩ := hback hinPlace
  have hflushedBare : flushed.inPlaced = flushed := Given.inPlaced_of_not_has hfirst
  have hplaced : flushed.settle .inPlace [] =
      .ok { flushed with settled := flushed.settled ++ [(.check, [])] : Given }.inPlaced := by
    rw [Given.has_append, Bool.or_eq_false_iff] at hbare
    refine Given.settle_eq_ok.mpr ⟨rfl, by rw [hbare.1]; rfl, rfl, ?_⟩
    rw [Given.inPlaced, List.map_append, show flushed.settled.map (fun (p, values) =>
      (p.inPlaced, values)) = flushed.settled from congrArg Given.settled hflushedBare]
    rfl
  refine ⟨hochecks, parse_eq_ok.mpr ⟨g.inPlaced, ?_, ofGiven_inPlaced hg hcheck⟩⟩
  rw [Given.addAll_append hbefore]
  refine bind_eq_ok.mpr ⟨start, hstart, ?_⟩
  rw [Given.addAll, if_neg (by decide), Given.addArgument_inPlace]
  exact bind_eq_ok.mpr ⟨_, bind_eq_ok.mpr ⟨flushed, hflushed, hplaced⟩, hrest'⟩

end Options

end ComponentRules
