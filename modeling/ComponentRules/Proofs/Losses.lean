import ComponentRules.Proofs.Frame
import ComponentRules.Proofs.Reports
import Mathlib.Data.List.Nodup

/-!
# What is reported as lost

A report compares the declarations of a variant with those of the variant that has its name
afterwards, and lists the ones that have no equal there. If no name stands twice, this is the same
variant. A declaration of which nothing is left is then reported as often as it stood there, and a
declaration of which something is left is not reported at all, even if it stood there more often
before.

A removal drops all declarations of a name or none, so the report on removals is exact: it lists
the variants that lost something, each with all that it lost.

* `Registry.occurrences_removedFrom`: how often a declaration is reported, whatever the rules did.
* `Registry.apply_ofRemovals_report`: the report on removals.
-/

namespace ComponentRules

open Json Outcome

/-! ## Counting declarations -/

namespace Declaration

/-- How often a declaration stands in a list. The order of unknown members does not count. -/
def occurrences (d : Declaration) (ds : List Declaration) : Nat :=
  ds.countP d.same

theorem occurrences_eq_zero {d : Declaration} {ds : List Declaration} :
    d.occurrences ds = 0 ↔ ds.any d.same = false := by
  rw [occurrences, List.countP_eq_zero, List.any_eq_false]

theorem any_same_of_same {d e : Declaration} (h : d.same e = true) (ds : List Declaration) :
    ds.any e.same = ds.any d.same := by
  rw [Bool.eq_iff_iff, List.any_eq_true, List.any_eq_true]
  constructor
  · rintro ⟨x, hx, hsame⟩
    exact ⟨x, hx, same_trans h hsame⟩
  · rintro ⟨x, hx, hsame⟩
    exact ⟨x, hx, same_trans (same_symm h) hsame⟩

/-- Of the declarations that have no equal in another list, those equal to a given one are all or
none. -/
theorem occurrences_filter_any (d : Declaration) (before after : List Declaration) :
    d.occurrences (before.filter fun e => !after.any e.same) =
      if d.occurrences after = 0 then d.occurrences before else 0 := by
  have hcount : d.occurrences (before.filter fun e => !after.any e.same) =
      before.countP fun e => d.same e && !after.any e.same := List.countP_filter
  rw [hcount]
  by_cases hgone : after.any d.same = false
  · rw [if_pos (occurrences_eq_zero.mpr hgone)]
    refine List.countP_congr fun e _ => ?_
    rw [Bool.and_eq_true]
    constructor
    · intro h
      exact h.1
    · intro h
      rw [any_same_of_same h, hgone]
      exact ⟨h, rfl⟩
  · rw [if_neg fun h => hgone (occurrences_eq_zero.mp h)]
    refine List.countP_eq_zero.mpr fun e _ h => ?_
    obtain ⟨hsame, hlost⟩ := (Bool.and_eq_true _ _).mp h
    rw [any_same_of_same hsame, Bool.not_eq_true'] at hlost
    exact hgone hlost

end Declaration

/-! ## Variants before and after -/

namespace Metadata

variable {m after : Metadata}

theorem forall₂_of_frame (h : after.frame = m.frame) :
    List.Forall₂ (fun v w => w.name = v.name) m.variants after.variants :=
  (framed_of_frame h).variants.imp fun _ _ hframed => hframed.name

theorem names_of_frame (h : after.frame = m.frame) :
    after.variants.map (·.name) = m.variants.map (·.name) := by
  have hnames := forall₂_of_frame h
  rw [← List.forall₂_eq_eq_eq, List.forall₂_map_left_iff, List.forall₂_map_right_iff]
  exact hnames.flip

/-- A variant is found again under its name if no name stands twice. -/
theorem variant?_of_frame (h : after.frame = m.frame) (hnames : (m.variants.map (·.name)).Nodup) :
    List.Forall₂ (fun v w => v ∈ m.variants ∧ w.name = v.name ∧ after.variant? v.name = some w)
      m.variants after.variants := by
  rw [List.forall₂_and_left]
  refine ⟨fun v hv => hv, ?_⟩
  have hafter : (after.variants.map (·.name)).Nodup := by rwa [names_of_frame h]
  have hmem := (List.forall₂_and_left after.variants m.variants).mpr
    ⟨fun w (hw : w ∈ after.variants) => hw, (forall₂_of_frame h).flip⟩
  refine hmem.flip.imp fun v w hvw => ⟨hvw.2, ?_⟩
  rw [← hvw.2]
  exact variant?_of_nodup hafter hvw.1

end Metadata

/-! ## Entries of a report -/

/-- What is reported as lost by the variant of a name; nothing if there is no entry. -/
def Rewrite.removedFrom (r : Rewrite) (variant : String) : List Declaration :=
  match r.changes.find? (·.variant == variant) with
  | none => []
  | some change => change.removed

namespace Registry

theorem lost_eq_filter {after : Metadata} {v w : Variant} (h : after.variant? v.name = some w) :
    lost after v = v.dependencies.filter fun d => !w.dependencies.any d.same := by
  simp only [lost, h]

/-- If no name stands twice, the entry of a variant is what it lost. -/
theorem removedFrom_of_changes {rewrite : Rewrite} {m after : Metadata}
    (hchanges : rewrite.changes = changes m after) (hnames : (m.variants.map (·.name)).Nodup)
    {v : Variant} (hv : v ∈ m.variants) : rewrite.removedFrom v.name = lost after v := by
  unfold Rewrite.removedFrom
  rw [hchanges, changes, List.find?_filter, List.find?_map]
  cases hfind : m.variants.find? _ with
  | none =>
    -- the variant itself has the name, so there is no entry as it lost nothing
    have hv' := List.find?_eq_none.mp hfind v hv
    simp only [Function.comp_apply, beq_self_eq_true, and_true, decide_eq_true_eq,
      Bool.not_eq_true', List.isEmpty_eq_false_iff, not_not] at hv'
    rw [hv']
    rfl
  | some u =>
    have hname : u.name = v.name := by
      have hu := List.find?_some hfind
      simp only [Function.comp_apply, decide_eq_true_eq, beq_iff_eq] at hu
      exact hu.2
    have hu : u ∈ m.variants := List.mem_of_find?_eq_some hfind
    rw [List.inj_on_of_nodup_map hnames hu hv hname]
    rfl

theorem occurrences_of_changes {rewrite : Rewrite} {m after : Metadata}
    (hchanges : rewrite.changes = changes m after) (hnames : (m.variants.map (·.name)).Nodup)
    {v w : Variant} (hv : v ∈ m.variants) (hlookup : after.variant? v.name = some w)
    (d : Declaration) :
    d.occurrences (rewrite.removedFrom v.name) =
      if d.occurrences w.dependencies = 0 then d.occurrences v.dependencies else 0 := by
  rw [removedFrom_of_changes hchanges hnames hv, lost_eq_filter hlookup]
  exact d.occurrences_filter_any v.dependencies w.dependencies

/-- **How often a declaration is reported as lost.** If nothing of it is left in a variant, it is as
often as it stood there, else never. So it is what the variant has less of it just if nothing of it
is left or the variant has no less of it than before. -/
theorem occurrences_removedFrom (registry : Registry) {m : Metadata} {c : Coordinate}
    (hc : m.coordinate = .ok c) (hnames : (m.variants.map (·.name)).Nodup) :
    ∃ rewrite after, registry.apply m = .ok (rewrite, after) ∧
      List.Forall₂ (fun v w => w.name = v.name ∧ ∀ d : Declaration,
          d.occurrences (rewrite.removedFrom v.name) =
            (if d.occurrences w.dependencies = 0 then d.occurrences v.dependencies else 0) ∧
          (d.occurrences (rewrite.removedFrom v.name) =
              d.occurrences v.dependencies - d.occurrences w.dependencies ↔
            d.occurrences w.dependencies = 0 ∨
              d.occurrences v.dependencies ≤ d.occurrences w.dependencies))
        m.variants after.variants := by
  obtain ⟨rewrite, happly, hchanges⟩ : ∃ rewrite,
      registry.apply m = .ok (rewrite, runAll (registry.rulesFor c) m) ∧
        rewrite.changes = changes m (runAll (registry.rulesFor c) m) :=
    ⟨_, apply_of_rulesFor hc rfl, rfl⟩
  refine ⟨rewrite, _, happly, ?_⟩
  have hframe := frame_runAll (registry.rulesFor c) m
  refine (Metadata.variant?_of_frame hframe hnames).imp fun v w hvw => ?_
  obtain ⟨hv, hname, hlookup⟩ := hvw
  refine ⟨hname, fun d => ?_⟩
  have hentry := occurrences_of_changes hchanges hnames hv hlookup d
  refine ⟨hentry, ?_⟩
  rw [hentry]
  split <;> omega

/-- A declaration that stood twice and is gone, beside one that stays where it is. -/
theorem occurrences_removedFrom_clear :
    ∃ m c, m = Metadata.listing [("api", ["junit", "asm", "junit"]), ("runtime", ["junit"])] ∧
      m.coordinate = .ok c ∧ (m.variants.map (·.name)).Nodup ∧
      ∃ rewrite after,
        apply ⟨[⟨.everywhere, .onVariant "api" (.ofEdit "clear" (List.take 0))⟩]⟩ m =
          .ok (rewrite, after) ∧
        (Declaration.ofName "junit" "junit").occurrences (rewrite.removedFrom "api") = 2 ∧
        (Declaration.ofName "junit" "junit").occurrences (rewrite.removedFrom "runtime") = 0 := by
  have hc := Metadata.coordinate_listing
    [("api", ["junit", "asm", "junit"]), ("runtime", ["junit"])]
  have hnames : ((Metadata.listing [("api", ["junit", "asm", "junit"]),
      ("runtime", ["junit"])]).variants.map (·.name)).Nodup :=
    show ["api", "runtime"].Nodup by decide
  obtain ⟨rewrite, after, happly, hreport⟩ := occurrences_removedFrom
    ⟨[⟨.everywhere, .onVariant "api" (.ofEdit "clear" (List.take 0))⟩]⟩ hc hnames
  refine ⟨_, _, rfl, hc, hnames, rewrite, after, happly, ?_⟩
  rw [apply_of_rulesFor hc rfl] at happly
  cases happly
  obtain ⟨⟨-, hapi⟩, hrest⟩ := List.forall₂_cons.mp hreport
  obtain ⟨⟨-, hruntime⟩, -⟩ := List.forall₂_cons.mp hrest
  exact ⟨(hapi _).1, (hruntime _).1⟩

/-- One of two equal declarations is cut off: the variant has less of it than before, but nothing is
reported. -/
theorem not_occurrences_removedFrom_cut :
    ∃ m c v w, m = Metadata.listing [("api", ["junit", "junit"])] ∧ m.coordinate = .ok c ∧
      m.variants = [v] ∧
      ∃ rewrite after,
        apply ⟨[.ofEdit .everywhere "truncate" (List.take 1)]⟩ m = .ok (rewrite, after) ∧
        after.variants = [w] ∧
        (Declaration.ofName "junit" "junit").occurrences (rewrite.removedFrom v.name) ≠
          (Declaration.ofName "junit" "junit").occurrences v.dependencies -
            (Declaration.ofName "junit" "junit").occurrences w.dependencies := by
  have hc := Metadata.coordinate_listing [("api", ["junit", "junit"])]
  exact ⟨_, _, _, _, rfl, hc, rfl, _, _,
    apply_of_rulesFor hc rfl, rfl, by decide +kernel⟩

end Registry

/-! ## The report on removals -/

namespace Metadata

/-- All declarations of metadata, variant by variant. -/
def declarations (m : Metadata) : List Declaration :=
  m.variants.flatMap (·.dependencies)

theorem declarations_without (names : List String) (m : Metadata) :
    (m.without names).declarations = m.declarations.filter fun d => !names.contains d.name := by
  rw [declarations, declarations, List.filter_flatMap, without, List.flatMap_map]
  rfl

/-- Equal metadata has variants of the same size. -/
theorem lengths_of_same {m after : Metadata} (h : after.same m = true) :
    List.Forall₂ (fun w v => w.dependencies.length = v.dependencies.length) after.variants
      m.variants := by
  refine (variants_of_same h).imp fun w v hwv => ?_
  simp only [Variant.same, Bool.and_eq_true] at hwv
  exact (Variant.sameDependencies_iff.mp hwv.1.2).length_eq

/-- Metadata without some names is modified unless none of them stands in it. -/
theorem without_same_iff {m : Metadata} {names : List String} :
    (m.without names).same m = true ↔ m.without names = m := by
  constructor
  · intro h
    exact without_eq_self (lengths_of_same h)
  · intro h
    rw [h]
    exact m.same_self

end Metadata

theorem Variant.length_without_lt {names : List String} {v : Variant} :
    (v.without names).dependencies.length < v.dependencies.length ↔
      (v.dependencies.filter fun d => names.contains d.name) ≠ [] := by
  have hlength := List.length_eq_length_filter_add (l := v.dependencies)
    fun d => names.contains d.name
  have hkept : (v.without names).dependencies =
      v.dependencies.filter fun d => !names.contains d.name := rfl
  rw [hkept, ← List.length_pos_iff]
  omega

namespace Registry

variable {m : Metadata}

/-- What a variant lost by removals are its declarations of the dropped names. -/
theorem lost_without (hnames : (m.variants.map (·.name)).Nodup) (names : List String)
    {v : Variant} (hv : v ∈ m.variants) :
    lost (m.without names) v = v.dependencies.filter fun d => names.contains d.name := by
  have hmem : v.without names ∈ (m.without names).variants := List.mem_map_of_mem hv
  have hnames' : ((m.without names).variants.map (·.name)).Nodup := by
    rw [Metadata.without, List.map_map]
    exact hnames
  have hlookup : (m.without names).variant? v.name = some (v.without names) :=
    Metadata.variant?_of_nodup hnames' hmem
  rw [lost_eq_filter hlookup]
  refine List.filter_congr fun d hd => ?_
  rw [Bool.eq_iff_iff, Bool.not_eq_true', List.any_eq_false]
  constructor
  · intro hgone
    by_contra hkept
    exact hgone d (List.mem_filter.mpr ⟨hd, by simpa using hkept⟩) d.same_self
  · intro hdropped e he hsame
    have hname := (Declaration.same_iff.mp hsame).2.1
    have hkept := (List.mem_filter.mp he).2
    rw [← hname, hdropped] at hkept
    exact Bool.false_ne_true hkept

theorem changes_without (hnames : (m.variants.map (·.name)).Nodup) (names : List String) :
    changes m (m.without names) =
      (m.variants.filter fun v =>
        (v.without names).dependencies.length < v.dependencies.length).map fun v =>
          ⟨v.name, v.dependencies.filter fun d => names.contains d.name⟩ := by
  have hlost : (m.variants.map fun v => (⟨v.name, lost (m.without names) v⟩ : VariantChange)) =
      m.variants.map fun v => ⟨v.name, v.dependencies.filter fun d => names.contains d.name⟩ := by
    refine List.map_congr_left fun v hv => ?_
    rw [lost_without hnames names hv]
  rw [changes, hlost, List.filter_map]
  congr 1
  refine List.filter_congr fun v _ => ?_
  rw [Bool.eq_iff_iff, decide_eq_true_iff, Variant.length_without_lt, Function.comp_apply,
    Bool.not_eq_true', List.isEmpty_eq_false_iff]

/-- All that is reported, variant by variant. -/
theorem removed_eq_flatMap (m after : Metadata) :
    (changes m after).flatMap (·.removed) = m.variants.flatMap (lost after) := by
  unfold changes
  induction m.variants with
  | nil => rfl
  | cons v vs ih =>
    rw [List.map_cons, List.flatMap_cons, List.filter_cons]
    cases hlost : lost after v with
    | nil => exact ih
    | cons d ds => exact congrArg (d :: ds ++ ·) ih

theorem length_removed_without (hnames : (m.variants.map (·.name)).Nodup) (names : List String) :
    ((changes m (m.without names)).flatMap (·.removed)).length +
      (m.without names).declarations.length = m.declarations.length := by
  have hremoved : (changes m (m.without names)).flatMap (·.removed) =
      m.declarations.filter fun d => names.contains d.name := by
    rw [removed_eq_flatMap, Metadata.declarations, List.filter_flatMap]
    exact List.flatMap_congr fun v hv => lost_without hnames names hv
  rw [hremoved, Metadata.declarations_without]
  exact (List.length_eq_length_filter_add _).symm

theorem changes_without_eq_nil (hnames : (m.variants.map (·.name)).Nodup)
    (names : List String) : changes m (m.without names) = [] ↔ m.without names = m := by
  rw [changes_without hnames, List.map_eq_nil_iff, List.filter_eq_nil_iff]
  constructor
  · intro h
    refine Metadata.without_eq_self ?_
    rw [Metadata.without, List.forall₂_map_left_iff, List.forall₂_same]
    intro v hv
    have hlt := h v hv
    rw [decide_eq_true_iff] at hlt
    have hle : (v.without names).dependencies.length ≤ v.dependencies.length :=
      List.length_filter_le _ _
    omega
  · intro h v hv
    have hself : v.without names = v := by
      have hmap : m.variants.map (Variant.without names) = m.variants.map id :=
        (congrArg Metadata.variants h).trans (List.map_id _).symm
      exact List.map_inj_left.mp hmap v hv
    simp [hself]

/-- **The report on removals.** It lists the variants that have fewer declarations than before, in
their order and each once, with all their declarations of the names that are dropped from the
component. It counts what the metadata has less than before, and it is empty just if the metadata is
not modified. -/
theorem apply_ofRemovals_report (removals : List (Scope × Removal))
    (hnames : (m.variants.map (·.name)).Nodup) {c : Coordinate} (hc : m.coordinate = .ok c) :
    ∃ rewrite after, (ofRemovals removals).apply m = .ok (rewrite, after) ∧
      after = m.without (targets removals c) ∧
      rewrite.changes =
        (m.variants.filter fun v =>
          (v.without (targets removals c)).dependencies.length < v.dependencies.length).map
            (fun v => ⟨v.name, v.dependencies.filter fun d =>
              (targets removals c).contains d.name⟩) ∧
      (rewrite.changes.map (·.variant)).Nodup ∧
      rewrite.removedCount + after.declarations.length = m.declarations.length ∧
      (rewrite.modified = true ↔ rewrite.changes ≠ []) := by
  have happly := apply_ofRemovals removals hc
  generalize targets removals c = names at happly ⊢
  have hchanges := changes_without hnames names
  refine ⟨_, _, happly, rfl, hchanges, ?_, length_removed_without hnames names, ?_⟩
  · rw [hchanges, List.map_map]
    exact hnames.sublist (List.filter_sublist.map Variant.name)
  · rw [ne_eq, changes_without_eq_nil hnames, ← Metadata.without_same_iff, Bool.not_eq_true',
      Bool.not_eq_true]

/-- A variant that depends twice on what is dropped and one that does not. -/
theorem apply_ofRemovals_report_listing :
    ∃ c m, m = Metadata.listing [("api", ["junit", "asm", "junit"]), ("runtime", ["asm"])] ∧
      (m.variants.map (·.name)).Nodup ∧ m.coordinate = .ok c ∧
      ∃ rewrite after,
        (ofRemovals [(.everywhere, ⟨⟨"junit", by decide⟩, none⟩), (.everywhere, .hamcrestCore),
          (.everywhere, ⟨⟨"junit", by decide⟩, none⟩)]).apply m = .ok (rewrite, after) ∧
        rewrite.changes =
          [⟨"api", [.ofName "junit" "junit", .ofName "junit" "junit"]⟩] ∧
        rewrite.removedCount + after.declarations.length = 4 ∧ rewrite.modified = true := by
  have hnames : ((Metadata.listing [("api", ["junit", "asm", "junit"]),
      ("runtime", ["asm"])]).variants.map (·.name)).Nodup :=
    show ["api", "runtime"].Nodup by decide
  have hc := Metadata.coordinate_listing
    [("api", ["junit", "asm", "junit"]), ("runtime", ["asm"])]
  obtain ⟨rewrite, after, happly, -, hchanges, -, hcount, hmodified⟩ := apply_ofRemovals_report
    [(.everywhere, ⟨⟨"junit", by decide⟩, none⟩), (.everywhere, .hamcrestCore),
      (.everywhere, ⟨⟨"junit", by decide⟩, none⟩)] hnames hc
  refine ⟨_, _, rfl, hnames, hc, rewrite, after, happly, hchanges.trans rfl, hcount,
    hmodified.mpr ?_⟩
  rw [hchanges]
  exact List.cons_ne_nil _ _

end Registry

end ComponentRules
