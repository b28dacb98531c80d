import ComponentRules.Proofs.Composition
import ComponentRules.Proofs.Json.Equality
import ComponentRules.Proofs.Rewriting

/-!
# The report on metadata that did not change

What a variant lost is found by looking its name up again: its declarations are compared with those
of the first variant that has the name. If every name stands once, this is the variant itself, and
nothing is reported lost from metadata that did not change. If a name stands twice, declarations of
the second variant may be missing in the first; these are reported as lost, whatever the rules did.

* `Metadata.FoundIn`: whether all declarations are found when they are looked up in this way.
  Metadata is *unshadowed* if they are found in itself.
* `Registry.changes_eq_nil`: nothing is reported lost if all declarations are found afterwards.
* `Metadata.foundIn_of_same`: metadata that did not change decides this by itself.
* `Registry.reports_of_unmodified`: the report on a document, and the sum over a batch.
-/

namespace ComponentRules

open Json Outcome

/-! ## Equality of declarations -/

namespace Declaration

theorem same_trans {a b c : Declaration} (hab : a.same b = true) (hbc : b.same c = true) :
    a.same c = true := by
  obtain ⟨hgroup, hname, hversion, hextra⟩ := same_iff.mp hab
  obtain ⟨hgroup', hname', hversion', hextra'⟩ := same_iff.mp hbc
  exact same_iff.mpr ⟨hgroup.trans hgroup', hname.trans hname', hversion.trans hversion',
    Object.same_trans hextra hextra'⟩

theorem same_symm {a b : Declaration} (h : a.same b = true) : b.same a = true := by
  obtain ⟨hgroup, hname, hversion, hextra⟩ := same_iff.mp h
  exact same_iff.mpr ⟨hgroup.symm, hname.symm, hversion.symm, Object.same_symm hextra⟩

end Declaration

/-! ## Looking declarations up again -/

namespace Metadata

/-- Whether every declaration of a variant has its equal in the first variant of this name in other
metadata. -/
def FoundIn (m after : Metadata) : Prop :=
  ∀ v ∈ m.variants, ∀ d ∈ v.dependencies,
    ∃ w, after.variant? v.name = some w ∧ ∃ e ∈ w.dependencies, d.same e = true

/-- Whether no variant hides declarations of a later one of the same name. -/
def Unshadowed (m : Metadata) : Prop :=
  m.FoundIn m

theorem variant?_of_nodup {m : Metadata} (h : (m.variants.map (·.name)).Nodup) {v : Variant}
    (hv : v ∈ m.variants) : m.variant? v.name = some v := by
  rw [variant?, List.find?_eq_some_iff_append]
  obtain ⟨before, rest, hvariants⟩ := List.append_of_mem hv
  refine ⟨beq_self_eq_true _, before, rest, hvariants, fun w hw => ?_⟩
  rw [hvariants, List.map_append, List.map_cons] at h
  have hne : w.name ≠ v.name :=
    (List.nodup_append.mp h).2.2 _ (List.mem_map_of_mem hw) _ List.mem_cons_self
  simpa using hne

/-- Metadata in which no name stands twice is unshadowed. -/
theorem unshadowed_of_nodup {m : Metadata} (h : (m.variants.map (·.name)).Nodup) :
    m.Unshadowed := by
  intro v hv d hd
  exact ⟨v, variant?_of_nodup h hv, d, hd, d.same_self⟩

/-- Equal metadata has equal declarations under a name. -/
theorem variant?_of_same {after m : Metadata} (h : after.same m = true) (name : String) :
    Option.Rel (fun w v => List.Forall₂ (fun e d => e.same d = true) w.dependencies v.dependencies)
      (after.variant? name) (m.variant? name) := by
  have hvariants := variants_of_same h
  unfold variant?
  generalize after.variants = ws at hvariants ⊢
  generalize m.variants = vs at hvariants ⊢
  induction hvariants with
  | nil => exact .none
  | @cons w v ws vs hwv _ ih =>
    simp only [Variant.same, Bool.and_eq_true, beq_iff_eq] at hwv
    obtain ⟨⟨⟨hname, -⟩, hdependencies⟩, -⟩ := hwv
    by_cases hv : v.name = name
    · rw [List.find?_cons_of_pos (by simp [hname, hv]), List.find?_cons_of_pos (by simp [hv])]
      exact .some (Variant.sameDependencies_iff.mp hdependencies)
    · rw [List.find?_cons_of_neg (by simp [hname, hv]), List.find?_cons_of_neg (by simp [hv])]
      exact ih

/-- Whether declarations are found in metadata can be seen from metadata that equals it. -/
theorem foundIn_of_same {m after other : Metadata} (h : after.same other = true) :
    m.FoundIn after ↔ m.FoundIn other := by
  have hlookup := variant?_of_same h
  constructor
  · intro hfound v hv d hd
    obtain ⟨w, hw, e, he, hde⟩ := hfound v hv d hd
    have hrel := hlookup v.name
    rw [hw] at hrel
    cases hu : other.variant? v.name with
    | none => rw [hu] at hrel; cases hrel
    | some u =>
      rw [hu, Option.rel_some_some] at hrel
      obtain ⟨e', he', hee'⟩ := exists_right_of_mem hrel he
      exact ⟨u, rfl, e', he', Declaration.same_trans hde hee'⟩
  · intro hfound v hv d hd
    obtain ⟨u, hu, e', he', hde'⟩ := hfound v hv d hd
    have hrel := hlookup v.name
    rw [hu] at hrel
    cases hw : after.variant? v.name with
    | none => rw [hw] at hrel; cases hrel
    | some w =>
      rw [hw, Option.rel_some_some] at hrel
      obtain ⟨e, he, hee'⟩ := exists_left_of_mem hrel he'
      -- the equality found goes from the new declaration to the old one: it has to be turned round
      exact ⟨w, rfl, e, he, Declaration.same_trans hde' (Declaration.same_symm hee')⟩

end Metadata

namespace Registry

/-! ## The report -/

theorem lost_eq_nil {after : Metadata} {v : Variant} :
    lost after v = [] ↔ ∀ d ∈ v.dependencies,
      ∃ w, after.variant? v.name = some w ∧ ∃ e ∈ w.dependencies, d.same e = true := by
  unfold lost
  rw [List.filter_eq_nil_iff]
  refine forall₂_congr fun d _ => ?_
  cases after.variant? v.name <;> simp

/-- **Nothing is reported lost** if every declaration is found in the first variant of the name. -/
theorem changes_eq_nil {m after : Metadata} : changes m after = [] ↔ m.FoundIn after := by
  unfold changes
  rw [List.filter_eq_nil_iff, List.forall_mem_map]
  refine forall₂_congr fun v _ => ?_
  rw [← lost_eq_nil]
  simp

/-- Every entry of a report counts. -/
theorem length_removed_eq_zero {m after : Metadata} :
    ((changes m after).flatMap (·.removed)).length = 0 ↔ changes m after = [] := by
  rw [List.length_eq_zero_iff, List.flatMap_eq_nil_iff, List.eq_nil_iff_forall_not_mem]
  refine forall_congr' fun change => ⟨fun h hchange => ?_, fun h hchange => absurd hchange h⟩
  have hnonempty := (List.mem_filter.mp hchange).2
  rw [h hchange] at hnonempty
  exact absurd hnonempty (by decide)

/-- Whatever was done to metadata: if it is equal to what it was, the report is empty just if no
variant hides declarations of another one. -/
theorem changes_eq_nil_of_same {m after : Metadata} (h : after.same m = true) :
    changes m after = [] ↔ m.Unshadowed :=
  changes_eq_nil.trans (Metadata.foundIn_of_same h)

theorem exists_apply (registry : Registry) {m : Metadata} (hm : m.Decoded) :
    ∃ rewrite after, registry.apply m = .ok (rewrite, after) := by
  obtain ⟨c, hc⟩ := hm.coordinate
  exact ⟨_, _, (@apply_eq_ok registry m _ _).mpr ⟨c, hc, rfl, rfl⟩⟩

/-- **The report on a document that did not change** is empty just if it is unshadowed. -/
theorem removedCount_of_unmodified {registry : Registry} {m : Metadata} {rewrite : Rewrite}
    {after : Metadata} (happly : registry.apply m = .ok (rewrite, after))
    (h : rewrite.modified = false) :
    (rewrite.changes = [] ↔ m.Unshadowed) ∧ (rewrite.removedCount = 0 ↔ m.Unshadowed) := by
  obtain ⟨c, -, rfl, rfl⟩ := apply_eq_ok.mp happly
  have hsame : (runAll (registry.rulesFor c) m).same m = true := by simpa using h
  have hchanges := changes_eq_nil_of_same hsame
  exact ⟨hchanges, length_removed_eq_zero.trans hchanges⟩

end Registry

/-! ## The sum over a batch -/

namespace Batch

theorem totalRemoved_cons (file : RewrittenFile) (files : List RewrittenFile) :
    totalRemoved (file :: files) = file.rewrite.removedCount + totalRemoved files := by
  rw [totalRemoved, List.flatMap_cons, List.length_append]
  rfl

theorem modified_cons (file : RewrittenFile) (files : List RewrittenFile) :
    modified (file :: files) =
      if file.rewrite.modified then file :: modified files else modified files :=
  List.filter_cons

theorem totalRemoved_modified_le (files : List RewrittenFile) :
    totalRemoved (modified files) ≤ totalRemoved files := by
  induction files with
  | nil => exact Nat.le_refl _
  | cons file files ih =>
    rw [modified_cons, totalRemoved_cons]
    split
    · rw [totalRemoved_cons]
      omega
    · omega

/-- Only modified files are counted just if nothing is counted in the others. -/
theorem totalRemoved_eq_iff {files : List RewrittenFile} :
    totalRemoved files = totalRemoved (modified files) ↔
      ∀ file ∈ files, file.rewrite.modified = false → file.rewrite.removedCount = 0 := by
  induction files with
  | nil => simp [modified]
  | cons file files ih =>
    have hle := totalRemoved_modified_le files
    rw [List.forall_mem_cons, ← ih, modified_cons, totalRemoved_cons]
    cases file.rewrite.modified with
    | false =>
      simp only [Bool.false_eq_true, if_false, true_imp_iff]
      omega
    | true =>
      simp only [if_true, totalRemoved_cons, Bool.true_eq_false, false_imp_iff, true_and]
      omega

end Batch

namespace Registry

/-- **What is reported of documents that did not change.** The report on such a document is empty
just if no variant of it hides declarations of a later one of the same name; so it is if no name
stands twice, and so it is whatever was done to the document. A batch counts declarations of
modified documents only just if this holds of all others. -/
theorem reports_of_unmodified (registry : Registry) :
    (∀ text m, Metadata.decode text = .ok m → ∃ rewrite after,
      registry.apply m = .ok (rewrite, after) ∧
        (rewrite.modified = false →
          (rewrite.changes = [] ↔ m.Unshadowed) ∧ (rewrite.removedCount = 0 ↔ m.Unshadowed))) ∧
    (∀ m after : Metadata, after.same m = true → (changes m after = [] ↔ m.Unshadowed)) ∧
    (∀ m : Metadata, (m.variants.map (·.name)).Nodup → m.Unshadowed) ∧
    (∀ read paths files, (registry.runBatch read paths).2 = .ok files →
      (Batch.totalRemoved files = Batch.totalRemoved (Batch.modified files) ↔
        ∀ file ∈ files, file.rewrite.modified = false → ∀ text m, read file.path = .ok text →
          Metadata.decode text = .ok m → m.Unshadowed)) := by
  refine ⟨fun text m hdecode => ?_, fun m after h => changes_eq_nil_of_same h,
    fun m hnodup => Metadata.unshadowed_of_nodup hnodup, fun read paths files hbatch => ?_⟩
  · have hm := Metadata.decoded_of_decode hdecode
    obtain ⟨rewrite, after, happly⟩ := registry.exists_apply hm
    exact ⟨rewrite, after, happly, fun h => removedCount_of_unmodified happly h⟩
  · rw [Batch.totalRemoved_eq_iff]
    refine forall₂_congr fun file hfile => forall_congr' fun hmodified => ?_
    obtain ⟨path, -, hpath⟩ := exists_left_of_mem (runBatch_eq_ok.mp hbatch).2 hfile
    obtain ⟨content, m, rewrite, after, hcontent, hdecode, happly, rfl⟩ :=
      rewriteFile_eq_ok.mp hpath
    rw [(removedCount_of_unmodified happly hmodified).2]
    constructor
    · intro h text m' htext hdecode'
      cases hcontent.symm.trans htext
      cases hdecode.symm.trans hdecode'
      exact h
    · intro h
      exact h content m hcontent hdecode

end Registry

/-! ## Two variants of one name -/

namespace Metadata

/-- Metadata with two variants of one name, given by the names that they depend on. -/
def twins (first second : List String) : Metadata :=
  ⟨currentFormat, ⟨"foo", "bar", "1.0", .empty⟩, none,
    [⟨"api", .empty, first.map (.ofName "junit"), .empty⟩,
      ⟨"api", .empty, second.map (.ofName "junit"), .empty⟩], .empty⟩

theorem mem_twins {first second : List String} {v : Variant}
    (h : v ∈ (twins first second).variants) :
    ∃ names : List String, v = ⟨"api", .empty, names.map (.ofName "junit"), .empty⟩ := by
  rcases List.mem_cons.mp h with rfl | h
  · exact ⟨first, rfl⟩
  · exact ⟨second, List.mem_singleton.mp h⟩

theorem decoded_twins (first second : List String) : (twins first second).Decoded where
  sound := {
    component := ⟨Object.loose_empty _ _⟩
    createdBy := nofun
    variants := by
      intro v hv
      obtain ⟨names, rfl⟩ := mem_twins hv
      refine ⟨Object.fits_empty _, fun d hd => ?_, Object.loose_empty _ _⟩
      obtain ⟨name, -, rfl⟩ := List.mem_map.mp hd
      exact Declaration.sound_ofName _ _ _
    extra := Object.loose_empty _ _ }
  format := show majorVersion currentFormat = supportedMajor by decide
  coordinate := exists_of_isOk
    (show (Coordinate.ofTexts "foo" "bar" "1.0").isOk = true by decide +kernel)
  named := by
    intro v hv
    obtain ⟨names, rfl⟩ := mem_twins hv
    exact show Text.isBlankText "api" = false by decide

theorem stable_twins (first second : List String) : (twins first second).toValue.Stable := by
  refine stable_toValue.mpr ⟨Component.stable_toValue.mpr trivial, nofun, fun v hv => ?_, trivial⟩
  obtain ⟨names, rfl⟩ := mem_twins hv
  refine Variant.stable_toValue.mpr ⟨trivial, fun d hd => ?_, trivial⟩
  obtain ⟨name, -, rfl⟩ := List.mem_map.mp hd
  exact Declaration.stable_toValue.mpr trivial

theorem decode_encode_twins (first second : List String) :
    decode (twins first second).encode = .ok (twins first second) :=
  decode_encode (decoded_twins first second) (stable_twins first second)

theorem without_twins {first second : List String} {name : String}
    (h : name ∉ first ++ second) : (twins first second).without [name] = twins first second := by
  have hnames : ∀ names : List String, name ∉ names →
      (names.map (Declaration.ofName "junit")).filter (fun d => !([name].contains d.name)) =
        names.map (Declaration.ofName "junit") := by
    intro names hname
    refine List.filter_eq_self.mpr fun d hd => ?_
    obtain ⟨other, hother, rfl⟩ := List.mem_map.mp hd
    have hne : other ≠ name := fun he => hname (he ▸ hother)
    simpa [Declaration.ofName] using hne
  rw [List.mem_append, not_or] at h
  simp only [without, twins, List.map_cons, List.map_nil, Variant.without, hnames _ h.1,
    hnames _ h.2]

end Metadata

namespace Registry

/-- The registry of one removal from all components. -/
def everywhere (removal : Removal) : Registry :=
  ofRemovals [(.everywhere, removal)]

theorem apply_twins (first second : List String) (removal : Removal)
    (h : removal.target.text ∉ first ++ second) :
    ∃ rewrite, (everywhere removal).apply (Metadata.twins first second) =
        .ok (rewrite, Metadata.twins first second) ∧ rewrite.modified = false ∧
      rewrite.changes = changes (Metadata.twins first second) (Metadata.twins first second) := by
  have hdecoded := Metadata.decoded_twins first second
  obtain ⟨c, hc⟩ := hdecoded.coordinate
  have htargets : targets [(.everywhere, removal)] c = [removal.target.text] := rfl
  have happly := apply_ofRemovals [(.everywhere, removal)] hc
  rw [htargets, Metadata.without_twins h, Metadata.same_self] at happly
  exact ⟨_, happly, rfl, rfl⟩

/-- Twins that depend on the same. -/
theorem reports_of_unmodified_twins :
    ∃ rewrite after,
      (everywhere .hamcrestCore).apply (Metadata.twins ["junit"] ["junit"]) =
        .ok (rewrite, after) ∧
      rewrite.modified = false ∧ rewrite.changes = [] ∧ rewrite.removedCount = 0 := by
  obtain ⟨hdocument, -⟩ := reports_of_unmodified (everywhere .hamcrestCore)
  obtain ⟨rewrite, after, happly, hreport⟩ :=
    hdocument _ _ (Metadata.decode_encode_twins ["junit"] ["junit"])
  obtain ⟨_, happly', hmodified, -⟩ :=
    apply_twins ["junit"] ["junit"] .hamcrestCore (by decide)
  cases happly.symm.trans happly'
  have hunshadowed : (Metadata.twins ["junit"] ["junit"]).Unshadowed := by
    rw [Metadata.Unshadowed, ← changes_eq_nil]
    decide +kernel
  obtain ⟨hchanges, hcount⟩ := hreport hmodified
  exact ⟨rewrite, _, happly, hmodified, hchanges.mpr hunshadowed,
    hcount.mpr hunshadowed⟩

/-- Twins of which only the second depends on something: it is reported as lost, in the document and
in the sum over a batch, though nothing was modified. -/
theorem not_reports_nothing_twins :
    ∃ m rewrite after, Metadata.decode (Metadata.twins [] ["junit"]).encode = .ok m ∧
      (everywhere .hamcrestCore).apply m = .ok (rewrite, after) ∧ rewrite.modified = false ∧
      rewrite.changes ≠ [] ∧ rewrite.removedCount = 1 ∧
      ∃ events files, (everywhere .hamcrestCore).runBatch
          (fun _ => .ok (Metadata.twins [] ["junit"]).encode) ["bar.module"] =
            (events, .ok files) ∧
        Batch.totalRemoved files = 1 ∧ Batch.totalRemoved (Batch.modified files) = 0 := by
  have hdecode := Metadata.decode_encode_twins [] ["junit"]
  obtain ⟨rewrite, happly, hmodified, hchanges⟩ :=
    apply_twins [] ["junit"] .hamcrestCore (by decide)
  have hcount : rewrite.removedCount = 1 := by
    rw [Rewrite.removedCount, Rewrite.removed, hchanges]
    decide +kernel
  have hreported : rewrite.changes ≠ [] := by
    intro hnil
    rw [Rewrite.removedCount, Rewrite.removed, hnil] at hcount
    exact absurd hcount (by decide)
  have hfile : (everywhere .hamcrestCore).rewriteFile
      (fun _ => .ok (Metadata.twins [] ["junit"]).encode) "bar.module" = .ok _ :=
    rewriteFile_eq_ok.mpr ⟨_, _, _, _, rfl, hdecode, happly, rfl⟩
  have hbatch := runBatch_eq_ok.mpr ⟨List.cons_ne_nil _ _, .cons hfile .nil⟩
  refine ⟨_, rewrite, _, hdecode, happly, hmodified, hreported, hcount, _, _, Prod.ext rfl hbatch,
    ?_, ?_⟩
  · rw [Batch.totalRemoved_cons]
    exact hcount
  · rw [Batch.modified_cons, if_neg (by simp [hmodified])]
    rfl

end Registry

end ComponentRules
