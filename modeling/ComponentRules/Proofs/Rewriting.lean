import ComponentRules.Batch
import ComponentRules.Proofs.Metadata.Equality
import ComponentRules.Proofs.Removals

/-!
# Rewriting what was rewritten

A batch gives every file a text: the old one if the rules left the metadata as it was, else the text
of the new metadata. If all rules are removals, a second batch over these texts finds nothing left
to remove and gives every file the text it has.

* `rewriteFile_eq_ok`, `runBatch_eq_ok`: what it takes for a file and for a batch to be rewritten.
* `rewriteFile_rewritten`: one file, rewritten again.
* `runBatch_rewritten`: the second batch succeeds and changes nothing.
-/

namespace ComponentRules

open Json Outcome

/-! ## What it takes to rewrite -/

namespace Registry

theorem rewriteFile_eq_ok {registry : Registry} {read : String → Attempt String} {path : String}
    {file : RewrittenFile} :
    registry.rewriteFile read path = .ok file ↔
      ∃ content m rewrite after, read path = .ok content ∧ Metadata.decode content = .ok m ∧
        registry.apply m = .ok (rewrite, after) ∧
        file = ⟨path, rewrite, if rewrite.modified then after.encode else content⟩ := by
  unfold rewriteFile
  rw [bind_eq_ok]
  constructor
  · rintro ⟨content, hcontent, h⟩
    simp only at h
    split at h
    · cases h
    · rename_i rewrite after hunderstood
      obtain ⟨m, hm, happly⟩ := bind_eq_ok.mp hunderstood
      cases h
      exact ⟨content, m, rewrite, after, hcontent, hm, happly, rfl⟩
  · rintro ⟨content, m, rewrite, after, hcontent, hm, happly, rfl⟩
    refine ⟨content, hcontent, ?_⟩
    have hunderstood : (do registry.apply (← Metadata.decode content)) =
        (.ok (rewrite, after) : Attempt (Rewrite × Metadata)) :=
      bind_eq_ok.mpr ⟨m, hm, happly⟩
    simp only [hunderstood]
    rfl

theorem path_of_rewriteFile {registry : Registry} {read : String → Attempt String} {path : String}
    {file : RewrittenFile} (h : registry.rewriteFile read path = .ok file) : file.path = path := by
  obtain ⟨_, _, _, _, -, -, -, rfl⟩ := rewriteFile_eq_ok.mp h
  rfl

/-- What is said on the way and the numbers of the files make no difference to the result. -/
theorem result_rewriteFiles (registry : Registry) (read : String → Attempt String)
    (total current : Nat) (paths : List String) :
    (registry.rewriteFiles read total current paths).2 =
      paths.mapM (registry.rewriteFile read) := by
  induction paths generalizing current with
  | nil => rfl
  | cons path paths ih =>
    rw [rewriteFiles, List.mapM_cons]
    cases registry.rewriteFile read path with
    | error problem => rfl
    | ok file =>
      simp only [ih]
      cases paths.mapM (registry.rewriteFile read) <;> rfl

theorem result_runBatch (registry : Registry) (read : String → Attempt String)
    {paths : List String} (h : paths ≠ []) :
    (registry.runBatch read paths).2 = paths.mapM (registry.rewriteFile read) := by
  have hresult : (registry.runBatch read paths).2 =
      (registry.rewriteFiles read paths.length 1 paths).2 := by
    simp only [runBatch, List.isEmpty_eq_false_iff.mpr h, Bool.false_eq_true, if_false]
    split <;> simp_all
  rw [hresult, result_rewriteFiles]

/-- A batch succeeds if there are files and each can be rewritten. -/
theorem runBatch_eq_ok {registry : Registry} {read : String → Attempt String}
    {paths : List String} {files : List RewrittenFile} :
    (registry.runBatch read paths).2 = .ok files ↔
      paths ≠ [] ∧
        List.Forall₂ (fun path file => registry.rewriteFile read path = .ok file) paths files := by
  by_cases h : paths = []
  · subst h
    simp [runBatch, Attempt.fail]
  · rw [result_runBatch registry read h, mapM_eq_ok]
    exact (and_iff_right h).symm

end Registry

/-! ## Rewriting again -/

/-- Metadata without some declarations has no others. -/
theorem Metadata.follows_without (names : List String) (m : Metadata) :
    m.Follows (m.without names) := by
  refine ⟨_, rfl, fun v' hv' => ?_⟩
  obtain ⟨v, hv, rfl⟩ := List.mem_map.mp hv'
  exact ⟨v, hv, _, rfl, fun d hd => .inl (List.mem_of_mem_filter hd)⟩

namespace Registry

variable {removals : List (Scope × Removal)} {read again : String → Attempt String}

/-- **A file that was rewritten is not modified again.** -/
theorem rewriteFile_rewritten {path : String} {file : RewrittenFile}
    (h : (ofRemovals removals).rewriteFile read path = .ok file)
    (hstable : ∀ text m, read path = .ok text → Metadata.decode text = .ok m → m.toValue.Stable)
    (hagain : again path = .ok file.content) :
    ∃ next, (ofRemovals removals).rewriteFile again path = .ok next ∧ next.path = file.path ∧
      next.content = file.content ∧ next.rewrite.modified = false := by
  obtain ⟨content, m, rewrite, after, hcontent, hm, happly, rfl⟩ := rewriteFile_eq_ok.mp h
  have hdecoded := Metadata.decoded_of_decode hm
  obtain ⟨c, hc⟩ := hdecoded.coordinate
  rw [apply_ofRemovals removals hc] at happly
  cases happly
  have hfollows := m.follows_without (targets removals c)
  have hafter := hdecoded.of_follows hfollows
  by_cases hsame : (m.without (targets removals c)).same m = true
  · -- nothing was modified, so the text is the old one
    simp only [hsame, Bool.not_true, Bool.false_eq_true, if_false] at hagain ⊢
    exact ⟨_, rewriteFile_eq_ok.mpr
      ⟨content, m, _, _, hagain, hm, apply_ofRemovals removals hc, rfl⟩, rfl, by simp [hsame],
      by simp [hsame]⟩
  · -- the new text holds the metadata without its targets: there is nothing left to drop
    have hdecode := Metadata.decode_encode hafter
      (Metadata.stable_of_follows (hstable content m hcontent hm) hfollows)
    have hself : ((m.without (targets removals c)).without (targets removals c)).same
        (m.without (targets removals c)) = true := by
      rw [Metadata.without_self]
      exact Metadata.same_self _
    simp only [hsame, Bool.not_false, if_true] at hagain ⊢
    exact ⟨_, rewriteFile_eq_ok.mpr ⟨_, _, _, _, hagain, hdecode,
      apply_ofRemovals removals ((m.coordinate_without _).trans hc), rfl⟩, rfl, by simp [hself],
      by simp [hself]⟩

/-- Files that were rewritten, one by one. -/
theorem rewriteFiles_rewritten {paths : List String} {files : List RewrittenFile}
    (h : List.Forall₂ (fun path file => (ofRemovals removals).rewriteFile read path = .ok file)
      paths files)
    (hstable : ∀ path ∈ paths, ∀ text m, read path = .ok text → Metadata.decode text = .ok m →
      m.toValue.Stable)
    (hagain : ∀ file ∈ files, again file.path = .ok file.content) :
    ∃ same, List.Forall₂
        (fun path file => (ofRemovals removals).rewriteFile again path = .ok file) paths same ∧
      same.map (·.path) = files.map (·.path) ∧ same.map (·.content) = files.map (·.content) ∧
      Batch.modified same = [] := by
  induction h with
  | nil => exact ⟨[], .nil, rfl, rfl, rfl⟩
  | @cons path file paths files hfile _ ih =>
    rw [List.forall_mem_cons] at hstable hagain
    have hpath : file.path = path := by
      obtain ⟨_, _, _, _, -, -, -, rfl⟩ := rewriteFile_eq_ok.mp hfile
      rfl
    obtain ⟨next, hnext, hsame, hcontent, hmodified⟩ :=
      rewriteFile_rewritten hfile hstable.1 (hpath ▸ hagain.1)
    obtain ⟨rest, hrest, hpaths, hcontents, hnone⟩ := ih hstable.2 hagain.2
    refine ⟨next :: rest, .cons hnext hrest, ?_, ?_, ?_⟩
    · rw [List.map_cons, List.map_cons, hsame, hpaths]
    · rw [List.map_cons, List.map_cons, hcontent, hcontents]
    · rw [Batch.modified, List.filter_cons_of_neg (by simp [hmodified])]
      exact hnone

/-- **Rewriting rewritten files changes nothing.** If a batch of removals succeeds and the numbers
of its files are stable, then a second batch over the texts it gave succeeds, modifies no file and
gives every file the text it has. -/
theorem runBatch_rewritten {paths : List String} {events : List Event}
    {files : List RewrittenFile}
    (h : (ofRemovals removals).runBatch read paths = (events, .ok files))
    (hstable : ∀ path ∈ paths, ∀ text m, read path = .ok text → Metadata.decode text = .ok m →
      m.toValue.Stable)
    (hagain : ∀ file ∈ files, again file.path = .ok file.content) :
    ∃ said same, (ofRemovals removals).runBatch again paths = (said, .ok same) ∧
      same.map (·.path) = files.map (·.path) ∧ same.map (·.content) = files.map (·.content) ∧
      Batch.modified same = [] := by
  have hresult : ((ofRemovals removals).runBatch read paths).2 = .ok files := by rw [h]
  obtain ⟨hpaths, hfiles⟩ := runBatch_eq_ok.mp hresult
  obtain ⟨same, hsame, hrest⟩ := rewriteFiles_rewritten hfiles hstable hagain
  exact ⟨_, same, Prod.ext rfl (runBatch_eq_ok.mpr ⟨hpaths, hsame⟩), hrest⟩

/-- A file that loses a declaration in the first batch and nothing in the second. -/
theorem runBatch_rewritten_junit :
    ∃ events files said same,
      (ofRemovals [(.everywhere, .hamcrestCore)]).runBatch (fun _ => .ok Metadata.junit.encode)
        ["junit.module"] = (events, .ok files) ∧ (Batch.modified files).length = 1 ∧
      (ofRemovals [(.everywhere, .hamcrestCore)]).runBatch
        (fun _ => .ok (Metadata.junit.without ["hamcrest-core"]).encode) ["junit.module"] =
          (said, .ok same) ∧
      same.map (·.path) = files.map (·.path) ∧ same.map (·.content) = files.map (·.content) ∧
      Batch.modified same = [] := by
  have hread : Metadata.decode Metadata.junit.encode = .ok Metadata.junit :=
    Metadata.decode_encode Metadata.decoded_junit Metadata.stable_junit
  obtain ⟨c, hc⟩ := Metadata.decoded_junit.coordinate
  have htargets : targets [(.everywhere, .hamcrestCore)] c = ["hamcrest-core"] := rfl
  have happly := apply_ofRemovals [(.everywhere, .hamcrestCore)] hc
  rw [htargets] at happly
  have hmodified : (Metadata.junit.without ["hamcrest-core"]).same Metadata.junit = false := by
    decide +kernel
  rw [hmodified] at happly
  generalize Metadata.junit.encode = before at hread ⊢
  generalize hafter : (Metadata.junit.without ["hamcrest-core"]).encode = after
  obtain ⟨file, hfile, hcontent, hfirst⟩ :
      ∃ file, (ofRemovals [(.everywhere, .hamcrestCore)]).rewriteFile (fun _ => .ok before)
        "junit.module" = .ok file ∧ file.content = after ∧ file.rewrite.modified = true :=
    ⟨_, rewriteFile_eq_ok.mpr ⟨_, _, _, _, rfl, hread, happly, rfl⟩, hafter, rfl⟩
  have hbatch : ((ofRemovals [(.everywhere, .hamcrestCore)]).runBatch (fun _ => .ok before)
      ["junit.module"]).2 = .ok [file] :=
    runBatch_eq_ok.mpr ⟨List.cons_ne_nil _ _, .cons hfile .nil⟩
  have hstable : ∀ path ∈ ["junit.module"], ∀ text m,
      (fun _ : String => (.ok before : Attempt String)) path = .ok text →
        Metadata.decode text = .ok m → m.toValue.Stable := by
    intro path _ text m htext hm
    cases htext
    cases hread.symm.trans hm
    exact Metadata.stable_junit
  have hagain : ∀ f ∈ [file],
      (fun _ : String => (.ok after : Attempt String)) f.path = .ok f.content := by
    intro f hf
    rw [List.mem_singleton.mp hf, hcontent]
  obtain ⟨said, same, hsecond⟩ :=
    @runBatch_rewritten _ _ (fun _ => .ok after) _ _ _ (Prod.ext rfl hbatch) hstable hagain
  exact ⟨_, [file], said, same, Prod.ext rfl hbatch, by simp [Batch.modified, hfirst], hsecond⟩

end Registry

end ComponentRules
