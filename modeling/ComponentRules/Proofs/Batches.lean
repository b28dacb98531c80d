import ComponentRules.Proofs.Reports

/-!
# A batch is its files one by one

Nothing goes over from one file of a batch to the next, so what becomes of a file is what would
become of it alone, and a batch that fails does so as its first failing file would alone. A file
fails if it cannot be read or cannot be decoded. There is no third reason: what was decoded has a
coordinate, so the rules can be applied to it, and all that they can make of it can be written down.

* `rewriteFile_eq_error`: how a file fails.
* `runBatch_each`: a batch and its files alone.
-/

namespace ComponentRules

open Outcome

namespace Registry

variable {registry : Registry} {read : String → Attempt String} {path : String}

/-! ## A single file -/

/-- A file fails if it cannot be read or cannot be decoded. -/
theorem rewriteFile_eq_error {problem : Problem} :
    registry.rewriteFile read path = .error problem ↔ read path = .error problem ∨
      ∃ content fault, read path = .ok content ∧ Metadata.decode content = .error fault ∧
        problem = Failure.notMetadata path fault.details := by
  unfold rewriteFile
  rw [bind_eq_error]
  refine or_congr_right (exists_congr fun content => ?_)
  rw [exists_and_left]
  refine and_congr_right fun _ => ?_
  cases hm : Metadata.decode content with
  | error fault =>
    simp [bind, Except.bind, Attempt.fail, eq_comm]
  | ok m =>
    -- decoded metadata can be rewritten
    obtain ⟨rewrite, after, happly⟩ := registry.exists_apply (Metadata.decoded_of_decode hm)
    simp [bind, Except.bind, happly, pure, Except.pure]

/-- A file can be rewritten if it can be read and decoded. -/
theorem exists_rewriteFile :
    (∃ file, registry.rewriteFile read path = .ok file) ↔
      ∃ content m, read path = .ok content ∧ Metadata.decode content = .ok m := by
  constructor
  · rintro ⟨file, hfile⟩
    obtain ⟨content, m, _, _, hcontent, hm, -, -⟩ := rewriteFile_eq_ok.mp hfile
    exact ⟨content, m, hcontent, hm⟩
  · rintro ⟨content, m, hcontent, hm⟩
    obtain ⟨rewrite, after, happly⟩ := registry.exists_apply (Metadata.decoded_of_decode hm)
    exact ⟨_, rewriteFile_eq_ok.mpr ⟨content, m, rewrite, after, hcontent, hm, happly, rfl⟩⟩

/-! ## A batch of one file -/

theorem alone_eq_ok {file : RewrittenFile} :
    (registry.runBatch read [path]).2 = .ok [file] ↔ registry.rewriteFile read path = .ok file := by
  rw [runBatch_eq_ok, List.forall₂_cons]
  simp

theorem alone_eq_error {problem : Problem} :
    (registry.runBatch read [path]).2 = .error problem ↔
      registry.rewriteFile read path = .error problem := by
  rw [result_runBatch registry read (List.cons_ne_nil path []), List.mapM_cons, bind_eq_error]
  simp [bind, Except.bind, pure, Except.pure]

/-! ## A whole batch -/

/-- **A batch is its files one by one.** It succeeds if there are files and each can be read and
decoded. It then has a result for each file, in order and for repeated files as well, which is the
result of a batch of this file alone. Otherwise it fails as a batch of the first failing file alone
would, and such a batch fails only because the file cannot be read or cannot be decoded: the rules
can be applied to whatever is decoded. -/
theorem runBatch_each (registry : Registry) (read : String → Attempt String)
    (paths : List String) :
    ((∃ files, (registry.runBatch read paths).2 = .ok files) ↔ paths ≠ [] ∧
      ∀ path ∈ paths, ∃ content m, read path = .ok content ∧ Metadata.decode content = .ok m) ∧
    (∀ files, (registry.runBatch read paths).2 = .ok files →
      List.Forall₂ (fun path file => file.path = path ∧
        (registry.runBatch read [path]).2 = .ok [file]) paths files) ∧
    (∀ problem, paths ≠ [] → ((registry.runBatch read paths).2 = .error problem ↔
      ∃ front path rest, paths = front ++ path :: rest ∧
        (∀ earlier ∈ front, ∃ file, (registry.runBatch read [earlier]).2 = .ok [file]) ∧
        (registry.runBatch read [path]).2 = .error problem)) ∧
    (∀ path problem, (registry.runBatch read [path]).2 = .error problem ↔
      read path = .error problem ∨
        ∃ content fault, read path = .ok content ∧ Metadata.decode content = .error fault ∧
          problem = Failure.notMetadata path fault.details) ∧
    (∀ content m, Metadata.decode content = .ok m →
      ∃ rewrite after, registry.apply m = .ok (rewrite, after)) := by
  simp only [alone_eq_ok, alone_eq_error]
  refine ⟨?_, fun files hfiles => ?_, fun problem hpaths => ?_, fun path problem => ?_,
    fun content m hm => registry.exists_apply (Metadata.decoded_of_decode hm)⟩
  · rw [exists_congr fun files => runBatch_eq_ok, exists_and_left]
    refine and_congr_right fun _ => ?_
    rw [exists_congr fun files => mapM_eq_ok.symm, exists_mapM_eq_ok]
    exact forall₂_congr fun path _ => exists_rewriteFile
  · refine (runBatch_eq_ok.mp hfiles).2.imp fun path file hfile => ?_
    exact ⟨path_of_rewriteFile hfile, hfile⟩
  · rw [result_runBatch registry read hpaths, mapM_eq_error]
  · exact rewriteFile_eq_error

end Registry

end ComponentRules
