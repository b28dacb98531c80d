import ComponentRules.Proofs.Batches

/-!
# What a batch says

A batch announces each file before it reads it, so its progress ends with the first file that fails.
What it says at the beginning does not depend on the files, and the summary at the end is left out
if a file fails.

* `Batch.progress`: the announcements of files, numbered.
* `Registry.rewriteFiles_of_ok`, `Registry.rewriteFiles_of_error`: what is said of files from a
  number on.
* `Batch.conclusion_eq_iff`, `Batch.conclusion_of_modified`: the last line.
* `Registry.runBatch_trace`: all that is said, in order.
-/

namespace ComponentRules

open Outcome

namespace Batch

/-- What a file is called when it is announced. -/
def nameOf (path : String) : String :=
  (Path.fileName? path).getD path

/-- The announcements of files, numbered from a given number on. -/
def progress (total first : Nat) (paths : List String) : List Event :=
  paths.mapIdx fun i path => .progress (first + i) total (nameOf path)

theorem progress_cons (total first : Nat) (path : String) (paths : List String) :
    progress total first (path :: paths) =
      .progress first total (nameOf path) :: progress total (first + 1) paths := by
  have hshift : (fun i path => Event.progress (first + (i + 1)) total (nameOf path)) =
      fun i path => .progress (first + 1 + i) total (nameOf path) := by
    funext i path
    rw [Nat.add_assoc, Nat.add_comm 1 i]
  rw [progress, List.mapIdx_cons, hshift]
  rfl

/-- The number of modified files out of all. -/
def share (files : List RewrittenFile) : String :=
  Text.decimal (files.countP (·.rewrite.modified)) ++ " of " ++ Text.decimal files.length ++
    " file(s)"

theorem modified_eq_nil_iff {files : List RewrittenFile} :
    modified files = [] ↔ ∀ file ∈ files, file.rewrite.modified = false := by
  simp [modified, List.filter_eq_nil_iff]

/-- **The last line gives the number of modified files**, if there are any. -/
theorem conclusion_of_modified {files : List RewrittenFile}
    (h : ∃ file ∈ files, file.rewrite.modified = true) :
    conclusion files = "✅ Rewrote " ++ share files ∨
      conclusion files = "✅ Removed " ++ Text.decimal (totalRemoved files) ++
        " dependency declaration(s) from " ++ share files := by
  obtain ⟨file, hfile, hmodified⟩ := h
  have hcount : files.countP (·.rewrite.modified) = (modified files).length :=
    List.countP_eq_length_filter
  have hsome : (modified files).length ≠ 0 := by
    have hmem : file ∈ modified files := List.mem_filter.mpr ⟨hfile, hmodified⟩
    exact Nat.ne_of_gt (List.length_pos_of_mem hmem)
  rw [share, hcount]
  unfold conclusion
  by_cases hremoved : totalRemoved files = 0
  · exact .inl (by simp only [hsome, hremoved, if_true, if_false])
  · exact .inr (by simp only [hsome, hremoved, if_false])

/-- **The last line says that nothing was needed if and only if no file is modified.** -/
theorem conclusion_eq_iff {files : List RewrittenFile} :
    conclusion files = "✅ No metadata needed rewriting" ↔
      ∀ file ∈ files, file.rewrite.modified = false := by
  constructor
  · intro hline file hfile
    by_contra hmodified
    rcases conclusion_of_modified ⟨file, hfile, eq_true_of_ne_false hmodified⟩ with hsome | hsome
    · have hlists := congrArg String.toList (hline.symm.trans hsome)
      simp [String.toList_append] at hlists
    · have hlists := congrArg String.toList (hline.symm.trans hsome)
      simp [String.toList_append] at hlists
  · intro hnone
    have hlength : (modified files).length = 0 := by rw [modified_eq_nil_iff.mpr hnone]; rfl
    simp only [conclusion, hlength, if_true]

end Batch

namespace Registry

variable {registry : Registry} {read : String → Attempt String} {total first : Nat}

/-! ## Files from a number on -/

/-- All files are announced if none fails. -/
theorem rewriteFiles_of_ok {paths : List String} {files : List RewrittenFile}
    (h : List.Forall₂ (fun path file => registry.rewriteFile read path = .ok file) paths files) :
    registry.rewriteFiles read total first paths =
      (Batch.progress total first paths, .ok files) := by
  induction h generalizing first with
  | nil => rfl
  | cons hfile _ ih =>
    rw [rewriteFiles, hfile, Batch.progress_cons]
    simp only [ih]
    rfl

/-- The first file that fails is the last that is announced. -/
theorem rewriteFiles_of_error {front rest : List String} {path : String} {problem : Problem}
    (hfront : ∀ earlier ∈ front, ∃ file, registry.rewriteFile read earlier = .ok file)
    (hpath : registry.rewriteFile read path = .error problem) :
    registry.rewriteFiles read total first (front ++ path :: rest) =
      (Batch.progress total first (front ++ [path]), .error problem) := by
  induction front generalizing first with
  | nil =>
    rw [List.nil_append, List.nil_append, rewriteFiles, hpath, Batch.progress_cons]
    rfl
  | cons earlier front ih =>
    rw [List.forall_mem_cons] at hfront
    obtain ⟨file, hfile⟩ := hfront.1
    rw [List.cons_append, List.cons_append, rewriteFiles, hfile, Batch.progress_cons]
    simp only [ih hfront.2]
    rfl

/-! ## A whole batch -/

/-- What is said before the files: a warning if there are no rules, and how many rules and files
there are. -/
def preface (registry : Registry) (total : Nat) : List Event :=
  (if registry.isEmpty then
    [.warning "⚠️  Warning: No metadata rules are registered; files will not change."]
    else []) ++
  [.report ("🔧 Applying " ++ Text.decimal registry.size ++ " metadata rule(s) to " ++
    Text.decimal total ++ " file(s)...")]

theorem opening_eq (registry : Registry) (total : Nat) :
    Batch.opening registry.size total = registry.preface total := by
  obtain ⟨_ | ⟨registration, registrations⟩⟩ := registry <;> rfl

theorem events_of_ok {paths : List String} (hpaths : paths ≠ []) {files : List RewrittenFile}
    (h : List.Forall₂ (fun path file => registry.rewriteFile read path = .ok file) paths files) :
    (registry.runBatch read paths).1 =
      registry.preface paths.length ++ Batch.progress paths.length 1 paths ++
        Batch.summary files := by
  rw [runBatch, if_neg (by simpa using hpaths), rewriteFiles_of_ok h, opening_eq]

theorem events_of_error {front rest : List String} {path : String} {problem : Problem}
    (hfront : ∀ earlier ∈ front, ∃ file, registry.rewriteFile read earlier = .ok file)
    (hpath : registry.rewriteFile read path = .error problem) :
    (registry.runBatch read (front ++ path :: rest)).1 =
      registry.preface (front ++ path :: rest).length ++
        Batch.progress (front ++ path :: rest).length 1 (front ++ [path]) := by
  rw [runBatch, if_neg (by simp), rewriteFiles_of_error hfront hpath, opening_eq]

/-- **All that a batch says, in order.** Without files nothing is said at all. Otherwise the files
are announced one by one. If none fails, each file that was modified is reported and one line ends
it all, which says that nothing was needed or how many files were modified. If one fails, it is the
last that is announced, and nothing more is said. -/
theorem runBatch_trace (registry : Registry) (read : String → Attempt String)
    (paths : List String) :
    registry.runBatch read [] = ([], .fail (.invalid "No module metadata files given")) ∧
      (∀ files, (registry.runBatch read paths).2 = .ok files →
        List.Forall₂ (fun path file => registry.rewriteFile read path = .ok file) paths files ∧
        ∃ last, (registry.runBatch read paths).1 =
            registry.preface paths.length ++ Batch.progress paths.length 1 paths ++
              (files.filter (·.rewrite.modified)).map
                (fun file => .report (Batch.describe file.rewrite)) ++ [.completion last] ∧
          (last = "✅ No metadata needed rewriting" ↔
            ∀ file ∈ files, file.rewrite.modified = false) ∧
          ((∃ file ∈ files, file.rewrite.modified = true) →
            last = "✅ Rewrote " ++ Batch.share files ∨
            last = "✅ Removed " ++ Text.decimal (Batch.totalRemoved files) ++
              " dependency declaration(s) from " ++ Batch.share files)) ∧
      (∀ problem, paths ≠ [] → (registry.runBatch read paths).2 = .error problem →
        ∃ front path rest, paths = front ++ path :: rest ∧
          (∀ earlier ∈ front, ∃ file, registry.rewriteFile read earlier = .ok file) ∧
          registry.rewriteFile read path = .error problem ∧
          (registry.runBatch read paths).1 =
            registry.preface paths.length ++ Batch.progress paths.length 1 (front ++ [path])) := by
  refine ⟨rfl, fun files hresult => ?_, fun problem hpaths hresult => ?_⟩
  · obtain ⟨hpaths, hfiles⟩ := runBatch_eq_ok.mp hresult
    refine ⟨hfiles, Batch.conclusion files, ?_, Batch.conclusion_eq_iff,
      Batch.conclusion_of_modified⟩
    rw [events_of_ok hpaths hfiles, Batch.summary, List.append_assoc _ _ [_]]
    rfl
  · rw [result_runBatch registry read hpaths, mapM_eq_error] at hresult
    obtain ⟨front, path, rest, rfl, hfront, hpath⟩ := hresult
    exact ⟨front, path, rest, rfl, hfront, hpath, events_of_error hfront hpath⟩

/-- Reads the same metadata from all files but one, which cannot be read. -/
def readBut (unreadable path : String) : Attempt String :=
  if path = unreadable then .fail (.invalid "unreadable") else .ok Metadata.junit.encode

theorem exists_rewriteFile_readBut {unreadable path : String} (h : path ≠ unreadable) :
    ∃ file, registry.rewriteFile (readBut unreadable) path = .ok file := by
  have hread : readBut unreadable path = .ok Metadata.junit.encode := if_neg h
  have hdecode : Metadata.decode Metadata.junit.encode = .ok Metadata.junit :=
    Metadata.decode_encode Metadata.decoded_junit Metadata.stable_junit
  exact exists_rewriteFile.mpr ⟨_, _, hread, hdecode⟩

theorem rewriteFile_readBut_self (path : String) :
    registry.rewriteFile (readBut path) path = .error (Failure.invalid "unreadable") :=
  rewriteFile_eq_error.mpr (.inl (if_pos rfl))

/-- Without rules, two files go through, and of three the second cannot be read. -/
theorem runBatch_trace_unreadable :
    (∃ files last, (empty.runBatch (readBut "b.module") ["out/a.module", "c.module"]).2 =
        .ok files ∧
      (empty.runBatch (readBut "b.module") ["out/a.module", "c.module"]).1 =
        [.warning "⚠️  Warning: No metadata rules are registered; files will not change.",
          .report "🔧 Applying 0 metadata rule(s) to 2 file(s)...",
          .progress 1 2 "a.module", .progress 2 2 "c.module"] ++
        (files.filter (·.rewrite.modified)).map
          (fun file => .report (Batch.describe file.rewrite)) ++ [.completion last]) ∧
      (empty.runBatch (readBut "b.module") ["out/a.module", "b.module", "c.module"]).1 =
        [.warning "⚠️  Warning: No metadata rules are registered; files will not change.",
          .report "🔧 Applying 0 metadata rule(s) to 3 file(s)...",
          .progress 1 3 "a.module", .progress 2 3 "b.module"] := by
  obtain ⟨first, hfirst⟩ := @exists_rewriteFile_readBut empty "b.module" "out/a.module" (by decide)
  obtain ⟨third, hthird⟩ := @exists_rewriteFile_readBut empty "b.module" "c.module" (by decide)
  have hfails := @rewriteFile_readBut_self empty "b.module"
  constructor
  · have hresult : (empty.runBatch (readBut "b.module") ["out/a.module", "c.module"]).2 =
        .ok [first, third] :=
      runBatch_eq_ok.mpr ⟨List.cons_ne_nil _ _, .cons hfirst (.cons hthird .nil)⟩
    obtain ⟨-, last, hevents, -, -⟩ := (runBatch_trace empty _ _).2.1 _ hresult
    exact ⟨_, last, hresult, hevents⟩
  · have hresult : (empty.runBatch (readBut "b.module") ["out/a.module", "b.module",
        "c.module"]).2 = .error (Failure.invalid "unreadable") := by
      rw [result_runBatch empty _ (List.cons_ne_nil _ _), mapM_eq_error]
      exact ⟨["out/a.module"], "b.module", ["c.module"], rfl, by simp [hfirst], hfails⟩
    obtain ⟨front, path, rest, hsplit, hfront, hpath, hevents⟩ :=
      (runBatch_trace empty _ _).2.2 _ (List.cons_ne_nil _ _) hresult
    rw [hevents]
    rcases front with _ | ⟨start, _ | ⟨second, front⟩⟩
    · cases hsplit
      cases hfirst.symm.trans hpath
    · cases hsplit
      decide
    · -- the second file stands before the one that fails, so it would not fail
      simp only [List.cons_append, List.cons.injEq] at hsplit
      obtain ⟨rfl, rfl, -⟩ := hsplit
      obtain ⟨other, hother⟩ := hfront "b.module" (by simp)
      cases hfails.symm.trans hother

end Registry

end ComponentRules
