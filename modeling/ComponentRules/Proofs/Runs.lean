import ComponentRules.Proofs.CommandLines
import ComponentRules.Proofs.Files.Effects
import ComponentRules.Proofs.Rewriting

/-!
# What a run does to the files

A run reads and rewrites all files before it writes the first one. Whatever was read can be written,
so a run that fails has written nothing; and one that succeeds has written what it was asked to
write, and nothing else.

* `Options.batch`: the files of a run, read and rewritten.
* `Options.exists_inPlace`: writing them back does not fail.
* `run_effects`: what a run leaves behind.
-/

namespace ComponentRules

open Outcome

/-! ## Reading and rewriting -/

namespace Registry

variable {registry : Registry} {read : String → Attempt String}

theorem read_of_rewriteFile {path : String} {file : RewrittenFile}
    (h : registry.rewriteFile read path = .ok file) : ∃ text, read path = .ok text := by
  obtain ⟨text, _, _, _, htext, -, -, -⟩ := rewriteFile_eq_ok.mp h
  exact ⟨text, htext⟩

/-- What becomes of a file depends on its text only. -/
theorem rewriteFile_of_text {path other text : String} {file file' : RewrittenFile}
    (h : registry.rewriteFile read path = .ok file)
    (h' : registry.rewriteFile read other = .ok file') (htext : read path = .ok text)
    (htext' : read other = .ok text) :
    file.content = file'.content ∧ file.rewrite = file'.rewrite := by
  obtain ⟨content, m, rewrite, after, hcontent, hm, happly, rfl⟩ := rewriteFile_eq_ok.mp h
  obtain ⟨content', m', rewrite', after', hcontent', hm', happly', rfl⟩ := rewriteFile_eq_ok.mp h'
  cases htext.symm.trans hcontent
  cases htext'.symm.trans hcontent'
  cases hm.symm.trans hm'
  cases happly.symm.trans happly'
  exact ⟨rfl, rfl⟩

end Registry

namespace Options

variable {o : Options} {tree after : FileTree} {files : List RewrittenFile}

/-- The files that the options name, read and rewritten; nothing is written yet. -/
def batch (o : Options) (tree : FileTree) : Attempt (List RewrittenFile) := do
  let config ← o.loadConfig tree
  let registry ← Config.registry config o.remove o.module
  (registry.runBatch (tree.readMetadata FileTree.maxFileSize) o.files).2

theorem batch_eq_ok :
    o.batch tree = .ok files ↔ ∃ config registry, o.loadConfig tree = .ok config ∧
      Config.registry config o.remove o.module = .ok registry ∧ o.files ≠ [] ∧
        List.Forall₂ (fun path file =>
          registry.rewriteFile (tree.readMetadata FileTree.maxFileSize) path = .ok file)
            o.files files := by
  unfold batch
  simp only [bind_eq_ok, Registry.runBatch_eq_ok]
  constructor
  · rintro ⟨config, hconfig, registry, hregistry, hfiles⟩
    exact ⟨config, registry, hconfig, hregistry, hfiles⟩
  · rintro ⟨config, registry, hconfig, hregistry, hfiles⟩
    exact ⟨config, hconfig, registry, hregistry, hfiles⟩

theorem paths_of_batch (h : o.batch tree = .ok files) : files.map (·.path) = o.files := by
  obtain ⟨config, registry, -, -, -, hfiles⟩ := batch_eq_ok.mp h
  clear h
  generalize o.files = paths at hfiles ⊢
  induction hfiles with
  | nil => rfl
  | cons hfile _ ih => rw [List.map_cons, Registry.path_of_rewriteFile hfile, ih]

/-- Every file of a batch stands where its path leads. -/
theorem look_of_batch (h : o.batch tree = .ok files) {file : RewrittenFile} (hfile : file ∈ files) :
    ∃ content mode, tree.look false file.path = .ok (.file content mode) := by
  obtain ⟨config, registry, -, -, -, hfiles⟩ := batch_eq_ok.mp h
  obtain ⟨path, -, hrewrite⟩ := exists_left_of_mem hfiles hfile
  obtain ⟨text, htext⟩ := Registry.read_of_rewriteFile hrewrite
  obtain ⟨mode, hlook⟩ := FileTree.readMetadata_eq_ok htext
  rw [Registry.path_of_rewriteFile hrewrite]
  exact ⟨_, mode, hlook⟩

/-- Two files of a batch at the same place become the same. -/
theorem content_of_batch (h : o.batch tree = .ok files) {file file' : RewrittenFile}
    (hfile : file ∈ files) (hfile' : file' ∈ files) {location : Location}
    (htarget : tree.target file.path = .ok location)
    (htarget' : tree.target file'.path = .ok location) :
    file.content = file'.content := by
  obtain ⟨config, registry, -, -, -, hfiles⟩ := batch_eq_ok.mp h
  obtain ⟨path, -, hrewrite⟩ := exists_left_of_mem hfiles hfile
  obtain ⟨path', -, hrewrite'⟩ := exists_left_of_mem hfiles hfile'
  obtain ⟨text, htext⟩ := Registry.read_of_rewriteFile hrewrite
  obtain ⟨text', htext'⟩ := Registry.read_of_rewriteFile hrewrite'
  rw [Registry.path_of_rewriteFile hrewrite] at htarget
  rw [Registry.path_of_rewriteFile hrewrite'] at htarget'
  have hsame : text = text' := by
    obtain ⟨mode, hlook⟩ := FileTree.readMetadata_eq_ok htext
    obtain ⟨mode', hlook'⟩ := FileTree.readMetadata_eq_ok htext'
    rw [FileTree.look_of_target htarget] at hlook
    rw [FileTree.look_of_target htarget'] at hlook'
    cases hfind : tree.find? location with
    | none => rw [hfind] at hlook; cases hlook
    | some entry =>
      rw [hfind] at hlook hlook'
      have hbytes := hlook.symm.trans hlook'
      simp only [Except.ok.injEq, Entry.file.injEq] at hbytes
      exact String.toByteArray_inj.mp hbytes.1
  subst hsame
  exact (Registry.rewriteFile_of_text hrewrite hrewrite' htext htext').1

/-! ## Writing back -/

/-- The modified files, each to be written to its own path. -/
def inPlaceWrites (files : List RewrittenFile) : List (String × String) :=
  (Batch.modified files).map fun file => (file.path, file.content)

theorem mem_inPlaceWrites {w : String × String} :
    w ∈ inPlaceWrites files ↔
      ∃ file ∈ files, file.rewrite.modified = true ∧ w = (file.path, file.content) := by
  simp only [inPlaceWrites, Batch.modified, List.mem_map, List.mem_filter, and_assoc]
  refine exists_congr fun file => ?_
  simp only [eq_comm]

/-- **Writing back what was read and rewritten does not fail.** -/
theorem exists_inPlace (h : o.batch tree = .ok files) :
    ∃ after, writeAll tree (inPlaceWrites files) = (after, .ok ()) ∧
      tree.Wrote (inPlaceWrites files) after := by
  refine FileTree.exists_writeAll (fun w hw => ?_) fun w hw w' hw' location htarget htarget' => ?_
  · obtain ⟨file, hfile, -, rfl⟩ := mem_inPlaceWrites.mp hw
    exact look_of_batch h hfile
  · obtain ⟨file, hfile, -, rfl⟩ := mem_inPlaceWrites.mp hw
    obtain ⟨file', hfile', -, rfl⟩ := mem_inPlaceWrites.mp hw'
    exact content_of_batch h hfile hfile' htarget htarget'

/-! ## The work that is asked for -/

/-- How a run ends once the files are read and rewritten, but for what it said. -/
theorem rewrite_eq (o : Options) (tree : FileTree) :
    ∃ said, o.rewrite tree =
      match o.batch tree with
      | .error problem => ⟨.applicationError, "", said ++ problem.report, tree⟩
      | .ok files =>
        match writeAll tree (o.deliver files).2.2 with
        | (after, .ok ()) => ⟨(o.deliver files).1, (o.deliver files).2.1, said, after⟩
        | (after, .error problem) => ⟨.applicationError, "", said ++ problem.report, after⟩ := by
  unfold rewrite batch
  cases o.loadConfig tree with
  | error problem => exact ⟨_, rfl⟩
  | ok config =>
    simp only [bind, Except.bind]
    cases Config.registry config o.remove o.module with
    | error problem => exact ⟨_, rfl⟩
    | ok registry =>
      simp only
      cases (registry.runBatch (tree.readMetadata FileTree.maxFileSize) o.files).2 with
      | error problem => exact ⟨_, rfl⟩
      | ok files => exact ⟨_, rfl⟩

theorem rewrite_of_error {problem : Problem} (h : o.batch tree = .error problem) :
    (o.rewrite tree).exit = .applicationError ∧ (o.rewrite tree).stdout = "" ∧
      (o.rewrite tree).tree = tree := by
  obtain ⟨said, hrewrite⟩ := rewrite_eq o tree
  rw [hrewrite, h]
  exact ⟨rfl, rfl, rfl⟩

theorem rewrite_of_written (h : o.batch tree = .ok files)
    (hwrites : writeAll tree (o.deliver files).2.2 = (after, .ok ())) :
    (o.rewrite tree).exit = (o.deliver files).1 ∧
      (o.rewrite tree).stdout = (o.deliver files).2.1 ∧ (o.rewrite tree).tree = after := by
  obtain ⟨said, hrewrite⟩ := rewrite_eq o tree
  rw [hrewrite, h]
  simp only [hwrites, and_self]

theorem rewrite_of_unwritten {problem : Problem} (h : o.batch tree = .ok files)
    (hwrites : writeAll tree (o.deliver files).2.2 = (after, .error problem)) :
    (o.rewrite tree).exit = .applicationError ∧ (o.rewrite tree).stdout = "" ∧
      (o.rewrite tree).tree = after := by
  obtain ⟨said, hrewrite⟩ := rewrite_eq o tree
  rw [hrewrite, h]
  simp only [hwrites, and_self]

/-! ## The ways to deliver -/

theorem deliver_check (hcheck : o.check = true) (files : List RewrittenFile) :
    o.deliver files =
      (if (Batch.modified files).isEmpty then .success else .rewritesPending, "", []) := by
  rw [deliver, if_pos hcheck]

theorem deliver_inPlace (hcheck : o.check = false) (hinPlace : o.inPlace = true)
    (files : List RewrittenFile) : o.deliver files = (.success, "", inPlaceWrites files) := by
  rw [deliver, hcheck, if_neg Bool.false_ne_true, if_pos hinPlace]
  rfl

theorem deliver_output (hcheck : o.check = false) (hinPlace : o.inPlace = false) {path : String}
    (houtput : o.output = some path) (files : List RewrittenFile) :
    o.deliver files = (.success, "", files.map fun file => (path, file.content)) := by
  rw [deliver, hcheck, if_neg Bool.false_ne_true, hinPlace, if_neg Bool.false_ne_true, houtput]

theorem deliver_stdout (hcheck : o.check = false) (hinPlace : o.inPlace = false)
    (houtput : o.output = none) (files : List RewrittenFile) :
    o.deliver files = (.success, String.join (files.map (·.content)), []) := by
  rw [deliver, hcheck, if_neg Bool.false_ne_true, hinPlace, if_neg Bool.false_ne_true, houtput]

/-- Without in-place option and check, there is a single file. -/
theorem files_of_objection? (hobjection : o.objection? = none) (hcheck : o.check = false)
    (hinPlace : o.inPlace = false) (h : o.batch tree = .ok files) : ∃ file, files = [file] := by
  have hpaths := paths_of_batch h
  obtain ⟨_, _, -, -, hne, -⟩ := batch_eq_ok.mp h
  have hfew := length_files_le hobjection hcheck hinPlace
  have hsome := List.length_pos_iff.mpr hne
  rw [← hpaths, List.length_map] at hfew hsome
  exact List.length_eq_one_iff.mp (Nat.le_antisymm hfew hsome)

/-! ## What is done in each way -/

theorem rewrite_check (h : o.batch tree = .ok files) (hcheck : o.check = true) :
    (o.rewrite tree).exit =
        (if (Batch.modified files).isEmpty then .success else .rewritesPending) ∧
      (o.rewrite tree).stdout = "" ∧ (o.rewrite tree).tree = tree := by
  have hdeliver := deliver_check hcheck files
  have hwrites : writeAll tree (o.deliver files).2.2 = (tree, .ok ()) := by
    rw [hdeliver]
    rfl
  have hrewrite := rewrite_of_written h hwrites
  rwa [hdeliver] at hrewrite

theorem rewrite_inPlace (h : o.batch tree = .ok files) (hcheck : o.check = false)
    (hinPlace : o.inPlace = true) :
    (o.rewrite tree).exit = .success ∧ (o.rewrite tree).stdout = "" ∧
      tree.Wrote (inPlaceWrites files) (o.rewrite tree).tree := by
  have hdeliver := deliver_inPlace hcheck hinPlace files
  obtain ⟨after, hwrites, hwrote⟩ := exists_inPlace h
  rw [show inPlaceWrites files = (o.deliver files).2.2 by rw [hdeliver]] at hwrites
  obtain ⟨hexit, hstdout, htree⟩ := rewrite_of_written h hwrites
  rw [hdeliver] at hexit hstdout
  rw [htree]
  exact ⟨hexit, hstdout, hwrote⟩

/-- A document with an output path is written there, or the run fails. -/
theorem rewrite_staged {file : RewrittenFile} (h : o.batch tree = .ok [file])
    (hcheck : o.check = false) (hinPlace : o.inPlace = false) {path : String}
    (houtput : o.output = some path) :
    (o.rewrite tree).stdout = "" ∧
      (((o.rewrite tree).exit = .applicationError ∧ ∃ problem,
          tree.writeStaged path file.content = ((o.rewrite tree).tree, .error problem)) ∨
        ((o.rewrite tree).exit = .success ∧
          tree.writeStaged path file.content = ((o.rewrite tree).tree, .ok ()))) := by
  have hdeliver := deliver_output hcheck hinPlace houtput [file]
  have hwrites : writeAll tree (o.deliver [file]).2.2 = tree.writeStaged path file.content := by
    rw [hdeliver]
    exact FileTree.writeAll_one tree path file.content
  rcases hresult : tree.writeStaged path file.content with ⟨after, problem | ⟨⟩⟩
  · obtain ⟨hexit, hstdout, htree⟩ := rewrite_of_unwritten h (hwrites.trans hresult)
    rw [htree]
    exact ⟨hstdout, .inl ⟨hexit, problem, rfl⟩⟩
  · obtain ⟨hexit, hstdout, htree⟩ := rewrite_of_written h (hwrites.trans hresult)
    rw [hdeliver] at hexit hstdout
    rw [htree]
    exact ⟨hstdout, .inr ⟨hexit, rfl⟩⟩

theorem rewrite_output (h : o.batch tree = .ok files) (hcheck : o.check = false)
    (hinPlace : o.inPlace = false) {path : String} (houtput : o.output = some path)
    {file : RewrittenFile} (hfile : files = [file]) :
    ((o.rewrite tree).exit = .applicationError ∧ (o.rewrite tree).stdout = "" ∧
        (o.rewrite tree).tree = tree) ∨
      ((o.rewrite tree).exit = .success ∧ (o.rewrite tree).stdout = "" ∧
        tree.Wrote [(path, file.content)] (o.rewrite tree).tree) := by
  subst hfile
  obtain ⟨hstdout, ⟨hexit, _, hwrite⟩ | ⟨hexit, hwrite⟩⟩ :=
    rewrite_staged h hcheck hinPlace houtput
  · exact .inl ⟨hexit, hstdout, FileTree.tree_of_writeStaged hwrite⟩
  · exact .inr ⟨hexit, hstdout, FileTree.wrote_of_writeStaged hwrite⟩

theorem rewrite_stdout (h : o.batch tree = .ok files) (hcheck : o.check = false)
    (hinPlace : o.inPlace = false) (houtput : o.output = none) {file : RewrittenFile}
    (hfile : files = [file]) :
    (o.rewrite tree).exit = .success ∧ (o.rewrite tree).stdout = file.content ∧
      (o.rewrite tree).tree = tree := by
  have hdeliver := deliver_stdout hcheck hinPlace houtput files
  have hwrites : writeAll tree (o.deliver files).2.2 = (tree, .ok ()) := by
    rw [hdeliver]
    rfl
  have hrewrite := rewrite_of_written h hwrites
  rw [hdeliver, hfile] at hrewrite
  simpa using hrewrite

/-! ## What a run leaves behind -/

/-- The effect that options ask for: the modified files are written back, the only file is written
to the given path, or nothing is written. -/
def Effect (o : Options) (tree : FileTree) (files : List RewrittenFile) (after : FileTree) : Prop :=
  (o.inPlace = true → tree.Wrote (inPlaceWrites files) after) ∧
    (∀ path, o.output = some path →
      ∃ file, files = [file] ∧ tree.Wrote [(path, file.content)] after) ∧
    (o.inPlace = false → o.output = none → after = tree)

/-- **Work that does not succeed has no effect**, and work that does has the effect asked for. -/
theorem rewrite_effects {arguments : List String} (hparse : parse arguments = .ok o)
    (hobjection : o.objection? = none) (tree : FileTree) :
    ((o.rewrite tree).exit ≠ .success →
      (o.rewrite tree).stdout = "" ∧ (o.rewrite tree).tree = tree) ∧
    ((o.rewrite tree).exit = .success →
      ∃ files, o.batch tree = .ok files ∧ o.Effect tree files (o.rewrite tree).tree) := by
  obtain ⟨honlyCheck, honlyInPlace⟩ := exclusive_of_parse hparse
  cases hbatch : o.batch tree with
  | error problem =>
    obtain ⟨hexit, hstdout, htree⟩ := rewrite_of_error hbatch
    refine ⟨fun _ => ⟨hstdout, htree⟩, fun hsuccess => ?_⟩
    rw [hexit] at hsuccess
    cases hsuccess
  | ok files =>
    by_cases hcheck : o.check = true
    · obtain ⟨hinPlace, houtput⟩ := honlyCheck hcheck
      obtain ⟨-, hstdout, htree⟩ := rewrite_check hbatch hcheck
      refine ⟨fun _ => ⟨hstdout, htree⟩, fun _ => ⟨files, rfl, ?_, ?_, fun _ _ => htree⟩⟩
      · rw [hinPlace]
        nofun
      · rw [houtput]
        nofun
    rw [Bool.not_eq_true] at hcheck
    by_cases hinPlace : o.inPlace = true
    · obtain ⟨-, houtput⟩ := honlyInPlace hinPlace
      obtain ⟨hexit, -, hwrote⟩ := rewrite_inPlace hbatch hcheck hinPlace
      refine ⟨fun hfailed => absurd hexit hfailed, fun _ => ⟨files, rfl, fun _ => hwrote, ?_, ?_⟩⟩
      · rw [houtput]
        nofun
      · rw [hinPlace]
        nofun
    rw [Bool.not_eq_true] at hinPlace
    obtain ⟨file, hfile⟩ := files_of_objection? hobjection hcheck hinPlace hbatch
    cases houtput : o.output with
    | none =>
      obtain ⟨hexit, -, htree⟩ := rewrite_stdout hbatch hcheck hinPlace houtput hfile
      refine ⟨fun hfailed => absurd hexit hfailed, fun _ => ⟨files, rfl, ?_, ?_, fun _ _ => htree⟩⟩
      · rw [hinPlace]
        nofun
      · rw [houtput]
        nofun
    | some path =>
      rcases rewrite_output hbatch hcheck hinPlace houtput hfile with
        ⟨hexit, hstdout, htree⟩ | ⟨hexit, -, hwrote⟩
      · refine ⟨fun _ => ⟨hstdout, htree⟩, fun hsuccess => ?_⟩
        rw [hexit] at hsuccess
        cases hsuccess
      · refine ⟨fun hfailed => absurd hexit hfailed, fun _ => ⟨files, rfl, ?_, ?_, ?_⟩⟩
        · rw [hinPlace]
          nofun
        · rintro path' houtput'
          cases houtput.symm.trans houtput'
          exact ⟨file, hfile, hwrote⟩
        · rw [houtput]
          nofun

end Options

/-- **A failed run has no effect, and a successful one touches only its targets.** A run whose exit
code is not that of success prints nothing to the standard output and leaves the tree as it was.
After a run that succeeds, the modified inputs hold their new texts if they were to be rewritten in
place, or the output path holds the new text of the only input, each with the mode of the file that
was there; everything else is as it was. -/
theorem run_effects (tree : FileTree) (arguments : List String) :
    ((run tree arguments).exit ≠ .success →
      (run tree arguments).stdout = "" ∧ (run tree arguments).tree = tree) ∧
    ((run tree arguments).exit = .success →
      (∀ o, Options.parse arguments = .ok o → ∃ files, o.batch tree = .ok files ∧
        files.map (·.path) = o.files ∧ o.Effect tree files (run tree arguments).tree) ∧
      (∀ fault, Options.parse arguments = .error fault → (run tree arguments).tree = tree)) := by
  unfold run
  cases hparse : Options.parse arguments with
  | error fault =>
    refine ⟨fun hfailed => ?_, fun _ => ⟨nofun, fun _ _ => ?_⟩⟩
    · cases fault <;> simp_all
    · cases fault <;> rfl
  | ok o =>
    simp only
    cases hobjection : o.objection? with
    | some message => exact ⟨fun _ => ⟨rfl, rfl⟩, nofun⟩
    | none =>
      obtain ⟨hfailed, hsucceeded⟩ := Options.rewrite_effects hparse hobjection tree
      refine ⟨hfailed, fun hsuccess => ⟨fun o' ho' => ?_, nofun⟩⟩
      cases ho'
      obtain ⟨files, hbatch, heffect⟩ := hsucceeded hsuccess
      exact ⟨files, hbatch, Options.paths_of_batch hbatch, heffect⟩

end ComponentRules
