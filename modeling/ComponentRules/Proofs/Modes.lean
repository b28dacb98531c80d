import ComponentRules.Proofs.Metadata.Declared
import ComponentRules.Proofs.Runs
import ComponentRules.Proofs.Targets

/-!
# The ways to run agree

The same work can be checked, printed, written to a path or written back. A check compares metadata
in memory, while the others have texts. They agree since metadata that lost a declaration is never
written as the text it was read from, whatever becomes of its numbers: every variant of a text is
read back with as many declarations as it was written with.

* `Registry.modified_iff_content_ne`: a file is modified if and only if its text is another one.
* `FileTree.Altered`: some file holds other bytes than before.
* `Options.SameWork`: the same work on the same files.
* `run_check`: what a check says, and what the same run does in place.
* `run_deliver`: what is printed is what is written.
-/

namespace ComponentRules

open Json Outcome

/-! ## Modified files get another text -/

namespace Registry

variable {removals : List (Scope × Removal)} {read : String → Attempt String}

/-- **A file is modified if and only if its text is another one.** -/
theorem modified_iff_content_ne {path text : String} {file : RewrittenFile}
    (h : (ofRemovals removals).rewriteFile read path = .ok file) (htext : read path = .ok text) :
    file.rewrite.modified = true ↔ file.content ≠ text := by
  obtain ⟨content, m, rewrite, after, hcontent, hm, happly, rfl⟩ := rewriteFile_eq_ok.mp h
  cases htext.symm.trans hcontent
  have hdecoded := Metadata.decoded_of_decode hm
  obtain ⟨c, hc⟩ := hdecoded.coordinate
  rw [apply_ofRemovals removals hc] at happly
  cases happly
  by_cases hsame : (m.without (targets removals c)).same m = true
  · simp [hsame]
  · -- were the new text the old one, it would be read as metadata with as many declarations
    have hafter := hdecoded.of_follows (m.follows_without (targets removals c))
    have hne : (m.without (targets removals c)).encode ≠ text := by
      intro heq
      rw [← heq] at hm
      have hself := Metadata.without_eq_self (Metadata.forall₂_of_decode_encode hafter hm)
      rw [hself] at hsame
      exact hsame m.same_self
    simp [hsame, hne]

end Registry

/-! ## Trees that differ in the bytes of a file -/

/-- Whether some file of a tree holds other bytes in another tree. -/
def FileTree.Altered (before after : FileTree) : Prop :=
  ∃ location content mode content' mode', before.find? location = some (.file content mode) ∧
    after.find? location = some (.file content' mode') ∧ content ≠ content'

theorem FileTree.not_altered (tree : FileTree) : ¬ tree.Altered tree := by
  rintro ⟨location, content, mode, content', mode', hbefore, hafter, hne⟩
  cases hbefore.symm.trans hafter
  exact hne rfl

namespace Options

variable {o : Options} {tree after : FileTree} {files : List RewrittenFile}

/-- The text of a file of a batch, and whether it becomes another one. -/
theorem modified_iff_of_batch (h : o.batch tree = .ok files) {file : RewrittenFile}
    (hfile : file ∈ files) :
    ∃ text mode, tree.look false file.path = .ok (.file text.toUTF8 mode) ∧
      (file.rewrite.modified = true ↔ file.content ≠ text) := by
  obtain ⟨config, registry, -, hregistry, -, hfiles⟩ := batch_eq_ok.mp h
  obtain ⟨removals, -, rfl⟩ := Config.registry_eq_ofRemovals hregistry
  obtain ⟨path, -, hrewrite⟩ := exists_left_of_mem hfiles hfile
  obtain ⟨text, htext⟩ := Registry.read_of_rewriteFile hrewrite
  obtain ⟨mode, hlook⟩ := FileTree.readMetadata_eq_ok htext
  refine ⟨text, mode, ?_, Registry.modified_iff_content_ne hrewrite htext⟩
  rw [Registry.path_of_rewriteFile hrewrite]
  exact hlook

/-- Writing back alters a file if and only if one was modified. -/
theorem altered_iff_of_batch (h : o.batch tree = .ok files)
    (hwrote : tree.Wrote (inPlaceWrites files) after) :
    tree.Altered after ↔ Batch.modified files ≠ [] := by
  constructor
  · rintro ⟨location, content, mode, content', mode', hbefore, hafter, hne⟩ hnone
    rw [inPlaceWrites, hnone, List.map_nil] at hwrote
    rw [hwrote.frame location fun _ hw => absurd hw List.not_mem_nil] at hafter
    cases hbefore.symm.trans hafter
    exact hne rfl
  · intro hsome
    obtain ⟨file, hfile⟩ := List.exists_mem_of_ne_nil _ hsome
    obtain ⟨hfile, hmodified⟩ := List.mem_filter.mp hfile
    obtain ⟨text, mode, hlook, hiff⟩ := modified_iff_of_batch h hfile
    have hwrite : (file.path, file.content) ∈ inPlaceWrites files :=
      mem_inPlaceWrites.mpr ⟨file, hfile, hmodified, rfl⟩
    obtain ⟨location, htarget, -, hafter, -⟩ := hwrote.holds _ hwrite
    obtain ⟨place, hplace, hbefore⟩ := FileTree.exists_target_of_look hlook
    cases htarget.symm.trans hplace
    refine ⟨location, _, _, _, _, hbefore, hafter, fun hbytes => ?_⟩
    exact hiff.mp hmodified (String.toByteArray_inj.mp hbytes).symm

/-- Whether other options ask for the same work on the same files, but perhaps for another way to
deliver it. -/
structure SameWork (o o' : Options) : Prop where
  files : o'.files = o.files
  config : o'.config = o.config
  remove : o'.remove = o.remove
  module : o'.module = o.module

theorem SameWork.batch {o' : Options} (h : o.SameWork o') (tree : FileTree) :
    o'.batch tree = o.batch tree := by
  unfold Options.batch loadConfig
  rw [h.files, h.config, h.remove, h.module]

theorem objection?_of_singleton {path : String} (h : o.files = [path]) : o.objection? = none := by
  rw [objection?_eq_none, h]
  nofun

end Options

/-- A run does the work that its options ask for. -/
theorem run_of_parse {o : Options} {arguments : List String} (h : Options.parse arguments = .ok o)
    (hobjection : o.objection? = none) (tree : FileTree) :
    run tree arguments = o.rewrite tree := by
  unfold run
  rw [h]
  simp only [hobjection]

/-! ## A tree with one file -/

/-- A tree with the metadata of one component in its root, which is the working directory. -/
def junitTree : FileTree :=
  ⟨[], 0o022, [(["junit.module".toList], .file Metadata.junit.encode.toUTF8 0o644)]⟩

theorem look_junitTree :
    junitTree.look false "junit.module" = .ok (.file Metadata.junit.encode.toUTF8 0o644) := by
  have hpath : FileTree.pathFault? "junit.module" = none := by decide
  have hsteps : FileTree.steps "junit.module" = ["junit.module".toList] := by decide
  have hname : FileTree.IsName "junit.module".toList :=
    ⟨by unfold FileTree.IsDots; decide, by decide⟩
  exact FileTree.look_single hpath hsteps hname

/-- There is no configuration beside the file. -/
theorem discover_junitTree : Config.discover junitTree "." = .ok none := by
  have hpath : FileTree.steps (Path.join "." Config.fileName) =
      [['.'], Config.fileName.toList] := by decide
  have hfault : FileTree.pathFault? (Path.join "." Config.fileName) = none := by decide
  have horigin : FileTree.origin junitTree.home (Path.join "." Config.fileName) = [] := by decide
  have hname : ¬ FileTree.IsDots Config.fileName.toList := by
    unfold FileTree.IsDots
    decide
  have hfind : junitTree.find? ([] ++ [Config.fileName.toList]) = none := by
    rw [FileTree.find?, if_neg (by rw [junitTree]; decide)]
    exact List.lookup_eq_none_iff.mpr (by rw [junitTree]; decide)
  have hwalk : junitTree.walk true FileTree.maxLinks [] [['.'], Config.fileName.toList] =
      .error .notFound := by
    rw [FileTree.walk_point, FileTree.walk_name hname, if_neg (by decide), hfind]
    rfl
  have hleads : junitTree.leads (Path.join "." Config.fileName) = false := by
    rw [FileTree.leads, FileTree.look, FileTree.resolve, hfault]
    simp only [hpath, horigin, hwalk]
    rfl
  unfold Config.discover
  simp only [hleads]
  rfl

/-- By default, the file loses a declaration. -/
theorem batch_junitTree {o : Options} (hfiles : o.files = ["junit.module"])
    (hconfig : o.config = none) (hremove : o.remove = []) (hmodule : o.module = none) :
    ∃ file, o.batch junitTree = .ok [file] ∧ file.rewrite.modified = true ∧
      file.content = (Metadata.junit.without ["hamcrest-core"]).encode := by
  have hload : o.loadConfig junitTree = .ok none := by
    rw [Options.loadConfig, hconfig]
    exact discover_junitTree
  have hregistry : Config.registry none o.remove o.module =
      .ok (.ofRemovals [(.ofSelector Removal.hamcrestCore.component, .hamcrestCore)]) := by
    rw [hremove, hmodule]
    rfl
  have hread : junitTree.readMetadata FileTree.maxFileSize "junit.module" =
      .ok Metadata.junit.encode :=
    FileTree.readMetadata_of_look look_junitTree (by decide) (by decide +kernel)
  have hdecode : Metadata.decode Metadata.junit.encode = .ok Metadata.junit :=
    Metadata.decode_encode Metadata.decoded_junit Metadata.stable_junit
  have htargets : (Metadata.junit.coordinate.map (Registry.targets
      [(.ofSelector Removal.hamcrestCore.component, .hamcrestCore)])).toOption =
        some ["hamcrest-core"] := by
    decide +kernel
  obtain ⟨c, hc⟩ := Metadata.decoded_junit.coordinate
  rw [hc] at htargets
  have htargets := Option.some_inj.mp htargets
  have happly := Registry.apply_ofRemovals
    [(.ofSelector Removal.hamcrestCore.component, .hamcrestCore)] hc
  have hmodified : (Metadata.junit.without ["hamcrest-core"]).same Metadata.junit = false := by
    decide +kernel
  rw [htargets, hmodified] at happly
  obtain ⟨file, hfile, hchanged, hcontent⟩ :
      ∃ file, (Registry.ofRemovals [(.ofSelector Removal.hamcrestCore.component,
          .hamcrestCore)]).rewriteFile (junitTree.readMetadata FileTree.maxFileSize)
            "junit.module" = .ok file ∧ file.rewrite.modified = true ∧
        file.content = (Metadata.junit.without ["hamcrest-core"]).encode :=
    ⟨_, Registry.rewriteFile_eq_ok.mpr ⟨_, _, _, _, hread, hdecode, happly, rfl⟩, rfl, rfl⟩
  refine ⟨file, Options.batch_eq_ok.mpr ⟨none, _, hload, hregistry, ?_, ?_⟩, hchanged, hcontent⟩
  · rw [hfiles]
    exact List.cons_ne_nil _ _
  · rw [hfiles]
    exact .cons hfile .nil

/-! ## Checks -/

/-- **A check predicts what is written in place.** A check that is accepted leaves the tree as it
was. The same arguments with the in-place option for the check alter a file if and only if the check
said that rewrites are pending; they fail if and only if the check failed; and otherwise both
succeed. The check must not stand behind `--`, where it would be the name of a file. -/
theorem run_check {before after : List String} {o : Options} (hbefore : "--" ∉ before)
    (hparse : Options.parse (before ++ "--check" :: after) = .ok o) (tree : FileTree) :
    let checked := run tree (before ++ "--check" :: after)
    let rewritten := run tree (before ++ "--in-place" :: after)
    checked.tree = tree ∧
    (checked.exit = .rewritesPending ↔ tree.Altered rewritten.tree) ∧
    (checked.exit = .applicationError ↔ rewritten.exit = .applicationError) ∧
    (checked.exit ≠ .rewritesPending → checked.exit ≠ .applicationError →
      checked.exit = .success ∧ rewritten.exit = .success) := by
  intro checked rewritten
  obtain ⟨hcheck, hinPlace⟩ := Options.parse_inPlace hbefore hparse
  have hchecked : checked = o.rewrite tree :=
    run_of_parse hparse (Options.objection?_eq_none.mpr fun _ => .inr hcheck) tree
  have hrewritten : rewritten = Options.rewrite { o with check := false, inPlace := true } tree :=
    run_of_parse hinPlace (Options.objection?_eq_none.mpr fun _ => .inl rfl) tree
  rw [hchecked, hrewritten]
  have hwork : o.SameWork { o with check := false, inPlace := true } := ⟨rfl, rfl, rfl, rfl⟩
  have hsame := hwork.batch tree
  cases hbatch : o.batch tree with
  | error problem =>
    obtain ⟨hexit, -, htree⟩ := Options.rewrite_of_error hbatch
    obtain ⟨hexit', -, htree'⟩ := Options.rewrite_of_error (hsame.trans hbatch)
    rw [hexit, hexit', htree, htree']
    exact ⟨rfl, iff_of_false nofun tree.not_altered, iff_of_true rfl rfl, fun _ h => absurd rfl h⟩
  | ok files =>
    obtain ⟨hexit, -, htree⟩ := Options.rewrite_check hbatch hcheck
    obtain ⟨hexit', -, hwrote⟩ := Options.rewrite_inPlace (hsame.trans hbatch) rfl rfl
    rw [Options.altered_iff_of_batch hbatch hwrote, hexit, hexit']
    cases Batch.modified files with
    | nil => exact ⟨htree, by decide, by decide, by decide⟩
    | cons file others => exact ⟨htree, by simp, by simp, fun h => absurd rfl h⟩

/-- The check of a file that would lose a declaration. -/
theorem run_check_junit :
    (run junitTree ["--check", "junit.module"]).exit = .rewritesPending ∧
      (run junitTree ["--check", "junit.module"]).tree = junitTree ∧
      junitTree.Altered (run junitTree ["--in-place", "junit.module"]).tree := by
  have hparse : Options.parse ["--check", "junit.module"] =
      .ok ⟨["junit.module"], none, [], none, none, false, true, false⟩ := rfl
  obtain ⟨htree, hpending, -, -⟩ :=
    @run_check [] ["junit.module"] _ List.not_mem_nil hparse junitTree
  obtain ⟨file, hbatch, hmodified, -⟩ := @batch_junitTree
    ⟨["junit.module"], none, [], none, none, false, true, false⟩ rfl rfl rfl rfl
  have hexit : (run junitTree ["--check", "junit.module"]).exit = .rewritesPending := by
    rw [run_of_parse hparse rfl, (Options.rewrite_check hbatch rfl).1]
    simp [Batch.modified, hmodified]
  exact ⟨hexit, htree, hpending.mp hexit⟩

/-! ## What is printed and what is written -/

namespace Options

variable {o : Options} {tree : FileTree} {file : RewrittenFile}

/-- A single file holds its new text after a run in place, whether it was modified or not. -/
theorem look_of_rewrite_inPlace (h : o.batch tree = .ok [file]) (hcheck : o.check = false)
    (hinPlace : o.inPlace = true) :
    ∃ mode, (o.rewrite tree).tree.look false file.path =
      .ok (.file file.content.toUTF8 mode) := by
  obtain ⟨-, -, hwrote⟩ := rewrite_inPlace h hcheck hinPlace
  obtain ⟨text, mode, hlook, hiff⟩ := modified_iff_of_batch h (List.mem_singleton_self file)
  by_cases hmodified : file.rewrite.modified = true
  · have hwrite : (file.path, file.content) ∈ inPlaceWrites [file] :=
      mem_inPlaceWrites.mpr ⟨file, List.mem_singleton_self file, hmodified, rfl⟩
    obtain ⟨location, -, -, -, hafter⟩ := hwrote.holds _ hwrite
    exact ⟨_, hafter⟩
  · -- nothing is written, and the file holds the text that it would get
    have hnone : inPlaceWrites [file] = [] := by simp [inPlaceWrites, Batch.modified, hmodified]
    have htext : file.content = text := not_not.mp (mt hiff.mpr hmodified)
    rw [hnone] at hwrote
    rw [htext]
    exact ⟨mode, hwrote.look_of_frame hlook fun _ hw => absurd hw List.not_mem_nil⟩

/-- A path that leads to a file can be written. -/
theorem exit_of_output_file {path : String} {content : ByteArray} {mode : Nat}
    (h : o.batch tree = .ok [file]) (hcheck : o.check = false) (hinPlace : o.inPlace = false)
    (houtput : o.output = some path) (hlook : tree.look false path = .ok (.file content mode)) :
    (o.rewrite tree).exit = .success := by
  obtain ⟨location, -, -, hwrite⟩ := FileTree.exists_write_of_look hlook file.content
  have hdeliver := deliver_output hcheck hinPlace houtput [file]
  have hwrites : writeAll tree (o.deliver [file]).2.2 =
      (tree.put location (.file file.content.toUTF8 mode), .ok ()) := by
    rw [hdeliver, List.map_cons, FileTree.writeAll_cons, hwrite]
    rfl
  rw [(rewrite_of_written h hwrites).1, hdeliver]

end Options

/-- **What is printed is what is written.** For a single file, if the run that prints succeeds, then
so does the run in place; it prints nothing, and the file holds what would have been printed. A run
with an output path that succeeds prints nothing either, and what would have been printed stands at
that path, which may be that of the file. If the run that prints fails, so do the others. -/
theorem run_deliver {printing rewriting saving : List String} {o o' o'' : Options}
    {path out : String} (hprinting : Options.parse printing = .ok o)
    (hplain : o.check = false ∧ o.inPlace = false ∧ o.output = none) (hfile : o.files = [path])
    (hrewriting : Options.parse rewriting = .ok o') (hwork' : o.SameWork o')
    (hinPlace : o'.inPlace = true) (hsaving : Options.parse saving = .ok o'')
    (hwork'' : o.SameWork o'') (houtput : o''.output = some out) (tree : FileTree) :
    let printed := run tree printing
    let rewritten := run tree rewriting
    let saved := run tree saving
    (printed.exit = .success →
      (rewritten.exit = .success ∧ rewritten.stdout = "" ∧
        ∃ mode, rewritten.tree.look false path = .ok (.file printed.stdout.toUTF8 mode)) ∧
      (saved.exit = .success → saved.stdout = "" ∧
        ∃ mode, saved.tree.look false out = .ok (.file printed.stdout.toUTF8 mode))) ∧
    (printed.exit = .applicationError →
      rewritten.exit = .applicationError ∧ saved.exit = .applicationError) := by
  intro printed rewritten saved
  obtain ⟨hcheck, hplace, hnone⟩ := hplain
  obtain ⟨hcheck', -⟩ := (Options.exclusive_of_parse hrewriting).2 hinPlace
  obtain ⟨hcheck'', hplace''⟩ := Options.exclusive_of_output hsaving houtput
  have hprinted : printed = o.rewrite tree :=
    run_of_parse hprinting (Options.objection?_of_singleton hfile) tree
  have hrewritten : rewritten = o'.rewrite tree :=
    run_of_parse hrewriting (Options.objection?_eq_none.mpr fun _ => .inl hinPlace) tree
  have hsaved : saved = o''.rewrite tree :=
    run_of_parse hsaving (Options.objection?_of_singleton (hwork''.files.trans hfile)) tree
  rw [hprinted, hrewritten, hsaved]
  cases hbatch : o.batch tree with
  | error problem =>
    have hfailed' := Options.rewrite_of_error ((hwork'.batch tree).trans hbatch)
    have hfailed'' := Options.rewrite_of_error ((hwork''.batch tree).trans hbatch)
    have hfailed := Options.rewrite_of_error hbatch
    rw [hfailed.1, hfailed'.1, hfailed''.1]
    exact ⟨nofun, fun _ => ⟨rfl, rfl⟩⟩
  | ok files =>
    obtain ⟨file, rfl⟩ :=
      Options.files_of_objection? (Options.objection?_of_singleton hfile) hcheck hplace hbatch
    have hbatch' := (hwork'.batch tree).trans hbatch
    have hbatch'' := (hwork''.batch tree).trans hbatch
    have hpath : [file.path] = [path] := (Options.paths_of_batch hbatch).trans hfile
    cases hpath
    obtain ⟨hexit, hstdout, -⟩ := Options.rewrite_stdout hbatch hcheck hplace hnone rfl
    obtain ⟨hexit', hstdout', -⟩ := Options.rewrite_inPlace hbatch' hcheck' hinPlace
    rw [hexit, hstdout]
    refine ⟨fun _ => ⟨⟨hexit', hstdout', ?_⟩, fun hsuccess => ?_⟩, nofun⟩
    · exact Options.look_of_rewrite_inPlace hbatch' hcheck' hinPlace
    · rcases Options.rewrite_output hbatch'' hcheck'' hplace'' houtput rfl with
        ⟨hfailed, -, -⟩ | ⟨-, hstdout'', hwrote⟩
      · rw [hfailed] at hsuccess
        cases hsuccess
      · obtain ⟨location, -, -, -, hlook⟩ := hwrote.holds _ (List.mem_singleton_self _)
        exact ⟨hstdout'', _, hlook⟩

/-- The new text of a file, printed, written back and written to the path of the file. -/
theorem run_deliver_junit :
    ∃ text, (run junitTree ["junit.module"]).exit = .success ∧
      (run junitTree ["junit.module"]).stdout = text ∧
      text = (Metadata.junit.without ["hamcrest-core"]).encode ∧
      (run junitTree ["--in-place", "junit.module"]).exit = .success ∧
      (∃ mode, (run junitTree ["--in-place", "junit.module"]).tree.look false "junit.module" =
        .ok (.file text.toUTF8 mode)) ∧
      (run junitTree ["-o", "junit.module", "junit.module"]).exit = .success ∧
      ∃ mode, (run junitTree ["-o", "junit.module", "junit.module"]).tree.look false
        "junit.module" = .ok (.file text.toUTF8 mode) := by
  have hprinting : Options.parse ["junit.module"] =
      .ok ⟨["junit.module"], none, [], none, none, false, false, false⟩ := rfl
  have hrewriting : Options.parse ["--in-place", "junit.module"] =
      .ok ⟨["junit.module"], none, [], none, none, true, false, false⟩ := rfl
  have hsaving : Options.parse ["-o", "junit.module", "junit.module"] =
      .ok ⟨["junit.module"], none, [], none, some "junit.module", false, false, false⟩ := rfl
  obtain ⟨hsuccess, -⟩ := run_deliver hprinting ⟨rfl, rfl, rfl⟩ rfl hrewriting ⟨rfl, rfl, rfl, rfl⟩
    rfl hsaving ⟨rfl, rfl, rfl, rfl⟩ rfl junitTree
  obtain ⟨file, hbatch, -, hcontent⟩ := @batch_junitTree
    ⟨["junit.module"], none, [], none, none, false, false, false⟩ rfl rfl rfl rfl
  obtain ⟨hexit, hstdout, -⟩ := Options.rewrite_stdout hbatch rfl rfl rfl rfl
  rw [← run_of_parse hprinting rfl] at hexit hstdout
  obtain ⟨⟨hexit', -, hlook'⟩, hsaved⟩ := hsuccess hexit
  have hexit'' : (run junitTree ["-o", "junit.module", "junit.module"]).exit = .success := by
    obtain ⟨file, hbatch, -, -⟩ := @batch_junitTree
      ⟨["junit.module"], none, [], none, some "junit.module", false, false, false⟩ rfl rfl rfl rfl
    rw [run_of_parse hsaving rfl]
    exact Options.exit_of_output_file hbatch rfl rfl rfl look_junitTree
  exact ⟨_, hexit, rfl, hstdout.trans hcontent, hexit', hlook', hexit'', (hsaved hexit'').2⟩

end ComponentRules
