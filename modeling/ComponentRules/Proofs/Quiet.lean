import ComponentRules.Proofs.Files.Guarded
import ComponentRules.Proofs.Modes
import ComponentRules.Proofs.Traces

/-!
# Quiet runs

A quiet run does the same work as a run that is not quiet, and ends in the same way. It leaves out
of what is said the plain reports on the batch and its last line, and nothing else: the warnings
about the configuration are written before there is a reporter, the report on a problem after it is
gone, and the reporter itself keeps its warnings.

* `Options.parse_quiet`: a command line with the quiet option in front.
* `Options.notices`, `Options.events`, `Options.problem?`: what there is to say, quiet or not.
* `Options.stderr_rewrite`: what is written of it.
* `run_quiet`: a run, and the same run with the quiet option.
-/

namespace ComponentRules

open Outcome

/-! ## The quiet option -/

namespace Given

variable {g h : Given}

/-- What is given, with the quiet option in front. -/
def quieted (g : Given) : Given :=
  g.resettle ((.quiet, []) :: ·)

theorem has_quieted (g : Given) {p : Parameter} (hp : p ≠ .quiet) :
    g.quieted.has p = g.has p := by
  simp [quieted, resettle, has, Ne.symm hp]

theorem values_quieted (g : Given) {p : Parameter} (hp : p ≠ .quiet) :
    g.quieted.values p = g.values p := by
  simp [quieted, resettle, values, Ne.symm hp]

/-- What is settled without the quiet option is settled behind it as well. -/
theorem carries_settle_quiet (p : Parameter) (values : List String) :
    Carries ((.quiet, []) :: ·) (fun _ => True)
      (fun settled => settled.any (·.1 == .quiet) = false) (settle · p values) := by
  intro g h hstep _
  obtain ⟨hvalues, hrepeated, hpath, rfl⟩ := settle_eq_ok.mp hstep
  refine ⟨trivial, fun hloud => ?_⟩
  have hbefore : (g.has .quiet || p == .quiet) = false := (g.has_append p .quiet values) ▸ hloud
  rw [Bool.or_eq_false_iff, beq_eq_false_iff_ne] at hbefore
  refine ⟨hbefore.1, settle_eq_ok.mpr ⟨hvalues, ?_, hpath, rfl⟩⟩
  rw [show (g.resettle ((.quiet, []) :: ·)).has p = g.has p from g.has_quieted hbefore.2]
  exact hrepeated

end Given

namespace Options

variable {o : Options}

theorem ofGiven_quieted {g : Given} (h : ofGiven g = .ok o) :
    ofGiven g.quieted = .ok { o with quiet := true } := by
  obtain ⟨hlength, hfiles, hmodule, rfl⟩ := ofGiven_eq_ok.mp h
  have hhas : ∀ p : Parameter, p ≠ .quiet → g.quieted.has p = g.has p := fun p => g.has_quieted
  have hvalues : ∀ p : Parameter, p ≠ .quiet → g.quieted.values p = g.values p :=
    fun p => g.values_quieted
  refine ofGiven_eq_ok.mpr ⟨hlength, ?_, ?_, ?_⟩
  · rw [hhas .files (by decide)]
    exact hfiles
  · rw [hhas .module (by decide), hhas .remove (by decide)]
    exact hmodule
  · rw [hvalues .files (by decide), hvalues .config (by decide), hvalues .remove (by decide),
      hvalues .module (by decide), hvalues .output (by decide), hhas .inPlace (by decide),
      hhas .check (by decide)]
    rfl

/-- **The quiet option in front of a command line without it**: the command line is accepted as
well, and asks for the same otherwise. -/
theorem parse_quiet {arguments : List String} (h : parse arguments = .ok o)
    (hloud : o.quiet = false) :
    parse ("--quiet" :: arguments) = .ok { o with quiet := true } := by
  obtain ⟨g, hall, hg⟩ := parse_eq_ok.mp h
  obtain ⟨-, -, -, ho⟩ := ofGiven_eq_ok.mp hg
  have hnone : g.has .quiet = false := by
    rwa [ho] at hloud
  obtain ⟨-, hback⟩ :=
    (Given.step_addAll arguments).carries Given.carries_settle_quiet _ _ hall trivial
  obtain ⟨-, hquieted⟩ := hback hnone
  refine parse_eq_ok.mpr ⟨g.quieted, ?_, ofGiven_quieted hg⟩
  -- a switch in front is settled at once, so the other arguments start behind it
  rw [Given.addAll, if_neg (by decide)]
  exact hquieted

end Options

/-! ## What there is to say -/

/-- Whether an event is a plain report or the last line of a batch. -/
def Event.isChatter : Event → Bool
  | .report _ | .completion _ => true
  | .progress _ _ _ | .warning _ => false

/-- A quiet run has the lines that other runs have for events that are no chatter. -/
theorem lines_quiet (events : List Event) :
    events.filterMap (Event.line? true) =
      (events.filter fun event => !event.isChatter).filterMap (Event.line? false) := by
  rw [List.filterMap_filter]
  refine List.filterMap_congr fun event _ => ?_
  cases event <;> rfl

namespace Options

variable {o : Options} {tree : FileTree}

/-- The registry that the options ask for. -/
def registry (o : Options) (tree : FileTree) : Attempt Registry := do
  Config.registry (← o.loadConfig tree) o.remove o.module

/-- The warnings about the configuration, if it can be loaded. -/
def notices (o : Options) (tree : FileTree) : List String :=
  match o.loadConfig tree with
  | .ok config => (config.map (·.warnings)).getD []
  | .error _ => []

/-- What the batch says, if there is a registry for it. -/
def events (o : Options) (tree : FileTree) : List Event :=
  match o.registry tree with
  | .ok registry => (registry.runBatch (tree.readMetadata FileTree.maxFileSize) o.files).1
  | .error _ => []

/-- The problem that the work ends with: the files cannot be rewritten, or they cannot be written. -/
def problem? (o : Options) (tree : FileTree) : Option Problem :=
  match o.batch tree with
  | .error problem => some problem
  | .ok files =>
    match (writeAll tree (o.deliver files).2.2).2 with
    | .error problem => some problem
    | .ok () => none

/-- Warnings, the lines of events of which none is silenced, and the report on a problem. -/
def transcript (notices : List String) (events : List Event) (problem : Option Problem) : String :=
  asLines notices ++ asLines (events.filterMap (Event.line? false)) ++
    (problem.map (·.report)).getD ""

theorem asLines_nil : asLines [] = "" := rfl

/-- **What is written of it.** The lines of a quiet run are those of events that are no chatter. -/
theorem stderr_rewrite (o : Options) (tree : FileTree) :
    (o.rewrite tree).stderr = asLines (o.notices tree) ++
      asLines ((o.events tree).filterMap (Event.line? o.quiet)) ++
        ((o.problem? tree).map (·.report)).getD "" := by
  unfold rewrite notices events problem? batch registry
  cases o.loadConfig tree with
  | error problem => simp [bind, Except.bind, asLines_nil]
  | ok config =>
    simp only [bind, Except.bind]
    cases Config.registry config o.remove o.module with
    | error problem => simp [asLines_nil]
    | ok registry =>
      simp only
      rcases registry.runBatch (tree.readMetadata FileTree.maxFileSize) o.files with
        ⟨events, problem | files⟩
      · simp
      · simp only
        rcases writeAll tree (o.deliver files).2.2 with ⟨after, problem | ⟨⟩⟩
        · simp
        · simp

theorem exit_deliver (o : Options) (files : List RewrittenFile) :
    (o.deliver files).1 ≠ .applicationError := by
  unfold deliver
  split
  · split <;> nofun
  · split
    · nofun
    · split <;> nofun

/-- A run ends with a problem if and only if it fails. -/
theorem exit_rewrite (o : Options) (tree : FileTree) :
    (o.rewrite tree).exit = .applicationError ↔ ∃ problem, o.problem? tree = some problem := by
  obtain ⟨said, hrewrite⟩ := rewrite_eq o tree
  rw [hrewrite, problem?]
  cases o.batch tree with
  | error problem => simp
  | ok files =>
    simp only
    rcases writeAll tree (o.deliver files).2.2 with ⟨after, problem | ⟨⟩⟩
    · simp
    · simp [o.exit_deliver files]

/-- Nothing but what is written of it hangs on whether a run is quiet. -/
theorem rewrite_quiet (o : Options) (tree : FileTree) :
    let quiet := { o with quiet := true }.rewrite tree
    let loud := o.rewrite tree
    quiet.exit = loud.exit ∧ quiet.stdout = loud.stdout ∧ quiet.tree = loud.tree := by
  intro quiet loud
  have hwork : o.SameWork { o with quiet := true } := ⟨rfl, rfl, rfl, rfl⟩
  obtain ⟨_, hquiet⟩ := rewrite_eq { o with quiet := true } tree
  obtain ⟨_, hloud⟩ := rewrite_eq o tree
  rw [hwork.batch tree] at hquiet
  rw [show quiet = _ from hquiet, show loud = _ from hloud]
  cases o.batch tree with
  | error problem => exact ⟨rfl, rfl, rfl⟩
  | ok files =>
    have hdeliver : { o with quiet := true }.deliver files = o.deliver files := rfl
    simp only [hdeliver]
    rcases writeAll tree (o.deliver files).2.2 with ⟨after, problem | ⟨⟩⟩
    · exact ⟨rfl, rfl, rfl⟩
    · exact ⟨rfl, rfl, rfl⟩

end Options

/-! ## A run and the same run made quiet -/

/-- **The quiet option only silences.** Take a command line that is accepted without the quiet
option. With the quiet option in front it is accepted as well, and the run ends with the same exit
code, prints the same and leaves the same tree. Both write the warnings about the configuration, the
lines of what the batch says, and the report on the problem that the run ends with, which there is if
and only if it fails. Of this, the quiet run leaves out the plain reports and the last line of the
batch, and nothing else. -/
theorem run_quiet {arguments : List String} {o : Options}
    (hparse : Options.parse arguments = .ok o) (hobjection : o.objection? = none)
    (hloud : o.quiet = false) (tree : FileTree) :
    let loud := run tree arguments
    let quiet := run tree ("--quiet" :: arguments)
    quiet.exit = loud.exit ∧ quiet.stdout = loud.stdout ∧ quiet.tree = loud.tree ∧
    loud.stderr =
      Options.transcript (o.notices tree) (o.events tree) (o.problem? tree) ∧
    quiet.stderr =
      Options.transcript (o.notices tree) ((o.events tree).filter fun event => !event.isChatter)
        (o.problem? tree) ∧
    (loud.exit = .applicationError ↔ ∃ problem, o.problem? tree = some problem) := by
  intro loud quiet
  have hrun : loud = o.rewrite tree := run_of_parse hparse hobjection tree
  have hrun' : quiet = { o with quiet := true }.rewrite tree :=
    run_of_parse (Options.parse_quiet hparse hloud) hobjection tree
  obtain ⟨hexit, hstdout, htree⟩ := o.rewrite_quiet tree
  rw [hrun, hrun']
  refine ⟨hexit, hstdout, htree, ?_, ?_, o.exit_rewrite tree⟩
  · rw [o.stderr_rewrite, hloud]
    rfl
  · rw [Options.stderr_rewrite, lines_quiet]
    rfl

/-! ## A batch that fails at its second file -/

theorem look_missing : junitTree.look false "missing.module" = .error .notFound := by
  have hpath : FileTree.pathFault? "missing.module" = none := by decide
  have hsteps : FileTree.steps "missing.module" = ["missing.module".toList] := by decide
  have hname : FileTree.IsName "missing.module".toList :=
    ⟨by unfold FileTree.IsDots; decide, by decide⟩
  exact FileTree.look_single_of_ne hpath hsteps hname (by decide)

/-- Two files, of which the second is missing. -/
theorem batch_missing {o : Options} (hfiles : o.files = ["junit.module", "missing.module"])
    (hconfig : o.config = none) (hremove : o.remove = []) (hmodule : o.module = none) :
    o.notices junitTree = [] ∧
    o.events junitTree =
      [.report "🔧 Applying 1 metadata rule(s) to 2 file(s)...", .progress 1 2 "junit.module",
        .progress 2 2 "missing.module"] ∧
    o.problem? junitTree = some ⟨[], .failure (.metadataNotFound "missing.module")⟩ := by
  have hload : o.loadConfig junitTree = .ok none := by
    rw [Options.loadConfig, hconfig]
    exact discover_junitTree
  have hregistry : Config.registry none o.remove o.module = .ok .default := by
    rw [hremove, hmodule]
    rfl
  -- the first file comes out as it does alone
  obtain ⟨first, hbatch, -⟩ := @batch_junitTree { o with files := ["junit.module"] }
    rfl hconfig hremove hmodule
  obtain ⟨config, registry, hload', hregistry', -, hfirst⟩ := Options.batch_eq_ok.mp hbatch
  cases hload.symm.trans hload'
  cases hregistry.symm.trans hregistry'
  rw [List.forall₂_cons] at hfirst
  have hfront : ∀ earlier ∈ ["junit.module"], ∃ file, Registry.default.rewriteFile
      (junitTree.readMetadata FileTree.maxFileSize) earlier = .ok file := by
    intro earlier hearlier
    rw [List.mem_singleton.mp hearlier]
    exact ⟨first, hfirst.1⟩
  have hread : junitTree.readMetadata FileTree.maxFileSize "missing.module" =
      .error (Failure.metadataNotFound "missing.module") :=
    FileTree.readMetadata_of_refused (.missing look_missing)
  have hmissing : Registry.default.rewriteFile (junitTree.readMetadata FileTree.maxFileSize)
      "missing.module" = .error (Failure.metadataNotFound "missing.module") :=
    Registry.rewriteFile_eq_error.mpr (.inl hread)
  refine ⟨?_, ?_, ?_⟩
  · rw [Options.notices, hload]
    rfl
  · rw [Options.events, Options.registry, hload]
    simp only [bind, Except.bind, hregistry, hfiles]
    exact Registry.events_of_error hfront hmissing
  · have hfailed : o.batch junitTree = .error (Failure.metadataNotFound "missing.module") := by
      rw [Options.batch, hload]
      simp only [bind, Except.bind, hregistry, hfiles]
      rw [Registry.result_runBatch _ _ (List.cons_ne_nil _ _), mapM_eq_error]
      exact ⟨_, _, [], rfl, hfront, hmissing⟩
    rw [Options.problem?, hfailed]

/-- The report on a missing file is all that a quiet run writes. -/
theorem run_quiet_missing :
    let report := Problem.report (Failure.metadataNotFound "missing.module")
    let loud := run junitTree ["--check", "junit.module", "missing.module"]
    let quiet := run junitTree ["--quiet", "--check", "junit.module", "missing.module"]
    quiet.exit = .applicationError ∧ quiet.stdout = loud.stdout ∧ quiet.tree = loud.tree ∧
      loud.stderr = "🔧 Applying 1 metadata rule(s) to 2 file(s)...\n" ++ report ∧
      quiet.stderr = report := by
  have hparse : Options.parse ["--check", "junit.module", "missing.module"] =
      .ok ⟨["junit.module", "missing.module"], none, [], none, none, false, true, false⟩ := rfl
  obtain ⟨hnotices, hevents, hproblem⟩ := @batch_missing
    ⟨["junit.module", "missing.module"], none, [], none, none, false, true, false⟩ rfl rfl rfl rfl
  obtain ⟨hexit, hstdout, htree, hloud, hquiet, hfails⟩ := run_quiet hparse rfl rfl junitTree
  rw [hnotices, hevents, hproblem] at hloud hquiet
  exact ⟨hexit.trans (hfails.mpr ⟨_, hproblem⟩), hstdout, htree, hloud, hquiet⟩

end ComponentRules
