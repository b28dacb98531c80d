import ComponentRules.Batch
import ComponentRules.CommandLine
import ComponentRules.ConfigFile
import ComponentRules.Files.Staging
import ComponentRules.Help

/-!
# Runs

A run of the program takes a file tree and a command line, and gives an exit code, what is printed
and the tree it leaves. All files are read and rewritten before the first is written.

* `ExitCode`: how a run ends.
* `Options.rewrite`: the work that the options ask for.
* `run`: a run of the program.
-/

namespace ComponentRules

inductive ExitCode
  | success
  | rewritesPending
  | invalidArguments
  | applicationError
  deriving DecidableEq, Repr

namespace ExitCode

def number : ExitCode → Nat
  | .success => 0
  | .rewritesPending => 1
  | .invalidArguments => 2
  | .applicationError => 3

def text (code : ExitCode) : String :=
  let name := match code with
    | .success => "Success"
    | .rewritesPending => "Rewrites Pending"
    | .invalidArguments => "Invalid Arguments"
    | .applicationError => "Application Error"
  name ++ " (" ++ Text.decimal code.number ++ ")"

/-- All exit codes, in ascending order. -/
def all : List ExitCode :=
  [.success, .rewritesPending, .invalidArguments, .applicationError]

end ExitCode

/-- How a run ends, what it prints and the tree it leaves. -/
structure Outcome where
  exit : ExitCode
  stdout : String
  stderr : String
  tree : FileTree

/-! ## Messages -/

/-- The lines of a text. -/
def asLines (lines : List String) : String :=
  String.join (lines.map (· ++ "\n"))

/-- The line for an event, if there is one. Progress has none, and a quiet run has lines for
warnings only. -/
def Event.line? (quiet : Bool) : Event → Option String
  | .warning message => some message
  | .report message => if quiet then none else some message
  | .completion message => if quiet then none else some message
  | .progress _ _ _ => none

/-- The report on a problem, with its causes. -/
def Problem.report (problem : Problem) : String :=
  asLines (["\n❌ An error occurred:\n", problem.message] ++
    problem.causes.map ("\nCaused by: " ++ ·) ++ [""])

/-- The program's name and version. -/
def versionLine : String := "metadata-rules 0.1.0"

/-! ## Work -/

/-- The configuration to use: the one asked for, or that of the working directory. -/
def Options.loadConfig (o : Options) (tree : FileTree) : Attempt (Option Config) :=
  match o.config with
  | some path => some <$> Config.load tree path
  | none => Config.discover tree "."

/-- The paths that the work looks at. -/
def Options.paths (o : Options) : List String :=
  o.files ++ o.output.toList ++ [o.config.getD (Path.join "." Config.fileName)]

/-- Writes files one after the other, up to the first that cannot be written. -/
def writeAll (tree : FileTree) : List (String × String) → FileTree × Attempt Unit
  | [] => (tree, .ok ())
  | (path, content) :: files =>
    match tree.writeStaged path content with
    | (tree, .ok ()) => writeAll tree files
    | (tree, .error problem) => (tree, .error problem)

/-- What is to be done with rewritten files: the exit code, what to print and what to write. -/
def Options.deliver (o : Options) (files : List RewrittenFile) :
    ExitCode × String × List (String × String) :=
  if o.check then
    (if (Batch.modified files).isEmpty then .success else .rewritesPending, "", [])
  else if o.inPlace then
    (.success, "", (Batch.modified files).map fun file => (file.path, file.content))
  else match o.output with
    | some path => (.success, "", files.map fun file => (path, file.content))
    | none => (.success, String.join (files.map (·.content)), [])

/-- The work that the options ask for. -/
def Options.rewrite (o : Options) (tree : FileTree) : Outcome :=
  let failed (tree : FileTree) (said : String) (problem : Problem) : Outcome :=
    ⟨.applicationError, "", said ++ problem.report, tree⟩
  match o.loadConfig tree with
  | .error problem => failed tree "" problem
  | .ok config =>
    let warned := asLines ((config.map (·.warnings)).getD [])
    match Config.registry config o.remove o.module with
    | .error problem => failed tree warned problem
    | .ok registry =>
      let (events, result) := registry.runBatch (tree.readMetadata FileTree.maxFileSize) o.files
      let said := warned ++ asLines (events.filterMap (·.line? o.quiet))
      match result with
      | .error problem => failed tree said problem
      | .ok files =>
        let (code, printed, writes) := o.deliver files
        match writeAll tree writes with
        | (tree, .ok ()) => ⟨code, printed, said, tree⟩
        | (tree, .error problem) => failed tree said problem

/-- What a faulty command line prints. -/
def usageReport (message : String) : String :=
  asLines ["error: " ++ message, "", "For more information, try '--help'."]

/-- A run of the program with the arguments behind its name. -/
def run (tree : FileTree) (arguments : List String) : Outcome :=
  match Options.parse arguments with
  | .error (.help full) => ⟨.success, asLines (Help.lines full), "", tree⟩
  | .error .version => ⟨.success, asLines [versionLine], "", tree⟩
  | .error fault => ⟨.invalidArguments, "", usageReport fault.message, tree⟩
  | .ok o =>
    match o.objection? with
    | some message => ⟨.invalidArguments, "", usageReport message, tree⟩
    | none => o.rewrite tree

end ComponentRules
