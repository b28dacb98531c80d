import ComponentRules.Files.Path
import ComponentRules.Metadata.Format
import ComponentRules.Registry

/-!
# Batches

A batch is a list of metadata files that go through a registry in order. It says what it is doing,
stops at the first file that cannot be read or holds no metadata, and sums up at the end. Nothing
is written here.

* `Registry.rewriteFile`: one file.
* `Registry.runBatch`: all files, with the events on the way.
* `Batch.summary`: what is said at the end.
-/

namespace ComponentRules

/-- What is said while a batch runs. -/
inductive Event
  | report (message : String)
  | progress (current total : Nat) (name : String)
  | warning (message : String)
  | completion (message : String)
  deriving DecidableEq, Repr

/-- A file after the rules. A file that they did not modify keeps its text. -/
structure RewrittenFile where
  path : String
  rewrite : Rewrite
  content : String

namespace Batch

/-- The files that the rules modified. -/
def modified (files : List RewrittenFile) : List RewrittenFile :=
  files.filter (·.rewrite.modified)

/-- The number of declarations lost in all files. -/
def totalRemoved (files : List RewrittenFile) : Nat :=
  (files.flatMap (·.rewrite.removed)).length

/-- What the rules did to a component, a line for each variant that lost something. -/
def describe (r : Rewrite) : String :=
  let lines :=
    if r.changes.isEmpty then ["   - rewritten by " ++ String.intercalate ", " r.applied]
    else r.changes.map fun change =>
      "   - " ++ change.variant ++ ": removed " ++
        String.intercalate ", " (change.removed.map (·.text))
  String.intercalate "\n" (("📝 " ++ r.coordinate.text) :: lines)

/-- The last line. -/
def conclusion (files : List RewrittenFile) : String :=
  let count := (modified files).length
  let share := Text.decimal count ++ " of " ++ Text.decimal files.length ++ " file(s)"
  if count = 0 then "✅ No metadata needed rewriting"
  else if totalRemoved files = 0 then "✅ Rewrote " ++ share
  else
    "✅ Removed " ++ Text.decimal (totalRemoved files) ++ " dependency declaration(s) from " ++
      share

/-- What is said at the end. -/
def summary (files : List RewrittenFile) : List Event :=
  (modified files).map (fun file => .report (describe file.rewrite)) ++
    [.completion (conclusion files)]

/-- What is said at the beginning. -/
def opening (rules total : Nat) : List Event :=
  (if rules = 0 then
    [.warning "⚠️  Warning: No metadata rules are registered; files will not change."]
    else []) ++
  [.report ("🔧 Applying " ++ Text.decimal rules ++ " metadata rule(s) to " ++
    Text.decimal total ++ " file(s)...")]

end Batch

namespace Registry

/-- One file of a batch. -/
def rewriteFile (registry : Registry) (read : String → Attempt String) (path : String) :
    Attempt RewrittenFile := do
  let content ← read path
  let understood : Attempt (Rewrite × Metadata) := do registry.apply (← Metadata.decode content)
  match understood with
  | .error problem => .fail (.notMetadata path problem.details)
  | .ok (rewrite, m) => pure ⟨path, rewrite, if rewrite.modified then m.encode else content⟩

/-- The files of a batch from a given number on, each announced. -/
def rewriteFiles (registry : Registry) (read : String → Attempt String) (total current : Nat) :
    List String → List Event × Attempt (List RewrittenFile)
  | [] => ([], .ok [])
  | path :: paths =>
    let announced := .progress current total ((Path.fileName? path).getD path)
    match registry.rewriteFile read path with
    | .error problem => ([announced], .error problem)
    | .ok file =>
      let (events, result) := registry.rewriteFiles read total (current + 1) paths
      (announced :: events, result.map (file :: ·))

/-- A whole batch: what is said, and the files after the rules. -/
def runBatch (registry : Registry) (read : String → Attempt String) (paths : List String) :
    List Event × Attempt (List RewrittenFile) :=
  if paths.isEmpty then ([], .fail (.invalid "No module metadata files given"))
  else
    let opening := Batch.opening registry.size paths.length
    let (events, result) := registry.rewriteFiles read paths.length 1 paths
    match result with
    | .error problem => (opening ++ events, .error problem)
    | .ok files => (opening ++ events ++ Batch.summary files, .ok files)

end Registry

end ComponentRules
