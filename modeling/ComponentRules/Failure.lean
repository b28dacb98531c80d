import ComponentRules.Files.Fault
import ComponentRules.Json.Fault
import ComponentRules.Yaml.Fault

/-!
# Failures and problems

A `Failure` is something that goes wrong in the work with metadata files, named after what the user
can do about it. A `Problem` is what a run ends with: a cause, and in front of it what was being
done when it came up, outermost first.

* `Failure.message`: the text of a failure, most with a hint.
* `Problem.message`, `Problem.causes`: the head line of a problem and what stands behind it.
* `Problem.within`: a problem as part of something larger.
-/

namespace ComponentRules

inductive Failure
  | metadataNotFound (path : String)
  | notMetadata (path details : String)
  | cannotRead (path details : String)
  | cannotWrite (path details : String)
  | invalidSelector (selector reason : String)
  | invalid (message : String)
  | insecure (path reason hint : String)
  deriving DecidableEq, Repr

/-- A text and a hint below it. -/
def withHint (text hint : String) : String :=
  text ++ "\n\n💡 Hint: " ++ hint

def Failure.message : Failure → String
  | .metadataNotFound path =>
    withHint ("Module metadata file not found: " ++ path)
      "Pass the path of a published .module file"
  | .notMetadata path details =>
    withHint ("Failed to parse module metadata: " ++ path ++ "\nDetails: " ++ details)
      "Only Gradle Module Metadata JSON (formatVersion 1.x) is supported"
  | .cannotRead path details =>
    withHint ("Failed to read file: " ++ path ++ "\nDetails: " ++ details)
      "Please verify that the file exists and you have read permissions"
  | .cannotWrite path details =>
    withHint ("Failed to write to file: " ++ path ++ "\nDetails: " ++ details)
      "Please verify that the directory exists and you have write permissions"
  | .invalidSelector selector reason =>
    withHint ("Invalid module selector '" ++ selector ++ "': " ++ reason)
      "Use GROUP:MODULE or GROUP:MODULE:VERSION (e.g. junit:junit)"
  | .invalid message => "Validation error: " ++ message
  | .insecure path reason hint =>
    withHint ("Security violation: " ++ path ++ "\nReason: " ++ reason) hint

/-- What is behind a problem. -/
inductive Cause
  | failure (failure : Failure)
  | json (fault : Json.LocatedFault)
  | yaml (fault : Yaml.Fault)
  | file (fault : FileFault)
  | plain (message : String)
  deriving DecidableEq, Repr

def Cause.message : Cause → String
  | .failure f => f.message
  | .json f => f.message
  | .yaml f => f.message
  | .file f => f.message
  | .plain message => message

/-- A cause and what was being done when it came up, outermost first. -/
structure Problem where
  contexts : List String
  cause : Cause
  deriving DecidableEq, Repr

namespace Problem

/-- All texts of a problem, outermost first. -/
def chain (problem : Problem) : List String :=
  problem.contexts ++ [problem.cause.message]

/-- The outermost text. -/
def message (problem : Problem) : String :=
  problem.chain.headD ""

/-- The texts behind the outermost. -/
def causes (problem : Problem) : List String :=
  problem.chain.tail

/-- All texts in one line. -/
def details (problem : Problem) : String :=
  String.intercalate ": " problem.chain

/-- The problem as part of something larger. -/
def within (context : String) (problem : Problem) : Problem :=
  { problem with contexts := context :: problem.contexts }

end Problem

instance : Coe Failure Problem := ⟨fun failure => ⟨[], .failure failure⟩⟩

instance : Coe FileFault Problem := ⟨fun fault => ⟨[], .file fault⟩⟩

/-- A problem without a name of its own. -/
def Problem.plain (message : String) : Problem :=
  ⟨[], .plain message⟩

/-- The result of work that may end with a problem. -/
abbrev Attempt (α : Type) := Except Problem α

namespace Attempt

/-- A failure ends the work. -/
def fail {α : Type} (failure : Failure) : Attempt α :=
  .error failure

/-- Says what was being done. -/
def within {α : Type} (context : String) (attempt : Attempt α) : Attempt α :=
  attempt.mapError (.within context)

/-- The result of reading JSON. -/
def ofJson {α : Type} : Except Json.LocatedFault α → Attempt α
  | .ok a => .ok a
  | .error fault => .error ⟨[], .json fault⟩

end Attempt

end ComponentRules
