import ComponentRules.Registry
import ComponentRules.Yaml.Reader

/-!
# Configuration

A configuration file lists removals: what to remove, and from which module. Fields that are not
known are reported and otherwise ignored.

* `Config.ofText`: the configuration in a text.
* `Config.check`: what a configuration must fulfil.
* `Config.removals`: the removals it asks for.
* `Config.registry`: the registry for a configuration and for the removals asked for besides it.
-/

namespace ComponentRules

open Yaml

/-- What to remove from one module, or from all. -/
structure ConfigRule where
  module : Option String
  removeDependencies : List String
  /-- The keys that are not known, in ascending order. -/
  unknown : List String
  deriving DecidableEq, Repr

structure Config where
  rules : Option (List ConfigRule)
  /-- The keys that are not known, in ascending order. -/
  unknown : List String
  deriving DecidableEq, Repr

namespace Config

/-- Adds a key to keys in ascending order. -/
def insertKey (key : String) : List String → List String
  | [] => [key]
  | k :: keys =>
    if key = k then k :: keys
    else if key < k then key :: k :: keys
    else k :: insertKey key keys

/-! ## Reading -/

/-- A field that may be there once in the mapping at a site. -/
def once {α : Type} (site : Site) (name : String) (current : Option α) (read : Walk α) :
    Walk (Option α) :=
  match current with
  | some _ => throw (.misfit (.repeatedField name) site)
  | none => some <$> read

/-- The fields that are not known so far: their keys in ascending order, and their values. -/
structure Extra where
  keys : List String
  values : List Datum

namespace Extra

def nothing : Extra :=
  ⟨[], []⟩

/-- One more field that is not known. -/
def add (room : Nat) (path : Path) (extra : Extra) (key : String) (value : Node) : Walk Extra := do
  let d ← Walk.datum room path value
  return ⟨insertKey key extra.keys, extra.values ++ [d]⟩

/-- No mapping in the values may repeat a key. -/
def check (extra : Extra) (site : Site) : Walk Unit :=
  match extra.values.findSome? Datum.repeated? with
  | some key => throw (.misfit (.repeatedKey key) site)
  | none => return ()

end Extra

/-- A string, from any scalar. -/
def string (path : Path) (n : Node) : Walk String :=
  String.ofList <$> Walk.text .string path n

/-- The name of a field. -/
def fieldName (path : Path) (n : Node) : Walk String :=
  String.ofList <$> Walk.text .fieldName path n

/-- The fields of a rule read so far. -/
structure RuleDraft where
  module : Option (Option String)
  removeDependencies : Option (List String)
  extra : Extra

/-- One more field of a rule. -/
def RuleDraft.add (room : Nat) (site : Site) (draft : RuleDraft) (pair : Node × Node) :
    Walk RuleDraft := do
  let key ← fieldName site.path pair.1
  let path := site.path.value pair.1
  if key = "module" then
    let module := Walk.optional site (string path) pair.2
    return { draft with module := ← once site key draft.module module }
  else if key = "remove_dependencies" then
    let names := Walk.sequence (fun _ path n => string path n) room path pair.2
    return { draft with removeDependencies := ← once site key draft.removeDependencies names }
  else return { draft with extra := ← draft.extra.add room path key pair.2 }

def readRule (room : Nat) (path : Path) (n : Node) : Walk ConfigRule := do
  let (room, site, pairs) ← Walk.pairs "RuleEntry" room path n
  let draft ← pairs.foldlM (RuleDraft.add room site) ⟨none, none, .nothing⟩
  draft.extra.check site
  return ⟨draft.module.join, draft.removeDependencies.getD [], draft.extra.keys⟩

/-- The fields read so far. -/
structure Draft where
  rules : Option (Option (List ConfigRule))
  extra : Extra

/-- One more field. -/
def Draft.add (room : Nat) (site : Site) (draft : Draft) (pair : Node × Node) : Walk Draft := do
  let key ← fieldName site.path pair.1
  let path := site.path.value pair.1
  if key = "rules" then
    let rules := Walk.optional site (Walk.sequence readRule room path) pair.2
    return { draft with rules := ← once site key draft.rules rules }
  else return { draft with extra := ← draft.extra.add room path key pair.2 }

def read (room : Nat) (path : Path) (n : Node) : Walk Config := do
  let (room, site, pairs) ← Walk.pairs "ConfigFile" room path n
  let draft ← pairs.foldlM (Draft.add room site) ⟨none, .nothing⟩
  draft.extra.check site
  return ⟨draft.rules.join, draft.extra.keys⟩

/-- The configuration that asks for nothing. -/
def empty : Config :=
  ⟨none, []⟩

/-- The configuration in a text. -/
def ofText (text : String) : Except Yaml.Fault Config :=
  readText empty read text

/-! ## What it asks for -/

/-- Whether there are rules. -/
def hasRules (config : Config) : Bool :=
  config.rules.any fun rules => !rules.isEmpty

/-- A field of a rule, for messages. -/
def ruleField (i : Nat) (field : String) : String :=
  "rules[" ++ Text.decimal i ++ "]." ++ field

/-- The removals of some names from the components of a selector; `i` is the number of the rule and
`j` that of the first name. -/
def removalsOf (selector : Option Selector) (i j : Nat) : List String → Attempt (List Removal)
  | [] => .ok []
  | name :: names => do
    let removal ← (Removal.ofName name).within
      ("Invalid config: " ++ ruleField i "remove_dependencies[" ++ Text.decimal j ++ "]")
    let more ← removalsOf selector i (j + 1) names
    pure (removal.restrict selector :: more)

/-- The removals of the rules from number `i` on. -/
def removalsFrom (i : Nat) : List ConfigRule → Attempt (List Removal)
  | [] => .ok []
  | rule :: rules => do
    let selector ← (rule.module.mapM Selector.parse).within
      ("Invalid config: " ++ ruleField i "module")
    let removals ← removalsOf selector i 0 rule.removeDependencies
    let more ← removalsFrom (i + 1) rules
    pure (removals ++ more)

/-- The removals asked for, in order. -/
def removals (config : Config) : Attempt (List Removal) :=
  removalsFrom 0 (config.rules.getD [])

/-! ## Checks -/

/-- The most rules a configuration may have. -/
def maxRules : Nat := 64

/-- The number of the first rule that removes nothing. -/
def idle? (rules : List ConfigRule) : Option Nat :=
  rules.findIdx? (·.removeDependencies.isEmpty)

/-- Checks the number of rules, then that none is idle, then the names and selectors. -/
def check (config : Config) : Attempt Unit :=
  match config.rules with
  | none => .ok ()
  | some rules =>
    if maxRules < rules.length then
      .error (.plain ("Invalid config: too many rules: " ++ Text.decimal rules.length ++
        " (maximum: " ++ Text.decimal maxRules ++ ")"))
    else match idle? rules with
      | some i =>
        .error (.plain (withHint
          ("Invalid config: " ++ ruleField i "remove_dependencies must not be empty.")
          "List at least one dependency name (e.g., \"hamcrest-core\")."))
      | none => do
        let _ ← config.removals
        pure ()

/-- The configuration in the file at `path`, which holds `content`. -/
def ofFile (path : String) (content : Except FileFault String) : Attempt Config := do
  let text ← match content with
    | .ok text => pure text
    | .error fault =>
      .error ⟨[withHint ("Failed to read config file: " ++ path)
        "Check that the file exists and is readable."], .file fault⟩
  let config ← match ofText text with
    | .ok config => pure config
    | .error fault =>
      .error ⟨[withHint ("Failed to parse config file: " ++ path)
        "Ensure the file contains valid YAML syntax."], .yaml fault⟩
  config.check
  pure config

/-- The warnings about keys that are not known in the rules from number `i` on. -/
def ruleWarnings (i : Nat) : List ConfigRule → List String
  | [] => []
  | rule :: rules =>
    (rule.unknown.map fun key =>
      "⚠️  Warning: Unknown field '" ++ ruleField i key ++ "' will be ignored.") ++
      ruleWarnings (i + 1) rules

/-- The warnings about keys that are not known. -/
def warnings (config : Config) : List String :=
  (config.unknown.map fun key =>
    "⚠️  Warning: Unknown config field '" ++ key ++ "' will be ignored.") ++
    ruleWarnings 0 (config.rules.getD [])

/-! ## Registries -/

/-- The registry for a configuration, for the removal of some names and for the module they are
removed from. Without any removal it is the default registry. -/
def registry (config : Option Config) (names : List String) (module : Option String) :
    Attempt Registry := do
  let configured ← match config with
    | some config => config.removals
    | none => pure []
  let selector ← module.mapM Selector.parse
  let named ← names.mapM fun name => do pure ((← Removal.ofName name).restrict selector)
  let registry := (configured ++ named).foldl Registry.registerRemoval .empty
  pure (if registry.isEmpty then .default else registry)

end Config

end ComponentRules
