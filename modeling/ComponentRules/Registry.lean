import ComponentRules.Rule
import ComponentRules.Text.Quoted

/-!
# Registries

A registry holds rules in the order of registration, each with the components it is for. Applying
it to metadata runs the rules that are for its component and tells what was lost.

* `Registry.rulesFor`: the rules for a component.
* `Registry.apply`: the metadata after them, and the `Rewrite` that tells what they did.
* `Registry.shown`: a registry in one line.
-/

namespace ComponentRules

/-- The components a rule is for. -/
inductive Scope
  | everywhere
  | only (selector : Selector)
  deriving DecidableEq

namespace Scope

/-- Whether a component belongs to the scope. -/
def covers : Scope → Coordinate → Bool
  | .everywhere, _ => true
  | .only selector, c => selector.names c

/-- The scope of a selector, or all components. -/
def ofSelector : Option Selector → Scope
  | none => .everywhere
  | some selector => .only selector

def text : Scope → String
  | .everywhere => "*"
  | .only selector => selector.text

/-- A scope with the names of its parts. -/
def shown : Scope → String
  | .everywhere => "AllModules"
  | .only selector =>
    "Module(ModuleSelector \x7b group: " ++ Text.shown selector.group.text ++ ", module: " ++
      Text.shown selector.module.text ++ ", version: " ++
      (match selector.version with
        | none => "None"
        | some version => "Some(" ++ Text.shown version.text ++ ")") ++ " \x7d)"

end Scope

structure Registration where
  scope : Scope
  rule : Rule

/-- What a variant lost. -/
structure VariantChange where
  variant : String
  removed : List Declaration

/-- What the rules did to a component. -/
structure Rewrite where
  coordinate : Coordinate
  applied : List String
  changes : List VariantChange
  /-- Whether the metadata differs in any way. -/
  modified : Bool

/-- The declarations lost. -/
def Rewrite.removed (r : Rewrite) : List Declaration :=
  r.changes.flatMap (·.removed)

/-- The number of declarations lost. -/
def Rewrite.removedCount (r : Rewrite) : Nat :=
  r.removed.length

structure Registry where
  registrations : List Registration

namespace Registry

/-- A registry without rules. -/
def empty : Registry :=
  ⟨[]⟩

def size (registry : Registry) : Nat :=
  registry.registrations.length

def isEmpty (registry : Registry) : Bool :=
  registry.registrations.isEmpty

/-- Registers a rule behind the others. -/
def register (registry : Registry) (scope : Scope) (rule : Rule) : Registry :=
  ⟨registry.registrations ++ [⟨scope, rule⟩]⟩

/-- Registers a removal for the components it is restricted to. -/
def registerRemoval (registry : Registry) (removal : Removal) : Registry :=
  registry.register (.ofSelector removal.component) removal.rule

/-- The registry for those who ask for nothing else. -/
def default : Registry :=
  empty.registerRemoval .hamcrestCore

/-- Scope and name of each rule, in order. -/
def describe (registry : Registry) : List (Scope × String) :=
  registry.registrations.map fun r => (r.scope, r.rule.name)

def shown (registry : Registry) : String :=
  "[" ++ String.intercalate ", " (registry.describe.map fun (scope, name) =>
    "(" ++ scope.shown ++ ", " ++ Text.shown name ++ ")") ++ "]"

/-- The rules for a component, in order. -/
def rulesFor (registry : Registry) (c : Coordinate) : List Rule :=
  (registry.registrations.filter (·.scope.covers c)).map (·.rule)

/-- Metadata after some rules, one after the other. -/
def runAll (rules : List Rule) (m : Metadata) : Metadata :=
  rules.foldl (fun m rule => rule.run m) m

/-- The declarations of a variant that the variant of this name no longer has. -/
def lost (after : Metadata) (v : Variant) : List Declaration :=
  let now := match after.variant? v.name with
    | none => []
    | some w => w.dependencies
  v.dependencies.filter fun d => !now.any d.same

/-- What the variants lost, without those that lost nothing. -/
def changes (before after : Metadata) : List VariantChange :=
  (before.variants.map fun v => ⟨v.name, lost after v⟩).filter fun change =>
    !change.removed.isEmpty

/-- Runs the rules for the component. It fails only if the metadata has no coordinate. -/
def apply (registry : Registry) (m : Metadata) : Attempt (Rewrite × Metadata) := do
  let c ← m.coordinate
  let rules := registry.rulesFor c
  let after := runAll rules m
  pure (⟨c, rules.map (·.name), changes m after, !after.same m⟩, after)

end Registry

end ComponentRules
