import ComponentRules.Text.Terminal

/-!
# Command lines

Files and options in any order. An option's value stands in the same argument or in the next one;
single-letter options can be joined. Behind two hyphens everything is a file.

* `Options`: what a command line asks for.
* `Options.parse`: the options of a list of arguments, without the name of the program.
* `Options.objection?`: what is wrong with options that are well-formed.
* `UsageFault.message`: what is wrong with other arguments.
-/

namespace ComponentRules

/-- What can be given on a command line. -/
inductive Parameter
  | files
  | config
  | remove
  | module
  | output
  | inPlace
  | check
  | quiet
  deriving DecidableEq, Repr

namespace Parameter

/-- The name of a parameter. -/
def name : Parameter → String
  | .files => "files"
  | .config => "config"
  | .remove => "remove"
  | .module => "module"
  | .output => "output"
  | .inPlace => "in-place"
  | .check => "check"
  | .quiet => "quiet"

/-- What stands for the value of a parameter that takes one. -/
def value? : Parameter → Option String
  | .files => some "<FILES>..."
  | .config | .output => some "<PATH>"
  | .remove => some "<NAME>"
  | .module => some "<GROUP:MODULE[:VERSION]>"
  | .inPlace | .check | .quiet => none

def takesValue (p : Parameter) : Bool :=
  p.value?.isSome

/-- How a parameter is shown. Files are given without a name. -/
def label (p : Parameter) : String :=
  match p, p.value? with
  | .files, value => value.getD ""
  | p, none => "--" ++ p.name
  | p, some value => "--" ++ p.name ++ " " ++ value

/-- Whether a parameter may be given several times. -/
def repeats : Parameter → Bool
  | .files | .remove => true
  | _ => false

/-- Whether the values are paths, which may not be empty. -/
def isPath : Parameter → Bool
  | .files | .config | .output => true
  | _ => false

/-- Whether a parameter says where the result goes. Only one of these may be given. -/
def isDestination : Parameter → Bool
  | .output | .inPlace | .check => true
  | _ => false

end Parameter

/-- An option: a parameter, or a question about the program. -/
inductive Switch
  | parameter (p : Parameter)
  | help (full : Bool)
  | version
  deriving DecidableEq, Repr

namespace Switch

/-- All options, in the order in which they are shown. Help can be asked for as a summary or in
full. -/
def all (full : Bool) : List Switch :=
  [.parameter .config, .parameter .remove, .parameter .module, .parameter .output,
    .parameter .inPlace, .parameter .check, .parameter .quiet, .help full, .version]

def name : Switch → String
  | .parameter p => p.name
  | .help _ => "help"
  | .version => "version"

/-- The letter that stands for an option, if there is one. -/
def letter? : Switch → Option Char
  | .parameter .config => some 'c'
  | .parameter .remove => some 'r'
  | .parameter .module => some 'm'
  | .parameter .output => some 'o'
  | .parameter .quiet => some 'q'
  | .parameter _ => none
  | .help _ => some 'h'
  | .version => some 'V'

/-- The option of a name. By its name, help is asked for in full. -/
def ofLong? (name : String) : Option Switch :=
  (all true).find? (·.name == name)

/-- The option of a letter. By its letter, help is asked for as a summary. -/
def ofShort? (letter : Char) : Option Switch :=
  (all false).find? (·.letter? == some letter)

def label : Switch → String
  | .parameter p => p.label
  | s => "--" ++ s.name

/-- The parameter of an option that takes a value. -/
def valued? : Switch → Option Parameter
  | .parameter p => if p.takesValue then some p else none
  | _ => none

end Switch

/-- Why arguments are no command line, or what they ask for instead. -/
inductive UsageFault
  | help (full : Bool)
  | version
  | unknown (argument : String)
  | unneededValue (value : String) (s : Switch)
  | missingValue (p : Parameter)
  | repeated (p : Parameter)
  | conflict (p : Parameter) (others : List Parameter)
  | missing
  deriving DecidableEq, Repr

/-- The first line about a fault. Nothing in it that was given is obeyed by a terminal. -/
def UsageFault.message : UsageFault → String
  | .help _ | .version => ""
  | .unknown argument =>
    "unexpected argument '" ++ Text.Terminal.printed argument ++ "' found"
  | .unneededValue value s =>
    "unexpected value '" ++ Text.Terminal.printed value ++ "' for '" ++ s.label ++
      "' found; no more were expected"
  | .missingValue p => "a value is required for '" ++ p.label ++ "' but none was supplied"
  | .repeated p => "the argument '" ++ p.label ++ "' cannot be used multiple times"
  | .conflict p [other] =>
    "the argument '" ++ p.label ++ "' cannot be used with '" ++ other.label ++ "'"
  | .conflict p _ => "the argument '" ++ p.label ++ "' cannot be used with:"
  | .missing => "the following required arguments were not provided:"

/-! ## Arguments -/

/-- The parameters given so far, in order, and one whose values are still being collected. -/
structure Given where
  settled : List (Parameter × List String)
  pending : Option (Parameter × List String)

namespace Given

def nothing : Given :=
  ⟨[], none⟩

/-- Settles a parameter with its values. -/
def settle (g : Given) (p : Parameter) (values : List String) : Except UsageFault Given :=
  if p.takesValue && values.isEmpty then .error (.missingValue p)
  else if !p.repeats && g.settled.any (·.1 == p) then .error (.repeated p)
  else if p.isPath && values.any (·.isEmpty) then .error (.missingValue p)
  else .ok { g with settled := g.settled ++ [(p, values)] }

/-- Settles the pending parameter. -/
def flush (g : Given) : Except UsageFault Given :=
  match g.pending with
  | none => .ok g
  | some (p, values) => settle { g with pending := none } p values

/-- Whether the next argument is the value of an option. -/
def awaitsValue (g : Given) : Bool :=
  g.pending.any fun (p, values) => p != .files && values.isEmpty

/-- Adds a value to the pending parameter. -/
def addValue (g : Given) (value : String) : Given :=
  { g with pending := g.pending.map fun (p, values) => (p, values ++ [value]) }

/-- Adds a file. -/
def addFile (g : Given) (file : String) : Except UsageFault Given := do
  match g.pending with
  | some (.files, _) => pure (g.addValue file)
  | _ => pure { ← g.flush with pending := some (.files, [file]) }

/-- Adds an option that has no value of its own in its argument. -/
def addSwitch (g : Given) (s : Switch) : Except UsageFault Given := do
  let g ← g.flush
  match s with
  | .help full => .error (.help full)
  | .version => .error .version
  | .parameter p =>
    if p.takesValue then pure { g with pending := some (p, []) } else g.settle p []

/-- Adds an option with its value. -/
def addValued (g : Given) (p : Parameter) (value : String) : Except UsageFault Given := do
  (← g.flush).settle p [value]

/-- Adds an option of several letters, written behind two hyphens. -/
def addLong (g : Given) (text : List Char) : Except UsageFault Given :=
  let name := String.ofList (text.takeWhile (· != '='))
  match Switch.ofLong? name, text.dropWhile (· != '=') with
  | none, _ => .error (.unknown ("--" ++ name))
  | some s, [] => g.addSwitch s
  | some s, _ :: value =>
    match s.valued? with
    | some p => g.addValued p (String.ofList value)
    | none => .error (.unneededValue (String.ofList value) s)

/-- Adds options of one letter, written behind one hyphen. The first that takes a value takes all
that follows, without an equals sign in front. -/
def addShort (g : Given) : List Char → Except UsageFault Given
  | [] => .ok g
  | c :: rest =>
    match Switch.ofShort? c with
    | none => .error (.unknown (String.ofList ['-', c]))
    | some s =>
      match s.valued?, rest with
      | some p, '=' :: value => g.addValued p (String.ofList value)
      | some p, c :: value => g.addValued p (String.ofList (c :: value))
      | _, rest => do addShort (← g.addSwitch s) rest

/-- Adds an argument that stands before any two hyphens. -/
def addArgument (g : Given) (argument : String) : Except UsageFault Given :=
  match argument.toList with
  | '-' :: '-' :: text => g.addLong text
  | '-' :: c :: text => g.addShort (c :: text)
  | _ => if g.awaitsValue then .ok (g.addValue argument) else g.addFile argument

/-- Adds all arguments. -/
def addAll (g : Given) : List String → Except UsageFault Given
  | [] => g.flush
  | argument :: arguments => do
    if argument = "--" then (← arguments.foldlM addFile g).flush
    else addAll (← g.addArgument argument) arguments

/-- The values of a parameter. -/
def values (g : Given) (p : Parameter) : List String :=
  (g.settled.filter (·.1 == p)).flatMap (·.2)

/-- Whether a parameter was given. -/
def has (g : Given) (p : Parameter) : Bool :=
  g.settled.any (·.1 == p)

/-- The destinations given, in order. -/
def destinations (g : Given) : List Parameter :=
  (g.settled.map (·.1)).filter Parameter.isDestination

end Given

/-! ## Options -/

structure Options where
  files : List String
  config : Option String
  remove : List String
  module : Option String
  output : Option String
  inPlace : Bool
  check : Bool
  quiet : Bool
  deriving DecidableEq, Repr

namespace Options

/-- The options given, if they go together: at most one destination, at least one file, and a module
only if something is removed from it. -/
def ofGiven (g : Given) : Except UsageFault Options :=
  match g.destinations with
  | p :: other :: others => .error (.conflict p (other :: others))
  | _ =>
    if !g.has .files || (g.has .module && !g.has .remove) then .error .missing
    else .ok
      { files := g.values .files
        config := (g.values .config).head?
        remove := g.values .remove
        module := (g.values .module).head?
        output := (g.values .output).head?
        inPlace := g.has .inPlace
        check := g.has .check
        quiet := g.has .quiet }

/-- The options in some arguments. -/
def parse (arguments : List String) : Except UsageFault Options := do
  ofGiven (← Given.nothing.addAll arguments)

/-- Several files have no single result, so it can neither be printed nor go to one file. -/
def objection? (o : Options) : Option String :=
  if 1 < o.files.length && !o.inPlace && !o.check then
    if o.output.isSome then some "--output can only be used with a single input file"
    else some "Multiple input files require --in-place or --check"
  else none

end Options

end ComponentRules
