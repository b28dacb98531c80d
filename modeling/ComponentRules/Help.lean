import ComponentRules.CommandLine
import ComponentRules.Text.Split

/-!
# Help

How the program is called, as a summary and in full. Both show what can be given and what it is for;
the full text says more about the program and has an empty line between any two options.

* `Parameter.about`, `Switch.about`: what a parameter or an option is for.
* `Help.wrap`: a text in lines of a bounded length.
* `Help.Item`: something that can be given. What it is for stands behind it, or below it if there
  is little room behind.
* `Help.lines`: the lines of the help.
-/

namespace ComponentRules

/-- What a parameter is for. -/
def Parameter.about : Parameter → String
  | .files => "Module metadata files to rewrite"
  | .config => "Path to a config file (defaults to ./metadata-rules.config.yml when present)"
  | .remove => "Remove dependencies with this module name from every variant " ++
      "Can be specified multiple times: -r hamcrest-core -r commons-logging"
  | .module => "Only apply --remove rules to this component (GROUP:MODULE[:VERSION])"
  | .output => "Output file path (if not specified, outputs to stdout)"
  | .inPlace => "Rewrite every input file in place"
  | .check => "Write nothing; exit with 1 when any file would change"
  | .quiet => "Suppress progress output"

namespace Switch

/-- What an option is for. -/
def about : Switch → String
  | .parameter p => p.about
  | .help false => "Print help (see more with '--help')"
  | .help true => "Print help (see a summary with '-h')"
  | .version => "Print version"

end Switch

namespace Help

/-- The width of the help, in characters. -/
def width : Nat := 100

/-- Puts words behind a line as long as they fit; the others go to further lines. -/
def fill (width : Nat) (line : List Char) : List (List Char) → List (List Char)
  | [] => [line]
  | word :: words =>
    if width < line.length + 1 + word.length then line :: fill width word words
    else fill width (line ++ ' ' :: word) words

/-- A text in lines that are no longer than a given width, unless a word is. -/
def wrap (width : Nat) (text : List Char) : List (List Char) :=
  match Text.splitOn ' ' text with
  | [] => []
  | word :: words => fill width word words

/-- Something that can be given, and what it is for. -/
structure Item where
  shown : List Char
  about : List Char

/-- The item of a parameter that is not an option. -/
def Item.ofParameter (p : Parameter) : Item :=
  ⟨p.label.toList, p.about.toList⟩

/-- The item of an option. -/
def Item.ofSwitch (s : Switch) : Item :=
  ⟨(match s.letter? with
    | some letter => ['-', letter, ',', ' ']
    | none => List.replicate 4 ' ') ++ s.label.toList, s.about.toList⟩

/-- The column at which it is said behind items what they are for. -/
def column (items : List Item) : Nat :=
  items.foldl (fun n item => max n item.shown.length) 0 + 4

/-- The column at which it is said below items what they are for. -/
def columnBelow : Nat := 10

/-- Whether it is said below items what they are for: so in the full text, and where one that needs
more than a line would have less than three fifths of the width. -/
def isBelow (full : Bool) (items : List Item) : Bool :=
  full || items.any fun item =>
    column items ≤ width && 2 * width < 5 * column items &&
      width < column items + item.about.length

/-- The lines of an item. -/
def Item.lines (below : Bool) (column : Nat) (item : Item) : List (List Char) :=
  let shown := [' ', ' '] ++ item.shown
  let indent := fun line => List.replicate column ' ' ++ line
  match below, wrap (width - column) item.about with
  | true, about => shown :: about.map indent
  | false, [] => [shown]
  | false, line :: about => (shown.rightpad column ' ' ++ line) :: about.map indent

/-- The lines of some items under a title. -/
def sectionOf (full : Bool) (title : String) (items : List Item) : List (List Char) :=
  let below := isBelow full items
  let blocks := items.map (·.lines below (if below then columnBelow else column items))
  title.toList :: (if full then blocks.intersperse [[]] else blocks).flatten

/-- What the program does. -/
def purpose : Bool → List String
  | false => ["Apply component metadata rules to Gradle Module Metadata files"]
  | true => ["Apply component metadata rules to Gradle Module Metadata (.module) files.", "",
      "Without --remove or a config file, the built-in rule strips hamcrest-core " ++
        "from every variant of junit:junit."]

/-- The lines of the help. -/
def lines (full : Bool) : List String :=
  let usage := "Usage: metadata-rules [OPTIONS] " ++ Parameter.files.label
  List.map String.ofList <|
    (purpose full).flatMap (wrap width ·.toList) ++ [[], usage.toList, []] ++
      sectionOf full "Arguments:" [.ofParameter .files] ++ [[]] ++
      sectionOf full "Options:" ((Switch.all full).map .ofSwitch)

end Help

end ComponentRules
