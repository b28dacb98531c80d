import ComponentRules.Text.Split

/-!
# Paths

A path is a text; what it names is found by its parts between the slashes. Empty parts and parts
that are a single point do not count, but for a point at the beginning.

* `Path.fileName?`: the name of what a path leads to.
* `Path.parent?`: the path without its last part.
* `Path.join`: a name inside a directory.
-/

namespace ComponentRules.Path

/-- Whether a part of a path names nothing. -/
def isIdle (part : List Char) : Bool :=
  part == [] || part == ['.']

/-- The parts that count. -/
def parts (path : String) : List (List Char) :=
  (Text.splitOn '/' path.toList).filter fun part => !isIdle part

/-- The last part, if it is a name and does not lead upwards. -/
def fileName? (path : String) : Option String :=
  match (parts path).getLast? with
  | none => none
  | some part => if part = ['.', '.'] then none else some (String.ofList part)

/-- A list of parts without the idle ones at its end. -/
def dropIdle (parts : List (List Char)) : List (List Char) :=
  (parts.reverse.dropWhile isIdle).reverse

/-- The slash of an absolute path, or the point at the beginning of a relative one. -/
def lead : List Char → List Char
  | '/' :: _ => ['/']
  | ['.'] => ['.']
  | '.' :: '/' :: _ => ['.']
  | _ => []

/-- The path without its last part; nothing if there is none. -/
def parent? (path : String) : Option String :=
  let start := lead path.toList
  let parts := dropIdle (Text.splitOn '/' (path.toList.drop start.length))
  match parts, start with
  | [], ['.'] => some ""
  | [], _ => none
  | parts, start => some (String.ofList (start ++ Text.joinWith '/' (dropIdle parts.dropLast)))

/-- A name inside a directory. -/
def join (directory name : String) : String :=
  if directory.isEmpty then name
  else if directory.toList.getLast? = some '/' then directory ++ name
  else directory ++ "/" ++ name

end ComponentRules.Path
