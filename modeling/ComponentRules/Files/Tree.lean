import ComponentRules.Files.Fault
import ComponentRules.Text.Split

/-!
# File trees

Directories, files and symbolic links below a root, the directory that relative paths start from,
and what new files do not permit. A path is followed name by name; links in it are replaced by their targets, but not more
often than `maxLinks`.

* `FileTree.find?`, `FileTree.put`: what is at a location, and putting something there.
* `FileTree.resolve`: the location that a path leads to. A link at its end may be followed or not.
* `FileTree.target`: the location at which a path would create a file.
* `FileTree.listing`: all that is below the working directory.
* `FileTree.changes`: the files that are not what they were.
-/

namespace ComponentRules

/-- The names from the root to an entry. -/
abbrev Location := List (List Char)

inductive Entry
  | directory
  | file (content : ByteArray) (mode : Nat)
  | link (target : String)
  deriving Inhabited

/-- Whether the owner of a file may read it. -/
def Entry.isReadable : Entry → Bool
  | .file _ mode => mode / 0o400 % 2 == 1
  | _ => true

structure FileTree where
  /-- The working directory. It and all directories above it are there in any case. -/
  home : Location
  /-- The permissions that a new file does not have. -/
  mask : Nat
  entries : List (Location × Entry)

namespace FileTree

/-! ## Entries -/

/-- What is at a location. -/
def find? (tree : FileTree) (location : Location) : Option Entry :=
  if location.isPrefixOf tree.home then some .directory
  else tree.entries.lookup location

/-- Puts an entry at a location, in place of what is there. -/
def put (tree : FileTree) (location : Location) (entry : Entry) : FileTree :=
  { tree with
    entries := (location, entry) :: tree.entries.filter fun old => old.1 != location }

theorem lookup_filter_ne {entries : List (Location × Entry)} {a b : Location} (h : b ≠ a) :
    (entries.filter fun old => old.1 != a).lookup b = entries.lookup b := by
  induction entries with
  | nil => rfl
  | cons e entries ih =>
    obtain ⟨c, entry⟩ := e
    by_cases hc : c = a
    · have : (b == c) = false := by simpa [hc] using h
      simp [hc, List.lookup_cons, ih, show (b == a) = false by simpa using h]
    · simp [hc, List.lookup_cons, ih]

theorem find?_put_self (tree : FileTree) {location : Location} (entry : Entry)
    (h : ¬ location.isPrefixOf tree.home) :
    (tree.put location entry).find? location = some entry := by
  simp [put, find?, h]

theorem find?_put_of_ne (tree : FileTree) {a b : Location} (entry : Entry) (h : b ≠ a) :
    (tree.put a entry).find? b = tree.find? b := by
  simp only [put, find?, List.lookup_cons, show (b == a) = false by simpa using h,
    lookup_filter_ne h]

/-! ## Paths -/

/-- The most bytes of a name. -/
def maxNameSize : Nat := 255

/-- The least number of bytes that is too many for a path. -/
def pathLimit : Nat := 4096

/-- How many links may be followed on the way. -/
def maxLinks : Nat := 40

def nameSize (name : List Char) : Nat :=
  (String.ofList name).utf8ByteSize

/-- The names in a path. -/
def names (path : String) : List (List Char) :=
  (Text.splitOn '/' path.toList).filter (· != [])

/-- Whether a path ends with a slash; then it leads to a directory. -/
def endsWithSlash (path : String) : Bool :=
  path.toList.getLast? == some '/'

/-- The steps of a path. A slash at the end is a step that stays in the directory. -/
def steps (path : String) : List (List Char) :=
  names path ++ if endsWithSlash path then [['.']] else []

/-- Where a path starts, seen from a directory: absolute paths start at the root. -/
def origin (directory : Location) (path : String) : Location :=
  if path.toList.head? = some '/' then [] else directory

/-- Takes the steps from a directory on. The last one may end at a link that is not followed. -/
def walk (tree : FileTree) (follow : Bool) (links : Nat) (here : Location) :
    List (List Char) → Except FileFault Location
  | [] => .ok here
  | step :: steps =>
    if step = ['.'] then walk tree follow links here steps
    else if step = ['.', '.'] then walk tree follow links here.dropLast steps
    else if maxNameSize < nameSize step then .error .nameTooLong
    else
      let there := here ++ [step]
      match tree.find? there with
      | none => .error .notFound
      | some .directory => walk tree follow links there steps
      | some (.file _ _) => if steps.isEmpty then .ok there else .error .notDirectory
      | some (.link target) =>
        if steps.isEmpty && !follow then .ok there
        else match links with
          | 0 => .error .tooManyLinks
          | links + 1 =>
            if target.isEmpty then .error .notFound
            else walk tree follow links (origin here target) (FileTree.steps target ++ steps)
termination_by steps => (links, steps.length)

/-- Why no path can be so written, if none can. -/
def pathFault? (path : String) : Option FileFault :=
  if path.toList.contains '\x00' then some .nulInPath
  else if path.isEmpty then some .notFound
  else if pathLimit ≤ path.utf8ByteSize then some .nameTooLong
  else none

/-- The location that a path leads to. -/
def resolve (tree : FileTree) (follow : Bool) (path : String) : Except FileFault Location :=
  match pathFault? path with
  | some fault => .error fault
  | none => tree.walk follow maxLinks (origin tree.home path) (steps path)

/-- What a path leads to. -/
def look (tree : FileTree) (follow : Bool) (path : String) : Except FileFault Entry := do
  let location ← tree.resolve follow path
  match tree.find? location with
  | some entry => .ok entry
  | none => .error .notFound

/-- Whether a path leads to anything. -/
def leads (tree : FileTree) (path : String) : Bool :=
  (tree.look true path).toOption.isSome

/-- Whether a path leads to a directory. -/
def isDirectory (tree : FileTree) (path : String) : Bool :=
  match tree.look true path with
  | .ok .directory => true
  | _ => false

/-- The location of the file that a file moved to this path becomes. Its directory must be there;
the path may not end with a slash or lead back. -/
def target (tree : FileTree) (path : String) : Except FileFault Location := do
  match pathFault? path with
  | some .nulInPath => .error .invalidArgument
  | some fault => .error fault
  | none =>
    match (names path).getLast? with
    | none => .error .isDirectory
    | some name =>
      let parent ← tree.walk true maxLinks (origin tree.home path)
        ((names path).dropLast ++ [['.']])
      if name = ['.'] ∨ name = ['.', '.'] then .error .isDirectory
      else if maxNameSize < nameSize name then .error .nameTooLong
      else if endsWithSlash path then .error .notDirectory
      else .ok (parent ++ [name])

/-! ## Whole trees -/

/-- A tree with nothing but the working directory. -/
def bare (home : Location) (mask : Nat) : FileTree :=
  ⟨home, mask, []⟩

/-- Makes the directories of some steps that are not there, and tells where they lead. -/
def makeDirectories (tree : FileTree) (here : Location) :
    List (List Char) → FileTree × Location
  | [] => (tree, here)
  | step :: steps =>
    match tree.walk true maxLinks here [step] with
    | .ok there => makeDirectories tree there steps
    | .error _ => makeDirectories (tree.put (here ++ [step]) .directory) (here ++ [step]) steps

/-- Adds an entry at a path, with the directories above it. -/
def add (tree : FileTree) (path : String) (entry : Entry) : FileTree :=
  match (names path).getLast? with
  | none => tree
  | some name =>
    let (tree, parent) := tree.makeDirectories (origin tree.home path) (names path).dropLast
    tree.put (parent ++ [name]) entry

/-- The path of a location below the working directory. -/
def pathBelow (home location : Location) : Option String :=
  if home.isPrefixOf location && home.length < location.length then
    some (String.ofList (Text.joinWith '/' (location.drop home.length)))
  else none

/-- All that is below the working directory, by path. Every file must be readable. -/
def listing (tree : FileTree) : Except FileFault (List (String × Entry)) :=
  let below := tree.entries.filterMap fun (location, entry) =>
    (pathBelow tree.home location).map fun path => (path, entry)
  if below.all fun (_, entry) => entry.isReadable then
    .ok (below.mergeSort fun a b => !decide (b.1 < a.1))
  else .error .permissionDenied

/-- Whether a file with these bytes is at a location. -/
def holds (tree : FileTree) (location : Location) (content : ByteArray) : Bool :=
  match tree.find? location with
  | some (.file old _) => old == content
  | _ => false

/-- The files of a tree that an earlier one does not hold. -/
def changes (before after : FileTree) : List (Location × ByteArray) :=
  after.entries.filterMap fun (location, entry) =>
    match entry with
    | .file content _ => if before.holds location content then none else some (location, content)
    | _ => none

end FileTree

end ComponentRules
