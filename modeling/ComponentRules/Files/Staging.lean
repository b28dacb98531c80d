import ComponentRules.Files.Access

/-!
# Staged writing

A text goes to its path by way of a file beside it. This file has a name that stands nowhere else;
it is filled, takes over the mode of the file that it will replace and is then moved to the path. If
it cannot be moved, it is deleted.

* `FileTree.freshName`: a name that stands nowhere else.
* `FileTree.writeAs`: writing by way of a file of a given name.
* `FileTree.writeStaged`: writing by way of a file of a fresh name.
-/

namespace ComponentRules.FileTree

/-! ## Deleting and moving -/

/-- Removes what is at a location. -/
def erase (tree : FileTree) (location : Location) : FileTree :=
  { tree with entries := tree.entries.filter fun old => old.1 != location }

/-- Moves what is at a location to another one, in place of what is there. -/
def move (tree : FileTree) (source destination : Location) : FileTree :=
  match tree.find? source with
  | none => tree
  | some entry => (tree.erase source).put destination entry

/-! ## Names for staged files -/

/-- The names in a tree, with those in the targets of its links. -/
def mentioned (tree : FileTree) : List (List Char) :=
  tree.home ++ tree.entries.flatMap fun (location, entry) =>
    match entry with
    | .link target => location ++ steps target
    | _ => location

/-- A name for a staged file. -/
def stagedName (number : Nat) : List Char :=
  ['.', 't', 'm', 'p'] ++ List.replicate number '0'

/-- The first name for a staged file that is not among others. -/
def freshName (others : List (List Char)) : List Char :=
  let numbers := List.range (others.length + 1)
  stagedName ((numbers.find? fun number => !others.contains (stagedName number)).getD 0)

/-! ## Writing -/

/-- The location of the directory that a path leads to. -/
def directoryAt? (tree : FileTree) (path : String) : Option Location :=
  match tree.resolve true path with
  | .error _ => none
  | .ok location =>
    match tree.find? location with
    | some .directory => some location
    | _ => none

/-- The mode of the file that a path leads to, if there is one. -/
def modeOf (tree : FileTree) (path : String) : Nat :=
  match tree.look true path with
  | .ok (.file _ mode) => mode
  | _ => tree.newFileMode

/-- Writes a text to a path by way of a file of a given name in its directory: the tree afterwards,
and whether it was written. The path of the staged file has no limit of its own here: a directory
whose path is almost `pathLimit` bytes long takes the staged file like any other. -/
def writeAs (tree : FileTree) (name : List Char) (path content : String) :
    FileTree × Attempt Unit :=
  match tree.checkOutput path with
  | .error problem => (tree, .error problem)
  | .ok () =>
    match tree.directoryAt? (directoryOf path) with
    | none =>
      (tree, .fail (.cannotWrite path ("Parent directory does not exist: " ++ directoryOf path)))
    | some directory =>
      let staged := directory ++ [name]
      let created := tree.put staged (.file content.toUTF8 tree.newFileMode)
      let filled := created.put staged (.file content.toUTF8 (created.modeOf path))
      match filled.target path with
      | .error fault => (filled.erase staged, .fail (.cannotWrite path fault.message))
      | .ok location => (filled.move staged location, .ok ())

/-- Writes a text to a path by way of a file of a fresh name. -/
def writeStaged (tree : FileTree) (path content : String) : FileTree × Attempt Unit :=
  tree.writeAs (freshName (tree.mentioned ++ steps path)) path content

end ComponentRules.FileTree
