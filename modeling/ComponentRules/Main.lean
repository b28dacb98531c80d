import ComponentRules.Run

/-!
# The program

What is around `run`: the part of the file system that a command line names becomes a file tree;
after the run, its texts are printed and the files that it changed are written.

* `FileTree.observe`: takes over what stands along a path.
* `FileTree.store`: writes the files of a tree, each by way of a file beside it.
* `main`: the program.
-/

namespace ComponentRules.FileTree

/-- The absolute path of a location. -/
def pathOf (location : Location) : String :=
  "/" ++ String.ofList (Text.joinWith '/' location)

/-! ## From the file system -/

/-- A mode that stands for that of a file that can be read. The system tells no modes here, and a
run asks for no more of a mode than this. -/
def readableMode : Nat := 0o600

/-- A mode that stands for that of a file that cannot be read. -/
def unreadableMode : Nat := 0

/-- What is at a location. A link is taken for one to where it leads in the end, and to nowhere if
it does not lead to anything. -/
def entryAt (location : Location) : IO (Option Entry) := do
  let path := (← IO.currentDir) / pathOf location
  match ← path.symlinkMetadata.toBaseIO with
  | .error _ => pure none
  | .ok found =>
    match found.type with
    | .file =>
      match ← (IO.FS.readBinFile path).toBaseIO with
      | .ok content => pure (some (.file content readableMode))
      | .error _ => pure (some (.file .empty unreadableMode))
    | .symlink =>
      match ← (IO.FS.realPath path).toBaseIO with
      | .ok target => pure (some (.link target.toString))
      | .error _ => pure (some (.link ""))
    | _ => pure (some .directory)

/-- Takes over what stands along some steps, as far as they lead. -/
def observeSteps (tree : FileTree) (links : Nat) (here : Location) :
    List (List Char) → IO FileTree
  | [] => pure tree
  | step :: steps =>
    if step = ['.'] then observeSteps tree links here steps
    else if step = ['.', '.'] then observeSteps tree links here.dropLast steps
    else do
      let there := here ++ [step]
      match ← entryAt there with
      | none => pure tree
      | some .directory => observeSteps (tree.put there .directory) links there steps
      | some (.file content mode) => pure (tree.put there (.file content mode))
      | some (.link target) =>
        let tree := tree.put there (.link target)
        match links with
        | 0 => pure tree
        | links + 1 =>
          observeSteps tree links (origin here target) (FileTree.steps target ++ steps)
termination_by steps => (links, steps.length)

/-- Takes over what stands along a path. -/
def observe (tree : FileTree) (path : String) : IO FileTree :=
  tree.observeSteps maxLinks (origin tree.home path) (steps path)

/-- The mask of a process whose mask is not shown. -/
def usualMask : Nat := 0o022

/-- The number that some octal digits are. -/
def ofOctal (digits : List Char) : Nat :=
  digits.foldl (fun n c => n * 8 + (c.toNat - '0'.toNat)) 0

/-- The mask in what the system shows about a process. -/
def maskIn (status : String) : Nat :=
  match (Text.splitOn '\n' status.toList).find? ("Umask:".toList.isPrefixOf ·) with
  | some line => ofOctal (line.filter Char.isDigit)
  | none => usualMask

/-- The mask of this process. -/
def readMask : IO Nat := do
  match ← (IO.FS.readFile "/proc/self/status").toBaseIO with
  | .ok status => pure (maskIn status)
  | .error _ => pure usualMask

/-! ## To the file system -/

/-- Does what the system may refuse, and tells whether it was done. -/
def isDone (action : IO Unit) : IO Bool := do
  match ← action.toBaseIO with
  | .ok () => pure true
  | .error _ => pure false

/-- Writes a file by way of a file of a fresh name in its directory, so that its path leads to a
complete file at any time. A mode can neither be asked for nor copied here, but an old file has its
own: it is kept under a second fresh name, and when the new content stands at the path, the old file
is given the same and takes its place back. An old file that may not be written, or that has other
names, is not kept. -/
def storeFile (isNew : Bool) (location : Location) (content : ByteArray) : IO Unit := do
  let directory := (← IO.currentDir) / pathOf location.dropLast
  let path := directory / String.ofList (location.getLast?.getD [])
  let others := (← directory.readDir).toList.map (·.fileName.toList)
  let name := freshName others
  let staged := directory / String.ofList name
  let kept := directory / String.ofList (freshName (name :: others))
  let isKept ← do
    if isNew then pure false
    else if (← path.metadata).numLinks != 1 then pure false
    else isDone (IO.FS.hardLink path kept)
  try
    let handle ← IO.FS.Handle.mk staged .writeNew
    handle.write content
    handle.flush
    IO.FS.rename staged path
  catch fault =>
    [staged, kept].forM fun file => discard (isDone (IO.FS.removeFile file))
    throw fault
  if isKept then
    try
      IO.FS.writeBinFile kept content
      IO.FS.rename kept path
    catch _ => IO.FS.removeFile kept

/-- Writes the files that are not what they were in an earlier tree. -/
def store (before after : FileTree) : IO Unit :=
  (before.changes after).forM fun (location, content) =>
    storeFile (before.find? location).isNone location content

end ComponentRules.FileTree

open ComponentRules in
/-- The program. What the system refuses is reported like any other problem. -/
def main (arguments : List String) : IO UInt32 := do
  let paths := match Options.parse arguments with
    | .ok options => options.paths
    | .error _ => []
  try
    let home := FileTree.bare (FileTree.names (← IO.currentDir).toString) (← FileTree.readMask)
    let before ← paths.foldlM FileTree.observe home
    let outcome := run before arguments
    IO.eprint outcome.stderr
    before.store outcome.tree
    IO.print outcome.stdout
    pure outcome.exit.number.toUInt32
  catch fault =>
    IO.eprint (Problem.plain (toString fault)).report
    pure ExitCode.applicationError.number.toUInt32
