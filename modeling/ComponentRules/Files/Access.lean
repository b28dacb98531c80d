import ComponentRules.Failure
import ComponentRules.Files.Path
import ComponentRules.Files.Tree

/-!
# Guarded access to files

Metadata is read from regular files of a bounded size only, and written to a path only if no link
and no directory is there. A written file is complete or not there at all.

* `FileTree.inspect`: the size of a file that may be read.
* `FileTree.readMetadata`: the text of such a file.
* `FileTree.write`: the tree after a file was written.
-/

namespace ComponentRules.FileTree

/-- The most bytes of a metadata file. -/
def maxFileSize : Nat := 100 * 1024 * 1024

/-! ## Reading -/

/-- The size of the file at a path, if it may be read. A link there is not followed. -/
def inspect (tree : FileTree) (limit : Nat) (path : String) : Attempt Nat :=
  match tree.look false path with
  | .error .notFound => .fail (.metadataNotFound path)
  | .error fault => .fail (.cannotRead path fault.message)
  | .ok (.link _) =>
    .fail (.insecure path "Input is a symbolic link"
      "Pass the resolved file path instead of the link")
  | .ok .directory => .fail (.cannotRead path "Not a regular file")
  | .ok (.file content _) =>
    if limit < content.size then
      .fail (.insecure path
        ("File is too large (" ++ Text.decimal content.size ++
          " bytes). Maximum allowed size is " ++ Text.decimal limit ++ " bytes")
        "Module metadata files are small JSON documents; check the input path")
    else .ok content.size

/-- The text of the file that a path leads to. -/
def readText (tree : FileTree) (path : String) : Except FileFault String := do
  let entry ← tree.look true path
  if !entry.isReadable then .error .permissionDenied
  else match entry with
    | .file content _ =>
      match String.fromUTF8? content with
      | some text => .ok text
      | none => .error .notText
    | _ => .error .isDirectory

/-- The text of a metadata file. -/
def readMetadata (tree : FileTree) (limit : Nat) (path : String) : Attempt String := do
  let _ ← tree.inspect limit path
  match tree.readText path with
  | .ok text => .ok text
  | .error fault => .fail (.cannotRead path fault.message)

/-! ## Writing -/

/-- Refuses a path where a link or a directory is. -/
def checkOutput (tree : FileTree) (path : String) : Attempt Unit :=
  match tree.look false path with
  | .ok (.link _) =>
    .fail (.insecure path "Output path is a symbolic link" "Write to a regular file path")
  | .ok .directory => .fail (.cannotWrite path "Output path is a directory")
  | _ => .ok ()

/-- The directory that a path is in, as a path. -/
def directoryOf (path : String) : String :=
  match Path.parent? path with
  | some "" => "."
  | some parent => parent
  | none => "."

/-- The mode of a file that was not there before: all may read and write it but for the mask. -/
def newFileMode (tree : FileTree) : Nat :=
  0o666 &&& (0o777 ^^^ tree.mask)

/-- The mode that a file at a location will have: its old one, if it is there. -/
def modeAt (tree : FileTree) (location : Location) : Nat :=
  match tree.find? location with
  | some (.file _ mode) => mode
  | _ => tree.newFileMode

/-- The tree after a text was written to a path. -/
def write (tree : FileTree) (path content : String) : Attempt FileTree := do
  tree.checkOutput path
  if !tree.isDirectory (directoryOf path) then
    .fail (.cannotWrite path ("Parent directory does not exist: " ++ directoryOf path))
  else match tree.target path with
    | .error fault => .fail (.cannotWrite path fault.message)
    | .ok location => .ok (tree.put location (.file content.toUTF8 (tree.modeAt location)))

end ComponentRules.FileTree
