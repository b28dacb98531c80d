/-!
# What the file system answers instead of a file

* `FileFault`: why a path cannot be used.
* `FileFault.message`: the same in words, with the number of the system's error where it has one.
-/

namespace ComponentRules

inductive FileFault
  | notFound
  | permissionDenied
  | invalidArgument
  | notDirectory
  | isDirectory
  | nameTooLong
  | tooManyLinks
  | nulInPath
  | notText
  deriving DecidableEq, Repr

def FileFault.message : FileFault → String
  | .notFound => "No such file or directory (os error 2)"
  | .permissionDenied => "Permission denied (os error 13)"
  | .invalidArgument => "Invalid argument (os error 22)"
  | .notDirectory => "Not a directory (os error 20)"
  | .isDirectory => "Is a directory (os error 21)"
  | .nameTooLong => "File name too long (os error 36)"
  | .tooManyLinks => "Too many levels of symbolic links (os error 40)"
  | .nulInPath => "file name contained an unexpected NUL byte"
  | .notText => "stream did not contain valid UTF-8"

end ComponentRules
