import ComponentRules.Config
import ComponentRules.Files.Access

/-!
# Configuration files

* `Config.load`: the configuration in the file at a path.
* `Config.discover`: the configuration of a directory, if it has one.
-/

namespace ComponentRules.Config

/-- The name of the file that a directory's configuration is in. -/
def fileName : String := "metadata-rules.config.yml"

/-- The configuration in the file at a path. -/
def load (tree : FileTree) (path : String) : Attempt Config :=
  ofFile path (tree.readText path)

/-- The configuration of a directory. -/
def discover (tree : FileTree) (directory : String) : Attempt (Option Config) :=
  let path := Path.join directory fileName
  if tree.leads path then some <$> load tree path else pure none

end ComponentRules.Config
