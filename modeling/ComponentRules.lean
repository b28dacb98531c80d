import ComponentRules.Batch
import ComponentRules.CommandLine
import ComponentRules.Config
import ComponentRules.ConfigFile
import ComponentRules.Coordinate
import ComponentRules.Failure
import ComponentRules.Files.Access
import ComponentRules.Files.Fault
import ComponentRules.Files.Path
import ComponentRules.Files.Staging
import ComponentRules.Files.Tree
import ComponentRules.Help
import ComponentRules.Json.Content
import ComponentRules.Json.Fault
import ComponentRules.Json.Node
import ComponentRules.Json.Number
import ComponentRules.Json.Printer
import ComponentRules.Json.Reader
import ComponentRules.Json.Token
import ComponentRules.Json.Value
import ComponentRules.Main
import ComponentRules.Metadata.Declaration
import ComponentRules.Metadata.Document
import ComponentRules.Metadata.Format
import ComponentRules.Metadata.Variant
import ComponentRules.Metadata.VersionConstraint
import ComponentRules.Number.Binary64
import ComponentRules.Number.Shortest
import ComponentRules.Registry
import ComponentRules.Rule
import ComponentRules.Run
import ComponentRules.Text.Blank
import ComponentRules.Text.Invisible
import ComponentRules.Text.Quoted
import ComponentRules.Text.Split
import ComponentRules.Text.Terminal
import ComponentRules.Yaml.Cursor
import ComponentRules.Yaml.Datum
import ComponentRules.Yaml.Fault
import ComponentRules.Yaml.Node
import ComponentRules.Yaml.Reader
import ComponentRules.Yaml.Real
import ComponentRules.Yaml.Scalar
import ComponentRules.Yaml.Tag
import ComponentRules.Yaml.Token
import ComponentRules.Proofs.Outcome
import ComponentRules.Proofs.Removals
import ComponentRules.Proofs.Targets
import ComponentRules.Proofs.Json.Equality
import ComponentRules.Proofs.Json.Numbers
import ComponentRules.Proofs.Json.Printed
import ComponentRules.Proofs.Json.Reading
import ComponentRules.Proofs.Json.Records
import ComponentRules.Proofs.Metadata.Declarations
import ComponentRules.Proofs.Metadata.Variants
import ComponentRules.Proofs.Metadata.Documents
import ComponentRules.Proofs.Metadata.Codec
import ComponentRules.Proofs.Metadata.Edits
import ComponentRules.Proofs.Metadata.Equality
import ComponentRules.Proofs.Rewriting
import ComponentRules.Proofs.Metadata.Values
import ComponentRules.Proofs.Metadata.Supported
import ComponentRules.Proofs.Metadata.Building
import ComponentRules.Proofs.Metadata.Unmodelled
import ComponentRules.Proofs.Reports
import ComponentRules.Proofs.Files.Directories
import ComponentRules.Proofs.Files.Writing
import ComponentRules.Proofs.Files.Staging
import ComponentRules.Proofs.Files.Effects
import ComponentRules.Proofs.Runs
import ComponentRules.Proofs.Modes
import ComponentRules.Proofs.Losses
import ComponentRules.Proofs.Batches
import ComponentRules.Proofs.Traces
import ComponentRules.Proofs.Configurations
import ComponentRules.Proofs.Additions
import ComponentRules.Proofs.Coordinates
import ComponentRules.Proofs.Selectors
import ComponentRules.Proofs.Destinations
import ComponentRules.Proofs.Files.Guarded
import ComponentRules.Proofs.Files.Replacing
import ComponentRules.Proofs.Quiet
import ComponentRules.Proofs.Removable
