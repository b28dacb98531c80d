import ComponentRules.Json.Printer
import ComponentRules.Metadata.Document

/-!
# The module metadata format

Metadata files hold JSON. Only major version 1 of the format is understood, the component must
have a coordinate and every variant a name.

* `Metadata.decode`: the metadata of a text that fulfils all this.
* `Metadata.encode`: the text of metadata, with a line for each item.
-/

namespace ComponentRules.Metadata

/-- The major version of the format that is understood. -/
def supportedMajor : String := "1"

/-- The part of a format version before its first point. -/
def majorVersion (formatVersion : String) : String :=
  String.ofList (formatVersion.toList.takeWhile (· != '.'))

/-- The metadata in a text, whatever its texts are. -/
def ofJson (text : String) : Attempt Metadata :=
  Attempt.ofJson (Json.read reader text)

/-- The metadata in a text. -/
def decode (text : String) : Attempt Metadata := do
  let m ← (ofJson text).within "Invalid module metadata JSON"
  if majorVersion m.formatVersion ≠ supportedMajor then
    .error (.plain ("Unsupported formatVersion '" ++ m.formatVersion ++ "' (expected " ++
      supportedMajor ++ ".x)"))
  else
    let _ ← m.coordinate.within "Invalid component block"
    if m.variants.any fun v => Text.isBlankText v.name then
      .error (.plain "Variant names must not be empty")
    else pure m

/-- The text of metadata. It ends with a line break. -/
def encode (m : Metadata) : String :=
  m.toValue.pretty ++ "\n"

end ComponentRules.Metadata
