/-
Configurations and the documents that hold them.
-/
import ResourceSql.Configuration.Consistency
import ResourceSql.Dialect
import ResourceSql.Json.Printer
import ResourceSql.Json.Text
import ResourceSql.Metadata.Document

namespace ResourceSql

namespace Dialect

def decode : Decoder Dialect := Decoder.oneOf false (all.map fun d => (d.name, d))

end Dialect

/-- A configuration: the resources, and the database that stores them. -/
structure Configuration where
  version : Nat
  dialect : Dialect
  metadata : Metadata
  deriving DecidableEq

/-- Why a document holds no configuration that can be used. -/
inductive ConfigurationError where
  | refused (fault : Fault)
  | unsupportedVersion (found : Nat)
  deriving DecidableEq

namespace Configuration

/-- The version of configurations that is supported. -/
def currentVersion : Nat := 1

def empty : Configuration := ⟨currentVersion, .postgreSql, .empty⟩

def decode : Decoder Configuration :=
  Decoder.record ["version", "dialect", "metadata"] fun fields =>
    Configuration.mk
      <$> fields.required "version" Decoder.count
      <*> fields.withDefault "dialect" .postgreSql Dialect.decode
      <*> fields.withDefault "metadata" .empty Metadata.decode

/-- Reads a configuration of the supported version. -/
def ofText (text : String) : Except ConfigurationError Configuration :=
  match decode.ofText text with
  | .ok configuration =>
    if configuration.version = currentVersion then .ok configuration
    else .error (.unsupportedVersion configuration.version)
  | .fault fault => .error (.refused fault)

def toJson (c : Configuration) : Json :=
  .object [
    ("version", .ofNat c.version),
    ("dialect", .string c.dialect.name),
    ("metadata", c.metadata.toJson)]

/-- The document of a configuration, which ends in a new line. -/
def toText (c : Configuration) : String := c.toJson.toPrettyText ++ "\n"

end Configuration

namespace ConfigurationError

/-- The message about a document in a file. -/
def message (file : String) : ConfigurationError → String
  | refused fault =>
    "parse error on " ++ file ++ ": line " ++ String.ofList (Digits.ofNat fault.place.line)
  | unsupportedVersion found =>
    "unsupported configuration version " ++ String.ofList (Digits.ofNat found) ++ ", expected " ++
      String.ofList (Digits.ofNat Configuration.currentVersion)

end ConfigurationError

end ResourceSql
