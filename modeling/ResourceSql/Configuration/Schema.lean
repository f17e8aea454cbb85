/-
The JSON schema of configurations.
-/
import ResourceSql.Configuration.Document

namespace ResourceSql.Schema

def typeMember (type : String) : String × Json := ("type", .string type)

def description (text : String) : String × Json := ("description", .string text)

/-- The schema that only names a type. -/
def ofType (type : String) : Json := .object [typeMember type]

/-- The schema that is defined under a name. -/
def reference (name : String) : Json := .object [("$ref", .string ("#/definitions/" ++ name))]

/-- A defined schema, with a value for a member that is left out. -/
def withDefault (name : String) (default : Json) : Json :=
  .object [("default", default), ("allOf", .array [reference name])]

/-- An optional text. -/
def optionalText (details : List (String × Json)) : Json :=
  .object (details ++ [("default", .null), ("type", .strings ["string", "null"])])

/-- The members of the schema for objects with certain members, of which some are required. -/
def recordMembers (details : List (String × Json)) (required : List String)
    (members : List (String × Json)) : List (String × Json) :=
  details ++ [typeMember "object", ("required", .strings required),
    ("properties", .object members)]

def record (details : List (String × Json)) (required : List String)
    (members : List (String × Json)) : Json :=
  .object (recordMembers details required members)

/-- An object with any names, and values of one schema. -/
def mapMembers (value : Json) : List (String × Json) :=
  [typeMember "object", ("additionalProperties", value)]

def choice (details : List (String × Json)) (names : List String) : Json :=
  .object (details ++ [typeMember "string", ("enum", .strings names)])

def dialect : Json :=
  choice [description "The relational database a statement is rendered for."]
    (Dialect.all.map Dialect.name)

def metadata : Json :=
  record [description "Metadata information."] ["resources"] [
    ("resources", reference "ResourcesInfo"),
    ("enumTypes", withDefault "EnumTypes" (.object []))]

def resources : Json :=
  .object (description "Mapping from a resource type name to its information." ::
    mapMembers (reference "ResourceInfo"))

def resource : Json :=
  record [description "Information about a resource type and the table that stores it."]
    ["columns", "primaryKey", "tableName"] [
    ("schemaName", optionalText []),
    ("tableName", ofType "string"),
    ("primaryKey", .object [description "The attribute that identifies a resource.",
      typeMember "string"]),
    ("columns", .object (description "Attributes by their exposed name." ::
      mapMembers (reference "ColumnInfo"))),
    ("relationships", .object (("default", .object []) ::
      mapMembers (reference "RelationshipInfo")))]

def nullable : String × Json :=
  ("nullable", withDefault "Nullable" (.string (nullability true)))

def column : Json :=
  record [description "Information about a database column."] ["name", "type"] [
    ("name", ofType "string"),
    ("type", reference "ScalarType"),
    nullable,
    ("enumType", optionalText
      [description "The declared enum type, for columns of type \x60enum\x60."])]

def scalarType : Json :=
  .object [description "The scalar types supported by the Engine.",
    ("oneOf", .array [
      choice [] ((ScalarType.all.filter (· ≠ .enum)).map ScalarType.name),
      choice [description "A member of one of the declared [\x60EnumTypes\x60]."]
        [ScalarType.enum.name]])]

def nullabilities : Json :=
  choice [description "Can this column contain null values"] ([true, false].map nullability)

def relationship : Json :=
  record [description
      "A navigation from one resource type (the left side) to another (the right side)."]
    ["foreignKey", "kind", "target"] [
    ("target", .object [description "The resource type on the right side.", typeMember "string"]),
    ("kind", reference "RelationshipKind"),
    ("foreignKey", reference "ForeignKeyInfo"),
    ("deleteBehavior", withDefault "DeleteBehavior" (.string DeleteBehavior.restrict.name))]

def relationshipKind : Json :=
  choice [] ([RelationshipKind.toOne, .toMany].map RelationshipKind.name)

def foreignKey : Json :=
  record [description <|
      "The column that realizes a relationship.\n\nWhen \x60at_left_side\x60 is set, the column " ++
      "lives in the table of the declaring resource and references the primary key of the " ++
      "target. Otherwise it lives in the target table and references the primary key of the " ++
      "declaring resource."]
    ["atLeftSide", "column"] [
    ("column", ofType "string"),
    ("atLeftSide", ofType "boolean"),
    nullable]

def deleteBehavior : Json :=
  choice [description
      "What happens to dependent rows on the other side when a resource is deleted."]
    ([DeleteBehavior.cascade, .setNull, .restrict].map DeleteBehavior.name)

def enumTypes : Json :=
  .object (description "Mapping from an enum type name to its members." ::
    mapMembers (reference "EnumTypeInfo"))

def enumType : Json :=
  record [] ["members"] [
    ("members", .object [typeMember "array", ("items", ofType "string")])]

def version : Json :=
  .object [typeMember "integer", ("format", .string "uint32"),
    ("minimum", .ofDouble (.zero false))]

/-- The metadata of a configuration that gives none, its members in ascending order. -/
def emptyMetadata : Json := .object [("enumTypes", .object []), ("resources", .object [])]

def configuration : List (String × Json) :=
  recordMembers [("$schema", .string "http://json-schema.org/draft-07/schema#"),
      ("title", .string "ParsedConfiguration"),
      description <| "Initial configuration, just enough to describe the database and the " ++
        "resources mapped onto it."]
    ["version"] [
    ("version", version),
    ("dialect", withDefault "Dialect" (.string Dialect.postgreSql.name)),
    ("metadata", withDefault "Metadata" emptyMetadata)]

def definitions : Json :=
  .object [
    ("Dialect", dialect),
    ("Metadata", metadata),
    ("ResourcesInfo", resources),
    ("ResourceInfo", resource),
    ("ColumnInfo", column),
    ("ScalarType", scalarType),
    ("Nullable", nullabilities),
    ("RelationshipInfo", relationship),
    ("RelationshipKind", relationshipKind),
    ("ForeignKeyInfo", foreignKey),
    ("DeleteBehavior", deleteBehavior),
    ("EnumTypes", enumTypes),
    ("EnumTypeInfo", enumType)]

/-- The schema of configurations, with the definitions it refers to. -/
def document : Json := .object (configuration ++ [("definitions", definitions)])

def text : String := document.toPrettyText ++ "\n"

end ResourceSql.Schema
