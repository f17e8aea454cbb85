/-
Metadata as JSON. Every field is written, in the order of declaration; fields
with a default may be left out when metadata is read.
-/
import ResourceSql.Json.Decoding
import ResourceSql.Metadata.Basic

namespace ResourceSql

/-- The names of nullable columns and of the others. -/
def nullability (nullable : Bool) : String := if nullable then "Nullable" else "NonNullable"

/-- Reads whether a column is nullable. -/
def decodeNullability : Decoder Bool :=
  Decoder.oneOf false ([true, false].map fun nullable => (nullability nullable, nullable))

/-- The members of a map as the members of an object. -/
def NameMap.toJson {α : Type} (f : α → Json) (map : NameMap α) : Json :=
  .object (map.toList.map fun entry => (entry.1, f entry.2))

namespace ScalarType

def decode : Decoder ScalarType := Decoder.oneOf false (all.map fun t => (t.name, t))

end ScalarType

namespace Attribute

def toJson (a : Attribute) : Json :=
  .object [
    ("name", .string a.column),
    ("type", .string a.type.name),
    ("nullable", .string (nullability a.nullable)),
    ("enumType", .ofOption .string a.enumType)]

def decode : Decoder Attribute :=
  Decoder.record ["name", "type", "nullable", "enumType"] fun fields =>
    Attribute.mk
      <$> fields.required "name" Decoder.text
      <*> fields.required "type" ScalarType.decode
      <*> fields.withDefault "nullable" true decodeNullability
      <*> fields.optional "enumType" Decoder.text

end Attribute

namespace KeyColumn

def toJson (k : KeyColumn) : Json :=
  .object [
    ("column", .string k.column),
    ("atLeftSide", .bool k.atLeftSide),
    ("nullable", .string (nullability k.nullable))]

def decode : Decoder KeyColumn :=
  Decoder.record ["column", "atLeftSide", "nullable"] fun fields =>
    KeyColumn.mk
      <$> fields.required "column" Decoder.text
      <*> fields.required "atLeftSide" Decoder.flag
      <*> fields.withDefault "nullable" true decodeNullability

end KeyColumn

namespace RelationshipKind

def decode : Decoder RelationshipKind := Decoder.oneOf false ([toOne, toMany].map fun k => (k.name, k))

end RelationshipKind

namespace DeleteBehavior

def decode : Decoder DeleteBehavior :=
  Decoder.oneOf false ([cascade, setNull, restrict].map fun b => (b.name, b))

end DeleteBehavior

namespace Relationship

def toJson (r : Relationship) : Json :=
  .object [
    ("target", .string r.target),
    ("kind", .string r.kind.name),
    ("foreignKey", r.foreignKey.toJson),
    ("deleteBehavior", .string r.deleteBehavior.name)]

def decode : Decoder Relationship :=
  Decoder.record ["target", "kind", "foreignKey", "deleteBehavior"] fun fields =>
    Relationship.mk
      <$> fields.required "target" Decoder.text
      <*> fields.required "kind" RelationshipKind.decode
      <*> fields.required "foreignKey" KeyColumn.decode
      <*> fields.withDefault "deleteBehavior" .restrict DeleteBehavior.decode

end Relationship

namespace ResourceType

def toJson (t : ResourceType) : Json :=
  .object [
    ("schemaName", .ofOption .string t.schema),
    ("tableName", .string t.table),
    ("primaryKey", .string t.primaryKey),
    ("columns", t.attributes.toJson Attribute.toJson),
    ("relationships", t.relationships.toJson Relationship.toJson)]

def decode : Decoder ResourceType :=
  Decoder.record ["schemaName", "tableName", "primaryKey", "columns", "relationships"] fun fields =>
    ResourceType.mk
      <$> fields.optional "schemaName" Decoder.text
      <*> fields.required "tableName" Decoder.text
      <*> fields.required "primaryKey" Decoder.text
      <*> fields.required "columns" (Decoder.map Attribute.decode)
      <*> fields.withDefault "relationships" .empty (Decoder.map Relationship.decode)

end ResourceType

namespace EnumType

def toJson (t : EnumType) : Json := .object [("members", .strings t.members)]

def decode : Decoder EnumType :=
  Decoder.record ["members"] fun fields =>
    EnumType.mk <$> fields.required "members" (Decoder.list Decoder.text)

end EnumType

namespace Metadata

def toJson (m : Metadata) : Json :=
  .object [
    ("resources", m.resources.toJson ResourceType.toJson),
    ("enumTypes", m.enumTypes.toJson EnumType.toJson)]

def decode : Decoder Metadata :=
  Decoder.record ["resources", "enumTypes"] fun fields =>
    Metadata.mk
      <$> fields.required "resources" (Decoder.map ResourceType.decode)
      <*> fields.withDefault "enumTypes" .empty (Decoder.map EnumType.decode)

end Metadata

end ResourceSql
