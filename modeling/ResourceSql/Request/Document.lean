/-
Requests as JSON.
-/
import ResourceSql.Json.Text
import ResourceSql.Request.Basic

namespace ResourceSql

namespace Comparison

def decode : Decoder Comparison := Decoder.oneOf true (all.map fun c => (c.name, c))

end Comparison

namespace TextMatch

def decode : Decoder TextMatch := Decoder.oneOf true (all.map fun m => (m.name, m))

end TextMatch

namespace Request

def decodePath : Decoder FieldPath := Decoder.list Decoder.text

namespace Operand

def decode (readBefore : Bool) : Decoder Operand :=
  Decoder.variant ["field", "value", "null", "count"] readBefore fun
    | "field" => Decoder.record ["path"] fun fields =>
        Operand.field <$> fields.required "path" decodePath
    | "value" => Decoder.record ["value"] fun fields =>
        Operand.value <$> fields.required "value" Decoder.value
    | "count" => Decoder.record ["path"] fun fields =>
        Operand.count <$> fields.required "path" decodePath
    | _ => Decoder.nothing Operand.null

end Operand

namespace Filter

def types : List String := ["and", "or", "not", "comparison", "match", "any", "has"]

/-- Reads a filter that is nested no deeper than `fuel`. -/
def decodeWithin : Nat → Bool → Decoder Filter
  | 0, _ => fun o => .fault o.mismatch
  | fuel + 1, readBefore =>
    Decoder.variant types readBefore fun
      | "and" => Decoder.record ["terms"] fun fields =>
          Filter.and <$> fields.required "terms" (Decoder.list (decodeWithin fuel true))
      | "or" => Decoder.record ["terms"] fun fields =>
          Filter.or <$> fields.required "terms" (Decoder.list (decodeWithin fuel true))
      | "not" => Decoder.record ["filter"] fun fields =>
          Filter.not <$> fields.required "filter" (decodeWithin fuel true)
      | "comparison" => Decoder.record ["operator", "left", "right"] fun fields =>
          Filter.comparison
            <$> fields.required "operator" Comparison.decode
            <*> fields.required "left" (Operand.decode true)
            <*> fields.required "right" (Operand.decode true)
      | "match" => Decoder.record ["kind", "field", "text"] fun fields =>
          Filter.textMatch
            <$> fields.required "kind" TextMatch.decode
            <*> fields.required "field" decodePath
            <*> fields.required "text" Decoder.text
      | "any" => Decoder.record ["field", "values"] fun fields =>
          Filter.any
            <$> fields.required "field" decodePath
            <*> fields.required "values" (Decoder.list Decoder.value)
      | _ => Decoder.record ["field", "filter"] fun fields =>
          Filter.has
            <$> fields.required "field" decodePath
            <*> fields.optional "filter" (decodeWithin fuel true)

/-- No value that can be read is nested deeper than the limit. -/
def decode : Decoder Filter := decodeWithin (nestingLimit + 1) false

end Filter

namespace SortTarget

def decode : Decoder SortTarget :=
  Decoder.variant ["field", "count"] false fun
    | "field" => Decoder.record ["path"] fun fields =>
        SortTarget.field <$> fields.required "path" decodePath
    | _ => Decoder.record ["path"] fun fields =>
        SortTarget.count <$> fields.required "path" decodePath

end SortTarget

namespace SortElement

def decode : Decoder SortElement :=
  Decoder.record ["target", "direction"] fun fields =>
    SortElement.mk
      <$> fields.required "target" SortTarget.decode
      <*> fields.withDefault "direction" true (Decoder.oneOf false [("asc", true), ("desc", false)])

end SortElement

def decodeWindow : Decoder Window :=
  Decoder.record ["limit", "offset"] fun fields =>
    Window.mk
      <$> fields.optional "limit" Decoder.count
      <*> fields.optional "offset" Decoder.count

namespace Query

def decode : Decoder Query :=
  Decoder.record ["resource", "id", "filter", "sort", "include", "fields", "pagination"]
    fun fields =>
      (fun resource id filter sort includes sparse window =>
        Query.mk resource id filter sort includes sparse (window.getD .all))
        <$> fields.required "resource" Decoder.text
        <*> fields.optional "id" Decoder.value
        <*> fields.optional "filter" Filter.decode
        <*> fields.withDefault "sort" [] (Decoder.list SortElement.decode)
        <*> fields.withDefault "include" [] (Decoder.list decodePath)
        <*> fields.withDefault "fields" .empty (Decoder.map (Decoder.list Decoder.text))
        <*> fields.optional "pagination" decodeWindow

end Query

namespace RelationshipData

/-- A list stands for many resources, and anything else for one. -/
def ofJson : Json → RelationshipData
  | .array ids => many ids
  | id => one id

def decode : Decoder RelationshipData := fun o => ofJson <$> Decoder.value o

end RelationshipData

namespace Mutation

def types : List String :=
  ["insert", "update", "delete", "set_relationship", "add_to_relationship",
    "remove_from_relationship"]

def decode : Decoder Mutation :=
  Decoder.variant types false fun
    | "insert" => Decoder.record ["resource", "attributes", "relationships"] fun fields =>
        Mutation.insert
          <$> fields.required "resource" Decoder.text
          <*> fields.withDefault "attributes" .empty (Decoder.map Decoder.value)
          <*> fields.withDefault "relationships" .empty (Decoder.map RelationshipData.decode)
    | "update" => Decoder.record ["resource", "id", "attributes", "relationships"] fun fields =>
        Mutation.update
          <$> fields.required "resource" Decoder.text
          <*> fields.required "id" Decoder.value
          <*> fields.withDefault "attributes" .empty (Decoder.map Decoder.value)
          <*> fields.withDefault "relationships" .empty (Decoder.map RelationshipData.decode)
    | "delete" => Decoder.record ["resource", "id"] fun fields =>
        Mutation.delete
          <$> fields.required "resource" Decoder.text
          <*> fields.required "id" Decoder.value
    | "set_relationship" =>
        Decoder.record ["resource", "id", "relationship", "value"] fun fields =>
          Mutation.setRelationship
            <$> fields.required "resource" Decoder.text
            <*> fields.required "id" Decoder.value
            <*> fields.required "relationship" Decoder.text
            <*> fields.required "value" RelationshipData.decode
    | "add_to_relationship" =>
        Decoder.record ["resource", "id", "relationship", "ids"] fun fields =>
          Mutation.addToRelationship
            <$> fields.required "resource" Decoder.text
            <*> fields.required "id" Decoder.value
            <*> fields.required "relationship" Decoder.text
            <*> fields.required "ids" (Decoder.list Decoder.value)
    | _ =>
        Decoder.record ["resource", "id", "relationship", "ids"] fun fields =>
          Mutation.removeFromRelationship
            <$> fields.required "resource" Decoder.text
            <*> fields.required "id" Decoder.value
            <*> fields.required "relationship" Decoder.text
            <*> fields.required "ids" (Decoder.list Decoder.value)

end Mutation

end Request

end ResourceSql
