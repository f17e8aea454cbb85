/-
Requests: which resources are read, and what is changed. A field path leads from
a resource along relationships, usually to an attribute.
-/
import ResourceSql.Json.Value
import ResourceSql.Operator
import ResourceSql.Window

namespace ResourceSql.Request

abbrev FieldPath := List String

/-- A side of a comparison. -/
inductive Operand where
  | field (path : FieldPath)
  | value (value : Json)
  | null
  /-- The number of resources in a to-many relationship. -/
  | count (path : FieldPath)
  deriving DecidableEq

/-- Which resources are asked for. -/
inductive Filter where
  | and (terms : List Filter)
  | or (terms : List Filter)
  | not (filter : Filter)
  | comparison (operator : Comparison) (left right : Operand)
  | textMatch (place : TextMatch) (field : FieldPath) (text : String)
  /-- The attribute equals any of the values. -/
  | any (field : FieldPath) (values : List Json)
  /-- The to-many relationship has a resource, one that passes the filter if there is one. -/
  | has (field : FieldPath) (filter : Option Filter)

inductive SortTarget where
  | field (path : FieldPath)
  | count (path : FieldPath)
  deriving DecidableEq

structure SortElement where
  target : SortTarget
  ascending : Bool
  deriving DecidableEq

/-- Resources of one type to be read, or a single one. -/
structure Query where
  resource : String
  id : Option Json
  filter : Option Filter
  sort : List SortElement
  /-- Paths of relationships whose resources are read along. -/
  includes : List FieldPath
  /-- The attributes that are read, by type of resource; of other types all are read. -/
  fields : NameMap (List String)
  window : Window

/-- The new right side of a relationship: related resources, or a single one, where null is
none. -/
inductive RelationshipData where
  | many (ids : List Json)
  | one (id : Json)
  deriving DecidableEq

/-- A change of resources and of the links between them. -/
inductive Mutation where
  | insert (resource : String) (attributes : NameMap Json)
    (relationships : NameMap RelationshipData)
  | update (resource : String) (id : Json) (attributes : NameMap Json)
    (relationships : NameMap RelationshipData)
  | delete (resource : String) (id : Json)
  | setRelationship (resource : String) (id : Json) (relationship : String)
    (data : RelationshipData)
  | addToRelationship (resource : String) (id : Json) (relationship : String) (ids : List Json)
  | removeFromRelationship (resource : String) (id : Json) (relationship : String)
    (ids : List Json)

end ResourceSql.Request
