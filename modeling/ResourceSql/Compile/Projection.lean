/-
The columns that are read of a type of resources.
-/
import ResourceSql.Compile.Progress

namespace ResourceSql

namespace Resource

/-- The attributes of the given names, without those whose column is read already. -/
def addAttributes (r : Resource) : List Attribute → List String →
    Except RequestError (List Attribute)
  | selected, [] => .ok selected
  | selected, name :: names => do
    let found ← r.findAttribute name
    let isSelected := selected.any (·.column = found.column)
    r.addAttributes (if isSelected then selected else selected ++ [found]) names

/-- The primary key, and then either the attributes that are asked for or all others. -/
def selectedAttributes (r : Resource) (asked : Option (List String)) :
    Except RequestError (List Attribute) := do
  let primaryKey ← r.primaryKey
  match asked with
  | some names => r.addAttributes [primaryKey] names
  | none =>
    let others := r.type.attributes.toList.filter (·.1 ≠ r.type.primaryKey)
    return primaryKey :: others.map (·.2)

/-- Columns, with those of further foreign keys behind them. -/
def addKeys : List (String × Sql.ColumnRole) → List Relationship → List (String × Sql.ColumnRole)
  | columns, [] => columns
  | columns, relationship :: rest =>
    let key := relationship.foreignKey
    let isNew := key.atLeftSide && !columns.any (·.1 = key.column)
    addKeys (if isNew then columns ++ [(key.column, .foreignKey)] else columns) rest

/-- The columns that a subquery has to select so that the select around it finds what it reads
and joins on: those of all attributes, and the foreign keys that the table holds. -/
def projectedColumns (r : Resource) : Except RequestError (List (String × Sql.ColumnRole)) := do
  let attributes ← r.selectedAttributes none
  return addKeys (attributes.map fun a => (a.column, .scalar)) r.type.relationships.values

end Resource

namespace Compile

/-- The columns that are read of an occurrence. -/
def columnsOf (c : Context) (fields : NameMap (List String)) (o : Occurrence) :
    Except RequestError (List Sql.Column) := do
  let resource ← c.metadata.findResource o.resource
  let attributes ← resource.selectedAttributes (fields.get? resource.name)
  return attributes.map fun a => o.column a.column .scalar

def columnsOfAll (c : Context) (fields : NameMap (List String)) :
    List Occurrence → Except RequestError (List Sql.Column)
  | [] => .ok []
  | o :: rest => do
    let columns ← columnsOf c fields o
    let others ← columnsOfAll c fields rest
    return columns ++ others

def checkResources (metadata : Metadata) : List String → Except RequestError Unit
  | [] => .ok ()
  | name :: names => do
    let _ ← metadata.findResource name
    checkResources metadata names

/-- The columns of the root and of every included table, in the order of joining. -/
def projection (c : Context) (root : Occurrence) (fields : NameMap (List String)) :
    Compile Sql.Projection := do
  ofExcept (checkResources c.metadata fields.names)
  let included := (← get).joins.filter (·.included)
  return .columns (← ofExcept (columnsOfAll c fields (root :: included.map (·.occurrence))))

end Compile

end ResourceSql
