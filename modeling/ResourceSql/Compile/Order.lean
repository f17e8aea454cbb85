/-
The order of the resources that are read.
-/
import ResourceSql.Compile.Condition

namespace ResourceSql.Compile

def orderTerm (c : Context) (root : Occurrence) (element : Request.SortElement) :
    Compile Sql.OrderTerm :=
  match element.target with
  | .field path => do
    let (column, _) ← field c root path
    return .column column element.ascending
  | .count path => return .count (← count c root path) element.ascending

/-- Resources that are not to be sorted are in the order of their primary keys. -/
def order (c : Context) (root : Occurrence) (sort : List Request.SortElement) :
    Compile (List Sql.OrderTerm) :=
  if sort.isEmpty then do
    let resource ← ofExcept (c.metadata.findResource root.resource)
    let primaryKey ← ofExcept resource.primaryKey
    return [.column (root.column primaryKey.column .scalar) true]
  else forEach (orderTerm c root) sort

end ResourceSql.Compile
