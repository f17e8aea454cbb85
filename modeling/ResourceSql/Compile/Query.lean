/-
Queries. Without a window, or if every resource that is read along is a single
one, the rows of one select are the answer. A window on resources that are read
along with many others is a select of its own, to whose rows the others are
joined.
-/
import ResourceSql.Compile.Order
import ResourceSql.Compile.Projection
import ResourceSql.Sql.Rendering

namespace ResourceSql

namespace Compile

/-- Joins the resources that are read along. -/
def includePaths (c : Context) (root : Occurrence) : List (List String) → Compile Unit
  | [] => pure ()
  | path :: paths => do
    let _ ← walkPath c .toIncluded root path
    includePaths c root paths

/-- A select in a scope of its own, with the joins that turned out to be needed. -/
def joining (step : Compile Sql.Select) : Compile Sql.Select := do
  let (select, joins) ← inOwnScope step
  return { select with joins := joins.map (·.join) }

/-- The root table of a query, under a new alias. -/
def openTable (c : Context) (name : String) : Compile (Resource × Sql.Table) := do
  let resource ← ofExcept (c.metadata.findResource name)
  return (resource, resource.table (some (← freshAlias)))

/-- The rows of a query in one select. -/
def plainRows (c : Context) (q : Request.Query) (resource : Resource) (table : Sql.Table) :
    Compile Sql.Select := joining do
  let root : Occurrence := ⟨resource.name, .table table⟩
  includePaths c root q.includes
  let filter ← requestCondition c root resource q.id q.filter
  let order ← order c root q.sort
  let projection ← projection c root q.fields
  return { Sql.Select.simple (.table table) projection with
    filter, order := some order, window := q.window }

/-- The window on the resources that are asked for, with all columns that are needed around it. -/
def page (c : Context) (q : Request.Query) (resource : Resource) (table : Sql.Table) :
    Compile Sql.Select := joining do
  let root : Occurrence := ⟨resource.name, .table table⟩
  let filter ← requestCondition c root resource q.id q.filter
  let order ← order c root q.sort
  let columns ← ofExcept resource.projectedColumns
  let projection := Sql.Projection.columns
    (columns.map fun (name, role) => .ofTable (table.column name role))
  return { Sql.Select.simple (.table table) projection with
    filter, order := some order, window := q.window }

/-- The rows of a query around a page of resources. -/
def pagedRows (c : Context) (q : Request.Query) (resource : Resource) (table : Sql.Table) :
    Compile Sql.Select := do
  let page ← page c q resource table
  let aliasName ← freshAlias
  let root : Occurrence := ⟨resource.name, .subquery table aliasName⟩
  joining do
    includePaths c root q.includes
    let order ← order c root q.sort
    let projection ← projection c root q.fields
    return { Sql.Select.simple (.select { page with aliasName := some aliasName }) projection with
      order := some order }

/-- The rows of a query. A window is one on resources, not on the rows joined to them. -/
def rows (c : Context) (q : Request.Query) : Compile Sql.Select := do
  let (resource, table) ← openTable c q.resource
  let paged ← if q.window.isAll then pure false else anyLeadsToMany c resource q.includes
  if paged then pagedRows c q resource table else plainRows c q resource table

/-- The number of resources that a query asks for; the window, the order and what is read along do
not change it. -/
def rowCount (c : Context) (q : Request.Query) : Compile Sql.Select := do
  let (resource, table) ← openTable c q.resource
  let root : Occurrence := ⟨resource.name, .table table⟩
  joining do
    let filter ← requestCondition c root resource q.id q.filter
    return { Sql.Select.simple (.table table) .count with filter }

end Compile

namespace Request.Query

/-- The command that reads the resources a query asks for. -/
def command (c : Context) (q : Query) : Except RequestError Sql.Command := do
  let select ← (Compile.rows c q).result
  return (Sql.Statement.select select).command c.dialect

/-- The command that counts the resources a query asks for. -/
def countCommand (c : Context) (q : Query) : Except RequestError Sql.Command := do
  let select ← (Compile.rowCount c q).result
  return (Sql.Statement.select select).command c.dialect

end Request.Query

end ResourceSql
