/-
Paths along relationships. Walking a path from the root joins every table on it
that was not joined before.
-/
import ResourceSql.Compile.Literal
import ResourceSql.Compile.Progress

namespace ResourceSql

/-- What walking a path demands and does. -/
structure Walk where
  /-- Whether the path may lead along to-many relationships. -/
  toMany : Bool
  /-- Whether the columns of the joined tables are selected. -/
  included : Bool
  deriving DecidableEq

namespace Walk

/-- Walks to the attributes of single resources. -/
def toField : Walk := ⟨false, false⟩

/-- Walks to resources that are read along. -/
def toIncluded : Walk := ⟨true, true⟩

end Walk

namespace Compile

/-- The columns that a table and a table related to it are joined on. -/
def joinColumns (parent : Resource) (here : Occurrence) (key : ForeignKey) (target : Resource)
    (table : Sql.Table) : Except RequestError (Sql.Column × Sql.TableColumn) :=
  if key.atLeftSide then do
    let primaryKey ← target.primaryKey
    return (here.column key.column .foreignKey, table.column primaryKey.column .scalar)
  else do
    let primaryKey ← parent.primaryKey
    return (here.column primaryKey.column .scalar, table.column key.column .foreignKey)

/-- Follows one relationship behind the path that was walked. A row that may be missing makes all
rows missing that are joined through it, so that behind a left join there are only left joins. -/
def follow (c : Context) (walk : Walk) (walked : List String) (here : Occurrence)
    (relationship : String) : Compile Occurrence := do
  let parent ← ofExcept (c.metadata.findResource here.resource)
  let key ← foreignKey c.metadata parent relationship
  if !walk.toMany && !key.isToOne then throw key.toOneError
  let path := walked ++ [relationship]
  match (← get).joinAt path with
  | some joined =>
    if walk.included then includeJoin path
    return joined.occurrence
  | none =>
    let target ← ofExcept (c.metadata.findResource key.target)
    let table := target.table (some (← freshAlias))
    let (outer, inner) ← ofExcept (joinColumns parent here key target table)
    let behindLeft := ((← get).joinAt walked).any (·.join.kind = .left)
    let kind := if behindLeft then .left else key.joinKind
    let joined : PathJoin := ⟨path, target.name, ⟨kind, table, outer, inner⟩, walk.included⟩
    addJoin joined
    return joined.occurrence

/-- Walks on from a table to which a path was walked before. -/
def walkOn (c : Context) (walk : Walk) : List String → Occurrence → List String →
    Compile Occurrence
  | _, here, [] => pure here
  | walked, here, relationship :: rest => do
    let next ← follow c walk walked here relationship
    walkOn c walk (walked ++ [relationship]) next rest

/-- Walks a path from the root. -/
def walkPath (c : Context) (walk : Walk) (root : Occurrence) (path : List String) :
    Compile Occurrence :=
  walkOn c walk [] root path

/-- Whether a path leads along a to-many relationship; what is behind it does not matter. -/
def leadsToMany (c : Context) : Resource → List String → Compile Bool
  | _, [] => pure false
  | here, relationship :: rest => do
    let key ← foreignKey c.metadata here relationship
    if !key.isToOne then return true
    let target ← ofExcept (c.metadata.findResource key.target)
    leadsToMany c target rest

/-- Whether any of the paths leads along a to-many relationship. -/
def anyLeadsToMany (c : Context) (here : Resource) : List (List String) → Compile Bool
  | [] => pure false
  | path :: paths => do
    if ← leadsToMany c here path then return true
    anyLeadsToMany c here paths

/-- The column at the end of a path, and the attribute it holds. The last element names an
attribute, or else a to-one relationship, which stands for the primary key of the related
resource. -/
def field (c : Context) (root : Occurrence) (path : List String) :
    Compile (Sql.Column × Attribute) :=
  match path.getLast? with
  | none => throw .emptyFieldPath
  | some name => do
    let here ← walkPath c .toField root path.dropLast
    let resource ← ofExcept (c.metadata.findResource here.resource)
    match resource.type.attributes.get? name with
    | some found => return (here.column found.column .scalar, found)
    | none =>
      if resource.type.relationships.contains name then
        let related ← walkPath c .toField root path
        let target ← ofExcept (c.metadata.findResource related.resource)
        let primaryKey ← ofExcept target.primaryKey
        return (related.column primaryKey.column .scalar, primaryKey)
      else throw (.attributeNotFound name resource.name)

/-- Binds the identifier of a resource. -/
def bindId (c : Context) (resource : Resource) (id : Json) : Compile Sql.Parameter := do
  let primaryKey ← ofExcept resource.primaryKey
  if id.isNull then throw (.typeMismatch id primaryKey.type)
  bindValue (← ofExcept (primaryKey.literal c.metadata id))

end Compile

end ResourceSql
