/-
Mutations. A mutation becomes a list of statements that are executed in order;
if one of them cannot be compiled, there is none.
-/
import ResourceSql.Compile.Link
import ResourceSql.Sql.Rendering

namespace ResourceSql

namespace Compile

/-- Gives an attribute a value; null clears it. -/
def assignAttribute (c : Context) (resource : Resource) (table : Sql.Table) (name : String)
    (value : Json) : Compile Sql.Assignment := do
  let found ← ofExcept (resource.findAttribute name)
  let column := table.column found.column .scalar
  if value.isNull then return ⟨column, .null⟩
  return ⟨column, .parameter (← bindValue (← ofExcept (found.literal c.metadata value)))⟩

/-- Gives several attributes values. -/
def assignAttributes (c : Context) (resource : Resource) (table : Sql.Table)
    (attributes : NameMap Json) : Compile (List Sql.Assignment) :=
  forEach (fun (name, value) => assignAttribute c resource table name value) attributes.toList

/-- Relationships of a new row, which has to hold their foreign keys itself. -/
def assignNewKeys (c : Context) (resource : Resource) (table : Sql.Table)
    (relationships : NameMap Request.RelationshipData) : Compile (List Sql.Assignment) :=
  forEach (fun (name, data) => do
    let key ← foreignKey c.metadata resource name
    if !key.isToOne then throw key.toOneError
    if !key.atLeftSide then throw (.notSupported (.remoteRelationship name))
    assignKey c table key data) relationships.toList

/-- Inserts a row, whose generated primary key is handed back. -/
def insert (c : Context) (name : String) (attributes : NameMap Json)
    (relationships : NameMap Request.RelationshipData) : Compile (List Sql.Statement) := do
  let resource ← ofExcept (c.metadata.findResource name)
  let table := resource.table none
  startStatement
  let values ← assignAttributes c resource table attributes
  let keys ← assignNewKeys c resource table relationships
  let primaryKey ← ofExcept resource.primaryKey
  return [.insert ⟨table, values ++ keys, some (table.column primaryKey.column .scalar)⟩]

/-- Assigns the foreign keys that a row holds for to-one relationships; the other relationships
are left over. -/
def assignHeldKeys (c : Context) (resource : Resource) (table : Sql.Table) :
    List (String × Request.RelationshipData) →
      Compile (List Sql.Assignment × List (String × Request.RelationshipData))
  | [] => pure ([], [])
  | (name, data) :: rest => do
    let key ← foreignKey c.metadata resource name
    if key.isToOne && key.atLeftSide then
      let assignment ← assignKey c table key data
      let (assignments, others) ← assignHeldKeys c resource table rest
      return (assignment :: assignments, others)
    else
      let (assignments, others) ← assignHeldKeys c resource table rest
      return (assignments, (name, data) :: others)

/-- Updates a row, and then the rows of related tables. -/
def update (c : Context) (name : String) (id : Json) (attributes : NameMap Json)
    (relationships : NameMap Request.RelationshipData) : Compile (List Sql.Statement) := do
  let resource ← ofExcept (c.metadata.findResource name)
  let table := resource.table none
  startStatement
  let values ← assignAttributes c resource table attributes
  let (keys, others) ← assignHeldKeys c resource table relationships.toList
  let assignments := values ++ keys
  let own ← if assignments.isEmpty then pure [] else do
    pure [Sql.Statement.update ⟨table, assignments, ← rowIs c resource table id⟩]
  let linked ← forEach (fun (name, data) => setRelationship c resource id name data) others
  return own ++ linked.flatten

/-- Clears the foreign keys in related tables that are to be null when the resource is gone. -/
def clearReferences (c : Context) (resource : Resource) (id : Json) :
    List (String × Relationship) → Compile (List Sql.Statement)
  | [] => pure []
  | (name, relationship) :: rest => do
    if relationship.deleteBehavior = .setNull ∧ ¬ relationship.foreignKey.atLeftSide then
      let key ← foreignKey c.metadata resource name
      let statement ← detach c resource key .setNull id .all
      let statements ← clearReferences c resource id rest
      return statement :: statements
    else clearReferences c resource id rest

/-- Deletes a row. -/
def delete (c : Context) (name : String) (id : Json) : Compile (List Sql.Statement) := do
  let resource ← ofExcept (c.metadata.findResource name)
  let cleared ← clearReferences c resource id resource.type.relationships.toList
  startStatement
  let table := resource.table none
  return cleared ++ [.delete ⟨table, ← rowIs c resource table id⟩]

/-- The statements of a mutation. -/
def mutation (c : Context) : Request.Mutation → Compile (List Sql.Statement)
  | .insert name attributes relationships => insert c name attributes relationships
  | .update name id attributes relationships => update c name id attributes relationships
  | .delete name id => delete c name id
  | .setRelationship name id relationship data => do
    let resource ← ofExcept (c.metadata.findResource name)
    setRelationship c resource id relationship data
  | .addToRelationship name id relationship ids => do
    let resource ← ofExcept (c.metadata.findResource name)
    addToRelationship c resource id relationship ids
  | .removeFromRelationship name id relationship ids => do
    let resource ← ofExcept (c.metadata.findResource name)
    removeFromRelationship c resource id relationship ids

end Compile

/-- The commands that carry out a mutation, in the order in which they are executed. -/
def Request.Mutation.commands (c : Context) (m : Request.Mutation) :
    Except RequestError (List Sql.Command) := do
  let statements ← (Compile.mutation c m).result
  return statements.map (·.command c.dialect)

end ResourceSql
