/-
Changes of the right side of a relationship. A foreign key that the changed
resource holds itself is one column of its row. A foreign key in the related
table lies in as many rows as there are related resources: old ones are
detached, and new ones are attached.
-/
import ResourceSql.Compile.Path
import ResourceSql.Request.Basic

namespace ResourceSql

/-- Which of the related rows of a resource are detached. -/
inductive Selection where
  | all
  | only (ids : List Json)
  | allExcept (ids : List Json)
  deriving DecidableEq

namespace Compile

/-- The condition that a row of a table is the resource of an identifier. -/
def rowIs (c : Context) (resource : Resource) (table : Sql.Table) (id : Json) :
    Compile Sql.Condition := do
  let primaryKey ← ofExcept resource.primaryKey
  let parameter ← bindId c resource id
  return .equals (.column (.ofTable (table.column primaryKey.column .scalar)))
    (.parameter parameter)

/-- The condition that a row of a table is one of several resources. -/
def rowIsAnyOf (c : Context) (resource : Resource) (table : Sql.Table) (ids : List Json) :
    Compile Sql.Condition := do
  let primaryKey ← ofExcept resource.primaryKey
  let bound ← forEach (fun id => return Sql.Operand.parameter (← bindId c resource id)) ids
  return .isIn (.ofTable (table.column primaryKey.column .scalar)) bound

/-- Gives a foreign key that a table holds the related resource; null clears it. -/
def assignKey (c : Context) (table : Sql.Table) (key : ForeignKey) :
    Request.RelationshipData → Compile Sql.Assignment
  | .many _ => throw key.toManyError
  | .one .null =>
    if key.nullable then pure ⟨table.column key.column .foreignKey, .null⟩
    else throw key.requiredError
  | .one id => do
    let target ← ofExcept (c.metadata.findResource key.target)
    return ⟨table.column key.column .foreignKey, .parameter (← bindId c target id)⟩

/-- Narrows the rows that a resource owns to those that are selected. -/
def narrow (c : Context) (target : Resource) (table : Sql.Table) (owned : Sql.Condition) :
    Selection → Compile Sql.Condition
  | .all | .allExcept [] => pure owned
  | .only ids => return .logical .and owned (← rowIsAnyOf c target table ids) []
  | .allExcept ids => return .logical .and owned (.not (← rowIsAnyOf c target table ids)) []

/-- Detaches related rows from a resource: their foreign key is cleared, or if it is required,
they are deleted, which the relationship has to allow. -/
def detach (c : Context) (resource : Resource) (key : ForeignKey) (behavior : DeleteBehavior)
    (id : Json) (selection : Selection) : Compile Sql.Statement := do
  startStatement
  let target ← ofExcept (c.metadata.findResource key.target)
  let table := target.table none
  let column := table.column key.column .foreignKey
  let owned := Sql.Condition.equals (.column (.ofTable column)) (.parameter (← bindId c resource id))
  let filter ← narrow c target table owned selection
  if key.nullable then return .update ⟨table, [⟨column, .null⟩], filter⟩
  if behavior = .cascade then return .delete ⟨table, filter⟩
  throw key.requiredError

/-- Attaches related rows to a resource. -/
def attach (c : Context) (resource : Resource) (key : ForeignKey) (id : Json)
    (ids : List Json) : Compile Sql.Statement := do
  startStatement
  let target ← ofExcept (c.metadata.findResource key.target)
  let table := target.table none
  let assignment : Sql.Assignment :=
    ⟨table.column key.column .foreignKey, .parameter (← bindId c resource id)⟩
  return .update ⟨table, [assignment], ← rowIsAnyOf c target table ids⟩

/-- The related resources that a relationship whose foreign key lies in the related table is to
have. -/
def relatedIds (key : ForeignKey) : Request.RelationshipData → Except RequestError (List Json)
  | .many ids => if key.isToOne then .error key.toManyError else .ok ids
  | .one id =>
    if !key.isToOne then .error key.toOneError
    else if id.isNull then .ok []
    else .ok [id]

/-- Replaces the right side of a relationship. -/
def setRelationship (c : Context) (resource : Resource) (id : Json) (relationship : String)
    (data : Request.RelationshipData) : Compile (List Sql.Statement) := do
  let key ← foreignKey c.metadata resource relationship
  if key.atLeftSide then
    startStatement
    let table := resource.table none
    let assignment ← assignKey c table key data
    return [.update ⟨table, [assignment], ← rowIs c resource table id⟩]
  let ids ← ofExcept (relatedIds key data)
  let declared ← ofExcept (resource.findRelationship relationship)
  let detached ← detach c resource key declared.deleteBehavior id (.allExcept ids)
  if ids.isEmpty then return [detached]
  return [detached, ← attach c resource key id ids]

/-- Adds resources to the right side of a to-many relationship. -/
def addToRelationship (c : Context) (resource : Resource) (id : Json) (relationship : String)
    (ids : List Json) : Compile (List Sql.Statement) := do
  let key ← foreignKey c.metadata resource relationship
  if key.isToOne then throw key.toManyError
  if ids.isEmpty then return []
  return [← attach c resource key id ids]

/-- Removes resources from the right side of a to-many relationship. -/
def removeFromRelationship (c : Context) (resource : Resource) (id : Json)
    (relationship : String) (ids : List Json) : Compile (List Sql.Statement) := do
  let key ← foreignKey c.metadata resource relationship
  if key.isToOne then throw key.toManyError
  if ids.isEmpty then return []
  let declared ← ofExcept (resource.findRelationship relationship)
  return [← detach c resource key declared.deleteBehavior id (.only ids)]

end Compile

end ResourceSql
