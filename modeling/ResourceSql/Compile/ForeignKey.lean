/-
Foreign keys: how a relationship between two types of resources is realized.
-/
import ResourceSql.Compile.Resource

namespace ResourceSql

/-- The column behind a relationship, and the table that holds it. -/
structure ForeignKey where
  declaring : String
  relationship : String
  target : String
  kind : RelationshipKind
  table : String
  column : String
  /-- Whether the column lies in the table of the declaring type. -/
  atLeftSide : Bool
  nullable : Bool
  deriving DecidableEq

namespace ForeignKey

/-- The foreign key of a relationship that a type of resources declares. -/
def resolve (metadata : Metadata) (declaring : Resource) (relationship : String) :
    Except RequestError ForeignKey := do
  let declared ← declaring.findRelationship relationship
  let target ← metadata.findResource declared.target
  let owner := if declared.foreignKey.atLeftSide then declaring else target
  return {
    declaring := declaring.name
    relationship
    target := target.name
    kind := declared.kind
    table := owner.type.table
    column := declared.foreignKey.column
    atLeftSide := declared.foreignKey.atLeftSide
    nullable := declared.foreignKey.nullable }

def isToOne (key : ForeignKey) : Bool := key.kind == .toOne

/-- A required key at the left side always finds its row. -/
def joinKind (key : ForeignKey) : Sql.JoinKind :=
  if key.atLeftSide && !key.nullable then .inner else .left

def toOneError (key : ForeignKey) : RequestError := .expectedToOne key.relationship key.declaring

def toManyError (key : ForeignKey) : RequestError := .expectedToMany key.relationship key.declaring

def requiredError (key : ForeignKey) : RequestError :=
  .requiredRelationship key.relationship key.declaring

/-- The relationship and its column, for people; an optional to-one relationship has a question
mark. -/
def display (d : Dialect) (key : ForeignKey) : String :=
  key.declaring ++ "." ++ key.relationship ++ " => " ++ d.quote key.table ++ "." ++
    d.quote key.column ++ if key.isToOne && key.nullable then "?" else ""

end ForeignKey

end ResourceSql
