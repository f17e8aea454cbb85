/-
Consistency of metadata: what they refer to has to exist, and each relationship
has to be one that statements can be made for. The first inconsistency is
reported, in the order of the names.
-/
import ResourceSql.Metadata.Basic

namespace ResourceSql

/-- What metadata are refused for. -/
inductive Inconsistency where
  | unknownPrimaryKey (resource primaryKey : String)
  | unknownRelationshipTarget (resource relationship target : String)
  | toManyForeignKeyAtLeftSide (resource relationship : String)
  | setNullOnRequiredForeignKey (resource relationship : String)
  | missingEnumType (resource name : String)
  | unknownEnumType (resource name enumType : String)
  deriving DecidableEq

namespace Inconsistency

def message : Inconsistency → String
  | unknownPrimaryKey resource primaryKey =>
    "resource type '" ++ resource ++ "': primary key '" ++ primaryKey ++
      "' is not one of its attributes"
  | unknownRelationshipTarget resource relationship target =>
    "relationship '" ++ relationship ++ "' of resource type '" ++ resource ++
      "' targets unknown resource type '" ++ target ++ "'"
  | toManyForeignKeyAtLeftSide resource relationship =>
    "to-many relationship '" ++ relationship ++ "' of resource type '" ++ resource ++
      "' must keep its foreign key on the related table"
  | setNullOnRequiredForeignKey resource relationship =>
    "relationship '" ++ relationship ++ "' of resource type '" ++ resource ++
      "' clears a required foreign key on delete"
  | missingEnumType resource name =>
    "enum attribute '" ++ name ++ "' of resource type '" ++ resource ++
      "' does not name its enum type"
  | unknownEnumType resource name enumType =>
    "attribute '" ++ name ++ "' of resource type '" ++ resource ++
      "' refers to undeclared enum type '" ++ enumType ++ "'"

end Inconsistency

namespace Metadata

/-- Checks each of several things, up to the first that fails. -/
def checkEach {α : Type} (check : α → Except Inconsistency Unit) :
    List α → Except Inconsistency Unit
  | [] => .ok ()
  | a :: as => do
    check a
    checkEach check as

/-- An attribute of type `enum` has to name a declared enum type. -/
def checkAttribute (metadata : Metadata) (resource name : String) (a : Attribute) :
    Except Inconsistency Unit :=
  if a.type = .enum then
    match a.enumType with
    | none => .error (.missingEnumType resource name)
    | some enumType =>
      if metadata.enumTypes.contains enumType then .ok ()
      else .error (.unknownEnumType resource name enumType)
  else .ok ()

def checkRelationship (metadata : Metadata) (resource name : String) (r : Relationship) :
    Except Inconsistency Unit :=
  if ¬ metadata.resources.contains r.target then
    .error (.unknownRelationshipTarget resource name r.target)
  else if r.kind = .toMany ∧ r.foreignKey.atLeftSide then
    .error (.toManyForeignKeyAtLeftSide resource name)
  else if r.deleteBehavior = .setNull ∧ ¬ r.foreignKey.nullable then
    .error (.setNullOnRequiredForeignKey resource name)
  else .ok ()

def checkResource (metadata : Metadata) (name : String) (t : ResourceType) :
    Except Inconsistency Unit := do
  if ¬ t.attributes.contains t.primaryKey then throw (.unknownPrimaryKey name t.primaryKey)
  checkEach (fun (attributeName, a) => metadata.checkAttribute name attributeName a)
    t.attributes.toList
  checkEach (fun (relationshipName, r) => metadata.checkRelationship name relationshipName r)
    t.relationships.toList

def check (metadata : Metadata) : Except Inconsistency Unit :=
  checkEach (fun (name, t) => metadata.checkResource name t) metadata.resources.toList

end Metadata

end ResourceSql
