/-
Types of resources under their names, and how what they declare is found.
-/
import ResourceSql.Compile.Error
import ResourceSql.Sql.Tree

namespace ResourceSql

/-- A type of resources together with its name. -/
structure Resource where
  name : String
  type : ResourceType
  deriving DecidableEq

namespace Metadata

def findResource (metadata : Metadata) (name : String) : Except RequestError Resource :=
  match metadata.resources.get? name with
  | some type => .ok ⟨name, type⟩
  | none => .error (.resourceNotFound name)

def findEnumType (metadata : Metadata) (name : String) : Except RequestError EnumType :=
  match metadata.enumTypes.get? name with
  | some found => .ok found
  | none => .error (.notSupported (.undeclaredEnumType name))

end Metadata

namespace Resource

def findAttribute (r : Resource) (name : String) : Except RequestError Attribute :=
  match r.type.attributes.get? name with
  | some found => .ok found
  | none => .error (.attributeNotFound name r.name)

def findRelationship (r : Resource) (name : String) : Except RequestError Relationship :=
  match r.type.relationships.get? name with
  | some found => .ok found
  | none => .error (.relationshipNotFound name r.name)

/-- The attribute that identifies a resource. -/
def primaryKey (r : Resource) : Except RequestError Attribute := r.findAttribute r.type.primaryKey

/-- The table of the resources, under an alias if one is given. -/
def table (r : Resource) (aliasName : Option String) : Sql.Table :=
  ⟨r.type.schema, r.type.table, aliasName⟩

end Resource

end ResourceSql
