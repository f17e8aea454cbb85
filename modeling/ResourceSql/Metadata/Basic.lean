/-
Metadata: which types of resources there are, and how they are stored. Each type
has a table, whose columns hold its attributes. A relationship leads from the
type that declares it, its left side, to its target, the right side; the column
that realizes it lies in the table of one of the two and holds the primary key
of the other.
-/
import ResourceSql.NameMap
import ResourceSql.Operator

namespace ResourceSql

/-- The types of attributes. -/
inductive ScalarType where
  | boolean
  | byte
  | smallint
  | integer
  | bigint
  | real
  | double
  | decimal
  | character
  | text
  | uuid
  /-- A member of a declared enum type. -/
  | enum
  deriving DecidableEq

namespace ScalarType

def all : List ScalarType :=
  [boolean, byte, smallint, integer, bigint, real, double, decimal, character, text, uuid, enum]

def name : ScalarType → String
  | boolean => "boolean"
  | byte => "byte"
  | smallint => "smallint"
  | integer => "integer"
  | bigint => "bigint"
  | real => "real"
  | double => "double"
  | decimal => "decimal"
  | character => "character"
  | text => "text"
  | uuid => "uuid"
  | enum => "enum"

/-- Whether the values of the type have an order, or can only be equal or not. -/
def isOrdered : ScalarType → Bool
  | boolean | uuid | enum => false
  | _ => true

/-- The comparisons of values of the type. -/
def comparisons (t : ScalarType) : List Comparison :=
  if t.isOrdered then Comparison.all else [.equals]

/-- Whether values of the type can be matched against a pattern. -/
def matchesText : ScalarType → Bool
  | character | text => true
  | _ => false

end ScalarType

/-- An attribute of a type of resources, and the column that holds it. -/
structure Attribute where
  column : String
  type : ScalarType
  nullable : Bool
  /-- The declared enum type, for an attribute of type `enum`. -/
  enumType : Option String
  deriving DecidableEq

inductive RelationshipKind where
  | toOne
  | toMany
  deriving DecidableEq

namespace RelationshipKind

def name : RelationshipKind → String
  | toOne => "to_one"
  | toMany => "to_many"

end RelationshipKind

/-- The column that realizes a relationship. At the left side it references the primary key of the
target, else the primary key of the declaring type. -/
structure KeyColumn where
  column : String
  atLeftSide : Bool
  nullable : Bool
  deriving DecidableEq

/-- What happens to related rows at the right side when a resource is deleted. -/
inductive DeleteBehavior where
  | cascade
  | setNull
  | restrict
  deriving DecidableEq

namespace DeleteBehavior

def name : DeleteBehavior → String
  | cascade => "cascade"
  | setNull => "set_null"
  | restrict => "restrict"

end DeleteBehavior

structure Relationship where
  target : String
  kind : RelationshipKind
  foreignKey : KeyColumn
  deleteBehavior : DeleteBehavior
  deriving DecidableEq

/-- A type of resources and the table that stores them. -/
structure ResourceType where
  schema : Option String
  table : String
  /-- The attribute that identifies a resource. -/
  primaryKey : String
  attributes : NameMap Attribute
  relationships : NameMap Relationship
  deriving DecidableEq

structure EnumType where
  members : List String
  deriving DecidableEq

structure Metadata where
  resources : NameMap ResourceType
  enumTypes : NameMap EnumType
  deriving DecidableEq

namespace Metadata

def empty : Metadata := ⟨.empty, .empty⟩

end Metadata

end ResourceSql
