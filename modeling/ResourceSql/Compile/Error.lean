/-
Why there is no statement for a request.
-/
import ResourceSql.Json.Printer
import ResourceSql.Metadata.Basic

namespace ResourceSql

/-- What a request may not contain. -/
inductive Unsupported where
  | undeclaredEnumType (enumType : String)
  | enumColumnWithoutType (column : String)
  | arrayValue
  | objectValue
  | textMatching (type : ScalarType)
  | emptyLogical
  /-- A comparison in which nothing tells the type of its values. -/
  | untypedComparison
  | comparison (operator : Comparison) (type : ScalarType)
  /-- A relationship of a new resource whose column lies in the related table. -/
  | remoteRelationship (relationship : String)
  deriving DecidableEq

namespace Unsupported

def description : Unsupported → String
  | undeclaredEnumType enumType => "values of undeclared enum type '" ++ enumType ++ "'"
  | enumColumnWithoutType column => "enum column '" ++ column ++ "' without an enum type"
  | arrayValue => "array values"
  | objectValue => "object values"
  | textMatching type => "text matching on " ++ type.name ++ " values"
  | emptyLogical => "empty logical expressions"
  | untypedComparison => "comparisons without a field or count"
  | comparison operator type => "operator '" ++ operator.name ++ "' on " ++ type.name ++ " values"
  | remoteRelationship relationship =>
    "relationship '" ++ relationship ++
      "' on new resources, its foreign key is held by the related table"

end Unsupported

inductive RequestError where
  | resourceNotFound (resource : String)
  | attributeNotFound (name resource : String)
  | relationshipNotFound (relationship resource : String)
  | expectedToOne (relationship resource : String)
  | expectedToMany (relationship resource : String)
  | emptyFieldPath
  | typeMismatch (value : Json) (type : ScalarType)
  | unknownEnumMember (member enumType : String)
  | emptyValueList
  | invalidNullComparison (operator : Comparison)
  /-- A relationship that has to have a right side is to be cleared. -/
  | requiredRelationship (relationship resource : String)
  | notSupported (thing : Unsupported)
  deriving DecidableEq

namespace RequestError

/-- A relationship and the type that declares it, at the start of a sentence. -/
def relationshipSubject (relationship resource : String) : String :=
  "Relationship '" ++ relationship ++ "' on resource type '" ++ resource ++ "'"

def message : RequestError → String
  | resourceNotFound resource => "Resource type '" ++ resource ++ "' not found."
  | attributeNotFound name resource =>
    "Attribute '" ++ name ++ "' not found on resource type '" ++ resource ++ "'."
  | relationshipNotFound relationship resource =>
    "Relationship '" ++ relationship ++ "' not found on resource type '" ++ resource ++ "'."
  | expectedToOne relationship resource =>
    relationshipSubject relationship resource ++ " must be a to-one relationship here."
  | expectedToMany relationship resource =>
    relationshipSubject relationship resource ++ " must be a to-many relationship here."
  | emptyFieldPath => "Field paths must contain at least one element."
  | typeMismatch value type =>
    "Value " ++ value.toText ++ " is not compatible with type '" ++ type.name ++ "'."
  | unknownEnumMember member enumType =>
    "'" ++ member ++ "' is not a member of enum type '" ++ enumType ++ "'."
  | emptyValueList => "At least one value is required."
  | invalidNullComparison operator =>
    "Operator '" ++ operator.name ++ "' cannot be used to compare with null."
  | requiredRelationship relationship resource =>
    relationshipSubject relationship resource ++ " is required and cannot be cleared."
  | notSupported thing => "Requests containing " ++ thing.description ++ " are not supported."

end RequestError

end ResourceSql
