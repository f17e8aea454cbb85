/-
What the names in a request lead to, by the metadata alone: the resources at the
end of paths, the attributes of fields, and whether a filter can be compiled at
all. Nothing here depends on what was joined before; that compiling gives the
same answers is shown with its meaning.
-/
import ResourceSql.Compile.Order

namespace ResourceSql

/-- A relationship as it is followed: rows of the target belong to a row if their inner column
equals the outer column of that row. -/
structure Link where
  key : ForeignKey
  target : Resource
  outer : String
  inner : String
  deriving DecidableEq

namespace Metadata

variable (m : Metadata)

/-- How a foreign key is followed from the type that declares it. -/
def link (declaring : Resource) (key : ForeignKey) : Except RequestError Link := do
  let target ← m.findResource key.target
  if key.atLeftSide then do
    let primaryKey ← target.primaryKey
    return ⟨key, target, key.column, primaryKey.column⟩
  else do
    let primaryKey ← declaring.primaryKey
    return ⟨key, target, primaryKey.column, key.column⟩

/-- One relationship of a path. -/
def hop (toMany : Bool) (here : Resource) (relationship : String) : Except RequestError Link := do
  let key ← ForeignKey.resolve m here relationship
  if !toMany && !key.isToOne then throw key.toOneError
  m.link here key

/-- The type of resources at the end of a path. -/
def walk (toMany : Bool) : Resource → List String → Except RequestError Resource
  | here, [] => pure here
  | here, relationship :: rest => do
    let link ← m.hop toMany here relationship
    walk toMany link.target rest

/-- Whether a path leads along a to-many relationship, as far as its names are found. -/
def leadsToMany : Resource → List String → Bool
  | _, [] => false
  | here, relationship :: rest =>
    match ForeignKey.resolve m here relationship with
    | .error _ => false
    | .ok key =>
      !key.isToOne ||
        match m.findResource key.target with
        | .error _ => false
        | .ok target => leadsToMany target rest

/-- The attribute at the end of a field path. -/
def fieldOf (root : Resource) (path : List String) : Except RequestError Attribute :=
  match path.getLast? with
  | none => throw .emptyFieldPath
  | some name => do
    let here ← m.walk false root path.dropLast
    match here.type.attributes.get? name with
    | some found => return found
    | none =>
      if here.type.relationships.contains name then
        (← m.walk false root path).primaryKey
      else throw (.attributeNotFound name here.name)

/-- The to-many relationship at the end of a path. -/
def relatedOf (root : Resource) (path : List String) : Except RequestError Link :=
  match path.getLast? with
  | none => throw .emptyFieldPath
  | some relationship => do
    let here ← m.walk false root path.dropLast
    let key ← ForeignKey.resolve m here relationship
    if key.isToOne then throw key.toManyError
    m.link here key

end Metadata

/-- Values have to belong to the type of the comparison. -/
def Known.checkValue (m : Metadata) (typing : Option Attribute) : Known → Except RequestError Unit
  | value v => do
    let _ ← literal m typing v
  | _ => .ok ()

/-! ## Filters -/

namespace Metadata

variable (m : Metadata)

def operandOf (root : Resource) : Request.Operand → Except RequestError Known
  | .field path => do return .field (← m.fieldOf root path)
  | .count path => do
    let _ ← m.relatedOf root path
    return .count
  | .value .null | .null => return .null
  | .value value => return .value value

def checkOperands (root : Resource) (operator : Comparison) (left right : Request.Operand) :
    Except RequestError Unit := do
  let left ← m.operandOf root left
  let right ← m.operandOf root right
  let typing ← Known.typing left right
  Known.check operator ((typing.map (·.type)).getD .bigint) left right
  left.checkValue m typing
  right.checkValue m typing

/-- All values have to belong to the type of an attribute. -/
def checkValues (held : Attribute) : List Json → Except RequestError (List Value)
  | [] => pure []
  | value :: values => do
    let first ← held.literal m value
    let rest ← checkValues held values
    return first :: rest

mutual

/-- Whether a filter of resources can be compiled, and why it cannot. -/
def checkFilter : Resource → Request.Filter → Except RequestError Unit
  | root, .and terms => do
    checkFilters root terms
    if terms.isEmpty then throw (.notSupported .emptyLogical)
  | root, .or terms => do
    checkFilters root terms
    if terms.isEmpty then throw (.notSupported .emptyLogical)
  | root, .not filter => checkFilter root filter
  | root, .comparison operator left right => m.checkOperands root operator left right
  | root, .textMatch _ path _ => do
    let held ← m.fieldOf root path
    if !held.type.matchesText then throw (.notSupported (.textMatching held.type))
  | root, .any path values => do
    if values.isEmpty then throw .emptyValueList
    let held ← m.fieldOf root path
    let _ ← m.checkValues held values
  | root, .has path filter => do
    let link ← m.relatedOf root path
    checkRelated link.target filter

def checkRelated : Resource → Option Request.Filter → Except RequestError Unit
  | _, none => pure ()
  | target, some filter => checkFilter target filter

def checkFilters : Resource → List Request.Filter → Except RequestError Unit
  | _, [] => pure ()
  | root, filter :: filters => do
    checkFilter root filter
    checkFilters root filters

end

end Metadata

end ResourceSql
