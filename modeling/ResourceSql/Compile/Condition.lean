/-
Conditions of filters. A filter is compiled against the table it filters; what
it says about related resources becomes joins, or selects of its own that refer
to the row they belong to.
-/
import ResourceSql.Compile.Path
import ResourceSql.Request.Basic
import ResourceSql.Sql.Conjunction

namespace ResourceSql

/-- The start of a select over the resources of a to-many relationship. -/
structure Related where
  resource : String
  table : Sql.Table
  /-- The row belongs to the row of the outer select. -/
  link : Sql.Condition

namespace Related

def root (r : Related) : Occurrence := ⟨r.resource, .table r.table⟩

/-- The related rows that pass further conditions, which may need joins. -/
def select (r : Related) (projection : Sql.Projection) (joins : List PathJoin)
    (conditions : List Sql.Condition) : Sql.Select :=
  { Sql.Select.simple (.table r.table) projection with
    joins := joins.map (·.join)
    filter := Sql.conjunction? (r.link :: conditions) }

end Related

/-- A side of a comparison, before values are bound. -/
inductive Side where
  | column (c : Sql.Column) (held : Attribute)
  | count (s : Sql.Select)
  | value (v : Json)
  | null

/-- What is known of a side of a comparison, wherever it is read from. -/
inductive Known where
  | field (held : Attribute)
  | count
  | value (v : Json)
  | null

def Side.known : Side → Known
  | column _ held => .field held
  | count _ => .count
  | value v => .value v
  | null => .null

namespace Known

/-- The attribute that gives the values of a comparison their type. Counts give them the type
`bigint`. -/
def typing : Known → Known → Except RequestError (Option Attribute)
  | field held, _ => .ok (some held)
  | _, field held => .ok (some held)
  | count, _ => .ok none
  | _, count => .ok none
  | _, _ => .error (.notSupported .untypedComparison)

def isNull : Known → Bool
  | null => true
  | _ => false

/-- Null can only be equal or not; other values have the comparisons of their type. -/
def check (operator : Comparison) (type : ScalarType) (left right : Known) :
    Except RequestError Unit :=
  if left.isNull || right.isNull then
    if operator = .equals then .ok () else .error (.invalidNullComparison operator)
  else if operator ∈ type.comparisons then .ok ()
  else .error (.notSupported (.comparison operator type))

/-- The value that a JSON value stands for in a comparison. -/
def literal (m : Metadata) (typing : Option Attribute) (v : Json) : Except RequestError Value :=
  match typing with
  | some held => held.literal m v
  | none => ScalarType.bigint.literal v

end Known

namespace Compile

/-- Opens a select over the resources at the end of a path, which has to end in a to-many
relationship. -/
def related (c : Context) (root : Occurrence) (path : List String) : Compile Related :=
  match path.getLast? with
  | none => throw .emptyFieldPath
  | some relationship => do
    let here ← walkPath c .toField root path.dropLast
    let parent ← ofExcept (c.metadata.findResource here.resource)
    let key ← foreignKey c.metadata parent relationship
    if key.isToOne then throw key.toManyError
    let target ← ofExcept (c.metadata.findResource key.target)
    let table := target.table (some (← freshAlias))
    let (outer, inner) ← ofExcept (joinColumns parent here key target table)
    return ⟨target.name, table, .equals (.column outer) (.column (.ofTable inner))⟩

/-- A select that counts the resources at the end of a path. -/
def count (c : Context) (root : Occurrence) (path : List String) : Compile Sql.Select := do
  return (← related c root path).select .count [] []

def side (c : Context) (root : Occurrence) : Request.Operand → Compile Side
  | .field path => do
    let (column, held) ← field c root path
    return .column column held
  | .count path => return .count (← count c root path)
  | .value .null | .null => return .null
  | .value value => return .value value

/-- Binds the value of a side. -/
def bindSide (c : Context) (typing : Option Attribute) : Side → Compile Sql.Operand
  | .column column _ => return .column column
  | .count select => return .count select
  | .null => return .null
  | .value value => do
    let bound ← ofExcept (Known.literal c.metadata typing value)
    return .parameter (← bindValue bound)

def comparison (c : Context) (root : Occurrence) (operator : Comparison)
    (left right : Request.Operand) : Compile Sql.Condition := do
  let left ← side c root left
  let right ← side c root right
  let typing ← ofExcept (Known.typing left.known right.known)
  let type := (typing.map (·.type)).getD .bigint
  ofExcept (Known.check operator type left.known right.known)
  let left ← bindSide c typing left
  let right ← bindSide c typing right
  return .comparison operator left right

def textMatch (c : Context) (root : Occurrence) (place : TextMatch) (path : List String)
    (text : String) : Compile Sql.Condition := do
  let (column, held) ← field c root path
  if !held.type.matchesText then throw (.notSupported (.textMatching held.type))
  return .like column place (← bindValue (.text (c.dialect.pattern place text)))

def anyOf (c : Context) (root : Occurrence) (path : List String) (values : List Json) :
    Compile Sql.Condition := do
  if values.isEmpty then throw .emptyValueList
  let (column, held) ← field c root path
  let bound ← forEach (fun value => do
    return Sql.Operand.parameter (← bindValue (← ofExcept (held.literal c.metadata value)))) values
  return .isIn column bound

/-- Conditions joined by a connective, of which there has to be one. -/
def joined (connective : Connective) (conditions : List Sql.Condition) : Compile Sql.Condition :=
  match Sql.Condition.combine connective conditions with
  | some condition => pure condition
  | none => throw (.notSupported .emptyLogical)

mutual

def condition (c : Context) (root : Occurrence) : Request.Filter → Compile Sql.Condition
  | .and terms => do joined .and (← conditions c root terms)
  | .or terms => do joined .or (← conditions c root terms)
  | .not filter => return .not (← condition c root filter)
  | .comparison operator left right => comparison c root operator left right
  | .textMatch place path text => textMatch c root place path text
  | .any path values => anyOf c root path values
  | .has path filter => return .exists (← relatedSelect c root path .one filter)

/-- A select over the resources at the end of a path that pass a filter, if there is one. -/
def relatedSelect (c : Context) (root : Occurrence) (path : List String)
    (projection : Sql.Projection) : Option Request.Filter → Compile Sql.Select
  | none => return (← related c root path).select projection [] []
  | some filter => do
    let opened ← related c root path
    let (inner, joins) ← inOwnScope (condition c opened.root filter)
    return opened.select projection joins [inner]

def conditions (c : Context) (root : Occurrence) :
    List Request.Filter → Compile (List Sql.Condition)
  | [] => pure []
  | filter :: filters => do
    let first ← condition c root filter
    let rest ← conditions c root filters
    return first :: rest

end

/-- A step that is done if there is something to do it with. -/
def optionally {α β : Type} (step : α → Compile β) : Option α → Compile (List β)
  | none => pure []
  | some a => return [← step a]

/-- The condition that the root is the resource of an identifier. -/
def identity (c : Context) (root : Occurrence) (resource : Resource) (id : Json) :
    Compile Sql.Condition := do
  let primaryKey ← ofExcept resource.primaryKey
  let parameter ← bindId c resource id
  return .equals (.column (root.column primaryKey.column .scalar)) (.parameter parameter)

/-- The condition of a whole request. -/
def requestCondition (c : Context) (root : Occurrence) (resource : Resource) (id : Option Json)
    (filter : Option Request.Filter) : Compile (Option Sql.Condition) := do
  let identities ← optionally (identity c root resource) id
  let filters ← optionally (condition c root) filter
  return Sql.conjunction? (identities ++ filters)

end Compile

end ResourceSql
