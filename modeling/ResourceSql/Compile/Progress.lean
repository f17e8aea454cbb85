/-
The progress of a compilation: the counters that names are taken from, the
foreign keys that were looked up, and the tables that were joined so far. What a
step did stays done when it fails.
-/
import ResourceSql.Compile.ForeignKey

namespace ResourceSql

/-- What requests are compiled against. -/
structure Context where
  metadata : Metadata
  dialect : Dialect
  deriving DecidableEq

/-- How the columns of a table are addressed in a statement: through the alias of the table, or as
what a subquery selects of it. -/
inductive Address where
  | table (t : Sql.Table)
  | subquery (t : Sql.Table) (aliasName : String)
  deriving DecidableEq

/-- An occurrence of the table of a type of resources in a statement. -/
structure Occurrence where
  resource : String
  address : Address
  deriving DecidableEq

namespace Occurrence

def column (o : Occurrence) (name : String) (role : Sql.ColumnRole) : Sql.Column :=
  match o.address with
  | .table t => .ofTable (t.column name role)
  | .subquery t aliasName => .ofSelect ⟨t.column name role, aliasName⟩

end Occurrence

/-- A table that is joined because a path leads to it. -/
structure PathJoin where
  /-- The relationships that lead there from the root. -/
  path : List String
  resource : String
  join : Sql.Join
  /-- Whether the columns of the table are selected. -/
  included : Bool
  deriving DecidableEq

def PathJoin.occurrence (j : PathJoin) : Occurrence := ⟨j.resource, .table j.join.table⟩

/-- Foreign keys by the names of the declaring type and the relationship. -/
abbrev KeyMemory := List ((String × String) × ForeignKey)

structure Progress where
  /-- How many table aliases were given out. -/
  tables : Nat
  /-- How many parameters the current statement has. -/
  parameters : Nat
  /-- The foreign keys that were looked up, if they are remembered at all. -/
  memory : Option KeyMemory
  /-- The joins of the select that is being compiled, in the order of joining. -/
  joins : List PathJoin
  deriving DecidableEq

namespace Progress

def start : Progress := ⟨0, 0, some [], []⟩

/-- The join at the end of a path, if the path was walked. -/
def joinAt (p : Progress) (path : List String) : Option PathJoin :=
  p.joins.find? (·.path = path)

end Progress

/-- A step of a compilation. -/
abbrev Compile := EStateM RequestError Progress

namespace Compile

/-- A step that needs no progress. -/
def ofExcept {α : Type} : Except RequestError α → Compile α
  | .ok a => pure a
  | .error e => throw e

/-- The result of a compilation from its start. -/
def result {α : Type} (step : Compile α) : Except RequestError α :=
  match step Progress.start with
  | .ok a _ => .ok a
  | .error e _ => .error e

/-- An alias that no other table has. -/
def freshAlias : Compile String := do
  modify fun p => { p with tables := p.tables + 1 }
  return String.ofList ('t' :: Digits.ofNat (← get).tables)

/-- The next parameter of the statement, with a value for it. -/
def bindValue (value : Value) : Compile Sql.Parameter := do
  modify fun p => { p with parameters := p.parameters + 1 }
  return .numbered (← get).parameters value

/-- Parameters are numbered anew in each statement. -/
def startStatement : Compile Unit := modify fun p => { p with parameters := 0 }

/-- Looks up a foreign key, unless it is remembered. Only found ones are. -/
def foreignKey (metadata : Metadata) (declaring : Resource) (relationship : String) :
    Compile ForeignKey := do
  let key := (declaring.name, relationship)
  match (← get).memory.bind (·.lookup key) with
  | some found => return found
  | none =>
    let found ← ofExcept (ForeignKey.resolve metadata declaring relationship)
    modify fun p => { p with memory := p.memory.map ((key, found) :: ·) }
    return found

def addJoin (join : PathJoin) : Compile Unit :=
  modify fun p => { p with joins := p.joins ++ [join] }

/-- The columns of the table at the end of a path are selected. -/
def includeJoin (path : List String) : Compile Unit :=
  modify fun p =>
    { p with joins := p.joins.map fun j => if j.path = path then { j with included := true } else j }

/-! ## What single steps do -/

@[simp] theorem ofExcept_ok {α : Type} (a : α) (p : Progress) : ofExcept (.ok a) p = .ok a p := rfl

@[simp] theorem ofExcept_error {α : Type} (e : RequestError) (p : Progress) :
    ofExcept (.error e : Except RequestError α) p = .error e p := rfl

theorem freshAlias_apply (p : Progress) :
    freshAlias p = .ok (String.ofList ('t' :: Digits.ofNat (p.tables + 1)))
      { p with tables := p.tables + 1 } := rfl

theorem bindValue_apply (value : Value) (p : Progress) :
    bindValue value p = .ok (.numbered (p.parameters + 1) value)
      { p with parameters := p.parameters + 1 } := rfl

theorem startStatement_apply (p : Progress) :
    startStatement p = .ok () { p with parameters := 0 } := rfl

theorem get_bind {α : Type} (f : Progress → Compile α) (p : Progress) : (get >>= f) p = f p p := rfl

theorem foreignKey_apply_of_remembered {metadata : Metadata} {declaring : Resource}
    {relationship : String} {p : Progress} {key : ForeignKey}
    (h : p.memory.bind (·.lookup (declaring.name, relationship)) = some key) :
    foreignKey metadata declaring relationship p = .ok key p := by
  rw [foreignKey, get_bind, h]
  rfl

/-- A foreign key that is not remembered is resolved, and remembered if it is found. -/
theorem foreignKey_apply_of_not_remembered {metadata : Metadata} {declaring : Resource}
    {relationship : String} {p : Progress}
    (h : p.memory.bind (·.lookup (declaring.name, relationship)) = none) :
    foreignKey metadata declaring relationship p =
      match ForeignKey.resolve metadata declaring relationship with
      | .ok key =>
        .ok key { p with memory := p.memory.map (((declaring.name, relationship), key) :: ·) }
      | .error e => .error e p := by
  rw [foreignKey, get_bind, h]
  cases ForeignKey.resolve metadata declaring relationship with
  | ok key => rfl
  | error e => rfl

/-! ## Scopes and lists -/

/-- Runs a step in a scope of its own, and hands out the joins of that scope. The joins outside
are the same afterwards. -/
def inOwnScope {α : Type} (step : Compile α) : Compile (α × List PathJoin) := fun p =>
  match step { p with joins := [] } with
  | .ok a q => .ok (a, q.joins) { q with joins := p.joins }
  | .error e q => .error e { q with joins := p.joins }

/-- Runs a step for each element, in order. -/
def forEach {α β : Type} (step : α → Compile β) : List α → Compile (List β)
  | [] => pure []
  | a :: as => do
    let b ← step a
    let bs ← forEach step as
    return b :: bs

end Compile

end ResourceSql
