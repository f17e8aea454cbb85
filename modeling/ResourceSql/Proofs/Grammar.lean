/-
What a text carries of the condition that it was written for, and the grammar by
which it is read back.

`Condition.visible` is the condition with everything set to a fixed value that
its text says nothing about. `Condition.isRegular` asks for the names that are
not quoted: aliases are a `t` with digits behind it, parameters a `@p`. Schemas,
tables and columns may have any name.

`readers d n` reads conditions and selects that are nested at most `n` deep and
hold no list of more than `n` items. A reader for the next depth is built from
those for the depth before (`Scanner.condition`, `Scanner.select`).
-/
import ResourceSql.Proofs.Scanning
import ResourceSql.Sql.Node

namespace ResourceSql

/-- The limit has 32 bits, as those of requests have. -/
def Window.isRegular (w : Window) : Bool := w.limit.all (· < Nat.pow 2 32)

/-- On SQL Server a window with a limit is written with its offset. -/
def Window.visible (d : Dialect) (w : Window) : Window :=
  match d, w.limit with
  | .sqlServer, some n => ⟨some n, some (w.offset.getD 0)⟩
  | _, _ => w

namespace Sql

/-! ## Regular names -/

def isAlias (name : String) : Bool := isNumbered "t" name

def Parameter.isRegular (p : Parameter) : Bool := isNumbered "@p" p.name

def TableColumn.isRegular (c : TableColumn) : Bool := c.tableAlias.all isAlias

def Column.isRegular (c : Column) : Bool := c.aliasName.all isAlias

def Table.isRegular (t : Table) : Bool := t.aliasName.all isAlias

def Join.isRegular (j : Join) : Bool := j.table.isRegular && j.outer.isRegular && j.inner.isRegular

def Projection.isRegular : Projection → Bool
  | columns cs => cs.all Column.isRegular
  | one | count => true

mutual

def Select.isRegular : Select → Bool
  | ⟨projection, source, joins, filter, order, window, _⟩ =>
    projection.isRegular && source.isRegular && joins.all Join.isRegular && regularFilter filter &&
      regularOrder order && window.isRegular

def Source.isRegular : Source → Bool
  | .table t => t.isRegular
  | .select s => s.isRegular && s.aliasName.all isAlias

def regularFilter : Option Condition → Bool
  | none => true
  | some c => c.isRegular

def regularOrder : Option (List OrderTerm) → Bool
  | none => true
  | some terms => regularTerms terms

def regularTerms : List OrderTerm → Bool
  | [] => true
  | term :: terms => term.isRegular && regularTerms terms

def OrderTerm.isRegular : OrderTerm → Bool
  | .column c _ => c.isRegular
  | .count s _ => s.isRegular

def Condition.isRegular : Condition → Bool
  | .not child => child.isRegular
  | .logical _ first second rest => first.isRegular && second.isRegular && regularConditions rest
  | .comparison _ left right => left.isRegular && right.isRegular
  | .like column _ pattern => column.isRegular && pattern.isRegular
  | .isIn column values => column.isRegular && regularOperands values
  | .exists select => select.isRegular

def regularConditions : List Condition → Bool
  | [] => true
  | c :: cs => c.isRegular && regularConditions cs

def Operand.isRegular : Operand → Bool
  | .column c => c.isRegular
  | .parameter p => p.isRegular
  | .null => true
  | .count select => select.isRegular

def regularOperands : List Operand → Bool
  | [] => true
  | o :: os => o.isRegular && regularOperands os

end

/-! ## What the text carries -/

def Parameter.visible (p : Parameter) : Parameter := { p with value := .null }

/-- The name, and the alias through which the column is addressed. -/
def TableColumn.visible (c : TableColumn) : TableColumn := ⟨c.name, .scalar, c.tableAlias⟩

def Column.visible (c : Column) : Column := .ofTable ⟨c.name, .scalar, c.aliasName⟩

def Join.visible (j : Join) : Join := ⟨j.kind, j.table, j.outer.visible, j.inner.visible⟩

def Projection.visible : Projection → Projection
  | columns cs => columns (cs.map Column.visible)
  | one => one
  | count => count

mutual

/-- The alias of a select is written behind it only where it is read from. -/
def Select.visible (d : Dialect) : Select → Select
  | ⟨projection, source, joins, filter, order, window, _⟩ =>
    ⟨projection.visible, source.visible d, joins.map Join.visible, visibleFilter d filter,
      visibleOrder d order, window.visible d, none⟩

def Source.visible (d : Dialect) : Source → Source
  | .table t => .table t
  | .select s => .select { s.visible d with aliasName := s.aliasName }

def visibleFilter (d : Dialect) : Option Condition → Option Condition
  | none => none
  | some c => some (c.visible d)

def visibleOrder (d : Dialect) : Option (List OrderTerm) → Option (List OrderTerm)
  | none => none
  | some terms => some (visibleTerms d terms)

def visibleTerms (d : Dialect) : List OrderTerm → List OrderTerm
  | [] => []
  | term :: terms => term.visible d :: visibleTerms d terms

def OrderTerm.visible (d : Dialect) : OrderTerm → OrderTerm
  | .column c ascending => .column c.visible ascending
  | .count s ascending => .count (s.visible d) ascending

/-- The condition without the values of parameters, the place where a pattern has to match, and
the side of a null. -/
def Condition.visible (d : Dialect) : Condition → Condition
  | .not child => .not (child.visible d)
  | .logical connective first second rest =>
    .logical connective (first.visible d) (second.visible d) (visibleConditions d rest)
  | .comparison .equals .null right => .comparison .equals (right.visible d) .null
  | .comparison operator left right => .comparison operator (left.visible d) (right.visible d)
  | .like column _ pattern => .like column.visible .contains pattern.visible
  | .isIn column values => .isIn column.visible (visibleOperands d values)
  | .exists select => .exists (select.visible d)

def visibleConditions (d : Dialect) : List Condition → List Condition
  | [] => []
  | c :: cs => c.visible d :: visibleConditions d cs

def Operand.visible (d : Dialect) : Operand → Operand
  | .column c => .column c.visible
  | .parameter p => .parameter p.visible
  | .null => .null
  | .count select => .count (select.visible d)

def visibleOperands (d : Dialect) : List Operand → List Operand
  | [] => []
  | o :: os => o.visible d :: visibleOperands d os

end

/-! ## Reading -/

/-- How conditions and selects are read. -/
structure Readers where
  condition : Scanner Condition
  select : Scanner Select

namespace Scanner

def parameter : Scanner Parameter := do
  word "@p"
  let behind ← digits
  pure ⟨String.ofList ('@' :: 'p' :: behind), .null, by simp [isParameterName]⟩

def aliasPart : Scanner (Option String) := ifSees " AS " (some <$> numbered "t") (pure none)

def direction : Scanner Bool := ifSees " DESC" (pure false) (pure true)

def sign : Scanner Comparison :=
  ifSees " = " (pure .equals) <|
  ifSees " < " (pure .lessThan) <|
  ifSees " <= " (pure .lessOrEqual) <|
  ifSees " > " (pure .greaterThan) <|
  ifSees " >= " (pure .greaterOrEqual) failure

def count (before : String) : Scanner (Option Nat) :=
  ifSees before (some <$> number) (pure none)

variable (d : Dialect)

def tableColumn : Scanner TableColumn :=
  ifAhead "t"
    (do
      let aliasName ← numbered "t"
      word "."
      let name ← quoted d
      pure ⟨name, .scalar, some aliasName⟩)
    ((fun name => ⟨name, .scalar, none⟩) <$> quoted d)

def column : Scanner Column := .ofTable <$> tableColumn d

def table : Scanner Table := do
  let first ← quoted d
  let names ← ifSees "." ((some first, ·) <$> quoted d) (pure (none, first))
  let aliasName ← aliasPart
  pure ⟨names.1, names.2, aliasName⟩

/-- A join from behind the word for its kind. -/
def join (kind : JoinKind) : Scanner Join := do
  let table ← table d
  word " ON "
  let outer ← column d
  word " = "
  let inner ← tableColumn d
  pure ⟨kind, table, outer, inner⟩

def joins : Nat → Scanner (List Join)
  | 0 => pure []
  | n + 1 =>
    let following (kind : JoinKind) : Scanner (List Join) := do
      let first ← join d kind
      let rest ← joins n
      pure (first :: rest)
    ifSees " INNER JOIN " (following .inner) (ifSees " LEFT JOIN " (following .left) (pure []))

def projection (n : Nat) : Scanner Projection :=
  ifSees "1" (pure .one) <|
  ifSees "COUNT(*)" (pure .count) <|
  .columns <$> listOf ", " (column d) n

def window : Scanner Window :=
  match d with
  | .postgreSql => do
    let limit ← count " LIMIT "
    let offset ← count " OFFSET "
    pure ⟨limit, offset⟩
  | .mySql => do
    let limit ← count " LIMIT "
    let offset ← count " OFFSET "
    pure ⟨limit.filter (· ≠ unlimited), offset⟩
  | .sqlServer =>
    ifSees " OFFSET " (do
      let offset ← number
      word " ROWS"
      let limit ← ifSees " FETCH NEXT " (do
        let limit ← number
        word " ROWS ONLY"
        pure (some limit)) (pure none)
      pure ⟨limit, some offset⟩) (pure .all)

variable (r : Readers) (n : Nat)

def operand : Scanner Operand :=
  ifSees "NULL" (pure .null) <|
  ifAhead "@" (.parameter <$> parameter) <|
  ifAhead "(" (.count <$> bracketed r.select) (.column <$> column d)

/-- What is said of the first operand. -/
def relation (left : Operand) : Scanner Condition :=
  ifSees " IS NULL" (pure (.comparison .equals left .null)) <|
  ifSees " LIKE " (do
    let pattern ← parameter
    match left with
    | .column c => pure (.like c .contains pattern)
    | _ => failure) <|
  ifSees " IN " (do
    let values ← bracketed (listOf ", " (operand d r) n)
    match left with
    | .column c => pure (.isIn c values)
    | _ => failure) <|
  do
    let operator ← sign
    let right ← operand d r
    pure (.comparison operator left right)

def comparison : Scanner Condition := do
  let left ← operand d r
  relation d r n left

/-- The terms of a connective behind the first one. -/
def terms (connective : Connective) (first : Condition) : Scanner Condition := do
  let second ← bracketed r.condition
  let rest ← more (" " ++ connective.word ++ " ") (bracketed r.condition) n
  pure (.logical connective first second rest)

def logical : Scanner Condition := do
  let first ← bracketed r.condition
  ifSees " AND " (terms r n .and first) (do
    word " OR "
    terms r n .or first)

/-- A bracket opens a term of a connective, or a count, which is a select. -/
def condition : Scanner Condition :=
  ifSees "NOT " (.not <$> bracketed r.condition) <|
  ifSees "EXISTS " (.exists <$> bracketed r.select) <|
  ifAhead "(SELECT " (comparison d r n) <|
  ifAhead "(" (logical r n) (comparison d r n)

def source : Scanner Source :=
  ifAhead "("
    (do
      let s ← bracketed r.select
      let aliasName ← aliasPart
      pure (.select { s with aliasName }))
    (.table <$> table d)

def orderTerm : Scanner OrderTerm :=
  ifAhead "("
    (do
      let s ← bracketed r.select
      let ascending ← direction
      pure (.count s ascending))
    (do
      let c ← column d
      let ascending ← direction
      pure (.column c ascending))

/-- An order by nothing stands for none. -/
def order : Scanner (Option (List OrderTerm)) :=
  ifSees " ORDER BY (SELECT NULL)" (pure none) <|
  ifSees " ORDER BY " (some <$> listOf ", " (orderTerm d r) n) (pure none)

def select : Scanner Select := do
  word "SELECT "
  let projection ← projection d n
  word " FROM "
  let source ← source d r
  let joins ← joins d n
  let filter ← ifSees " WHERE " (some <$> r.condition) (pure none)
  let order ← order d r n
  let window ← window d
  pure ⟨projection, source, joins, filter, order, window, none⟩

end Scanner

def readers (d : Dialect) : Nat → Readers
  | 0 => ⟨failure, failure⟩
  | n + 1 => ⟨Scanner.condition d (readers d n) n, Scanner.select d (readers d n) n⟩

end Sql

end ResourceSql
