/-
What statements read from a database. A select joins the rows of its tables,
keeps those on which its filter is true, sorts them, and takes its window of
them; what is read of each row are the values of its projection. A name of a
column is looked up through the alias it is addressed with, in the rows that are
bound where it stands: those of the select itself and, in a subquery of a
condition, those of the selects around it.

How values are compared, matched and ordered is a matter of the database, given
as an `Engine`.
-/
import ResourceSql.Proofs.Truth
import ResourceSql.Sql.Tree

namespace ResourceSql

/-- What a database does with values. -/
structure Engine where
  /-- Whether a comparison holds between two values, none of which is null. -/
  holds : Comparison → Value → Value → Bool
  /-- Whether a value that is not null is like a pattern. -/
  resembles : Value → Value → Bool
  /-- The value of a count. -/
  number : Nat → Value
  /-- How values are sorted, null included. -/
  order : Value → Value → Ordering

namespace Engine

variable (g : Engine)

/-- A comparison, which is unknown if a side is null. -/
def compare (operator : Comparison) (a b : Value) : Truth :=
  if a.isNull || b.isNull then .unknown else .ofBool (g.holds operator a b)

/-- A match against a pattern. -/
def like (a pattern : Value) : Truth :=
  if a.isNull || pattern.isNull then .unknown else .ofBool (g.resembles a pattern)

/-- Whether a value is one of several. -/
def among (a : Value) (values : List Value) : Truth :=
  .any (values.map (g.compare .equals a))

/-- Whether sort keys may stand before others, where `ascending` tells the direction of each. -/
def sorted : (ascending : List Bool) → List Value → List Value → Bool
  | up :: ups, a :: as, b :: bs =>
    match if up then g.order a b else g.order b a with
    | .lt => true
    | .gt => false
    | .eq => sorted ups as bs
  | _, _, _ => true

end Engine

/-- The values of a row, by the names of its columns. -/
abbrev Row := String → Value

/-- The row that stands for a missing one. -/
def Row.null : Row := fun _ => .null

/-- The rows of each table, by its schema and name. -/
structure Database where
  rows : Option String → String → List Row

/-- The rows that are bound to aliases, and the one of a table without an alias. -/
abbrev Bound := Option String → Row

namespace Bound

def empty : Bound := fun _ => Row.null

def bind (e : Bound) (aliasName : Option String) (row : Row) : Bound := fun other =>
  if other = aliasName then row else e other

/-- The value of a column. -/
def column (e : Bound) (c : Sql.Column) : Value := e c.aliasName c.name

@[simp] theorem bind_self (e : Bound) (aliasName : Option String) (row : Row) :
    e.bind aliasName row aliasName = row := by simp [bind]

theorem bind_other {e : Bound} {aliasName other : Option String} {row : Row}
    (h : other ≠ aliasName) : e.bind aliasName row other = e other := by simp [bind, h]

end Bound

/-- The elements in a window. -/
def Window.of {α : Type} (w : Window) (elements : List α) : List α :=
  let rest := elements.drop (w.offset.getD 0)
  match w.limit with
  | none => rest
  | some n => rest.take n

theorem Window.of_map {α β : Type} (w : Window) (f : α → β) (elements : List α) :
    w.of (elements.map f) = (w.of elements).map f := by
  unfold Window.of
  cases w.limit <;> simp [List.map_take, List.map_drop]

theorem Window.mem_of {α : Type} {w : Window} {elements : List α} {a : α} (h : a ∈ w.of elements) :
    a ∈ elements := by
  unfold Window.of at h
  split at h
  · exact List.mem_of_mem_drop h
  · exact List.mem_of_mem_drop (List.mem_of_mem_take h)

theorem Window.of_isAll {α : Type} {w : Window} (h : w.isAll = true) (elements : List α) :
    w.of elements = elements := by
  obtain ⟨limit, offset⟩ := w
  simp only [isAll, Bool.and_eq_true, Option.isNone_iff_eq_none] at h
  obtain ⟨rfl, rfl⟩ := h
  rfl

namespace Sql

section

variable (g : Engine) (db : Database)

/-- The rows that a join adds a row to. A left join adds a missing row if there is no other. -/
def Join.extend (j : Join) (e : Bound) : List Bound :=
  let found := (db.rows j.table.schema j.table.name).filter fun row =>
    let e := e.bind j.table.aliasName row
    g.compare .equals (e.column j.outer) (e.column (.ofTable j.inner)) = .true
  match j.kind, found with
  | .left, [] => [e.bind j.table.aliasName .null]
  | _, found => found.map (e.bind j.table.aliasName)

/-- The rows that joins make of a row, in the order of joining. -/
def joinAll : List Join → Bound → List Bound
  | [], e => [e]
  | j :: js, e => (j.extend g db e).flatMap (joinAll js)

/-- What is read of a row. -/
def Projection.values (e : Bound) : Projection → List Value
  | columns cs => cs.map e.column
  | one => [g.number 1]
  | count => []

/-- What a select reads, as a row whose columns are those that were selected. -/
def Projection.row : Projection → List Value → Row
  | columns cs, values => fun name => (((cs.map Column.name).zip values).lookup name).getD .null
  | _, _ => .null

def OrderTerm.ascending : OrderTerm → Bool
  | column _ up => up
  | count _ up => up

mutual

/-- What a select reads, where `e` are the rows bound around it. -/
def Select.result : Select → Bound → List (List Value)
  | ⟨projection, source, joins, filter, order, window, _⟩, e =>
    let rows := ((source.bindings e).flatMap (joinAll g db joins)).filter fun e =>
      filterTruth filter e = .true
    match projection with
    | .count => window.of [[g.number rows.length]]
    | projection =>
      (window.of (match order with
        | none => rows
        | some terms => rows.mergeSort fun a b =>
          g.sorted (terms.map OrderTerm.ascending) (sortKeys terms a) (sortKeys terms b))).map
        (projection.values g)

/-- The rows of the source of a select. A subquery there sees nothing of the selects around it. -/
def Source.bindings : Source → Bound → List Bound
  | .table t, e => (db.rows t.schema t.name).map (e.bind t.aliasName)
  | .select s, e => (s.result .empty).map fun values =>
    e.bind s.aliasName (s.projection.row values)

def filterTruth : Option Condition → Bound → Truth
  | none, _ => .true
  | some c, e => c.truth e

def sortKeys : List OrderTerm → Bound → List Value
  | [], _ => []
  | term :: terms, e => term.key e :: sortKeys terms e

def OrderTerm.key : OrderTerm → Bound → Value
  | .column c _, e => e.column c
  | .count s _, e => ((s.result e).head?.bind List.head?).getD .null

def Condition.truth : Condition → Bound → Truth
  | .not child, e => (child.truth e).not
  | .logical .and first second rest, e => .all (first.truth e :: second.truth e :: truths rest e)
  | .logical .or first second rest, e => .any (first.truth e :: second.truth e :: truths rest e)
  | .comparison .equals left .null, e => .ofBool (left.value e).isNull
  | .comparison .equals .null right, e => .ofBool (right.value e).isNull
  | .comparison operator left right, e => g.compare operator (left.value e) (right.value e)
  | .like column _ pattern, e => g.like (e.column column) pattern.value
  | .isIn column values, e => g.among (e.column column) (operandValues values e)
  | .exists select, e => .ofBool (!(select.result e).isEmpty)

def truths : List Condition → Bound → List Truth
  | [], _ => []
  | c :: cs, e => c.truth e :: truths cs e

def Operand.value : Operand → Bound → Value
  | .column c, e => e.column c
  | .parameter p, _ => p.value
  | .null, _ => .null
  | .count select, e => ((select.result e).head?.bind List.head?).getD .null

def operandValues : List Operand → Bound → List Value
  | [], _ => []
  | operand :: operands, e => operand.value e :: operandValues operands e

end

/-- The rows on which the filter of a select is true. -/
def Select.matched (s : Select) (e : Bound) : List Bound :=
  ((s.source.bindings g db e).flatMap (joinAll g db s.joins)).filter fun e =>
    filterTruth g db s.filter e = .true

/-- Rows in the order of sort terms, those that none of the terms tells apart as they were. -/
def arrange (order : Option (List OrderTerm)) (rows : List Bound) : List Bound :=
  match order with
  | none => rows
  | some terms => rows.mergeSort fun a b =>
    g.sorted (terms.map OrderTerm.ascending) (sortKeys g db terms a) (sortKeys g db terms b)

end

theorem truths_eq_map (g : Engine) (db : Database) (cs : List Condition) (e : Bound) :
    truths g db cs e = cs.map fun c => c.truth g db e := by
  induction cs with
  | nil => rfl
  | cons c cs ih => rw [truths, ih, List.map_cons]

end Sql

end ResourceSql
