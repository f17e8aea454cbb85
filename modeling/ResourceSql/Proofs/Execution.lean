/-
What statements write to a database. An update gives values to columns of the
rows on which its filter is true, a delete removes such rows, and an insert adds
a row. Where a filter reads nothing but the row it is about, what becomes of a row
does not depend on the other rows: the statement makes a `Change`, and statements
that are executed in order make one change after the other (`MakeAll.append`).
-/
import Mathlib.Data.List.Basic
import ResourceSql.Proofs.Evaluation

namespace ResourceSql

/-- A database at work: besides what it does with values, what it gives the columns of a new row
that no value is assigned to. -/
structure Server extends Engine where
  initial : Database → Sql.Table → Row

namespace Row

/-- The row with another value in a column. -/
def set (row : Row) (column : String) (value : Value) : Row := fun name =>
  if name = column then value else row name

/-- The row with other values in several columns. Of two values for a column the later one counts. -/
def setAll (row : Row) : List (String × Value) → Row
  | [] => row
  | (column, value) :: values => (row.set column value).setAll values

@[simp] theorem set_self (row : Row) (column : String) (value : Value) :
    row.set column value column = value := by simp [set]

theorem set_other {row : Row} {column other : String} (h : other ≠ column) (value : Value) :
    row.set column value other = row other := by simp [set, h]

theorem setAll_other {row : Row} {values : List (String × Value)} {column : String}
    (h : ∀ entry ∈ values, entry.1 ≠ column) : row.setAll values column = row column := by
  induction values generalizing row with
  | nil => rfl
  | cons entry values ih =>
    obtain ⟨first, rest⟩ := List.forall_mem_cons.1 h
    rw [setAll, ih rest, set_other first.symm]

end Row

/-- What becomes of the rows of each table, by its schema and name. A row of which nothing becomes
is removed. -/
abbrev Change := Option String → String → Row → Option Row

namespace Change

/-- All rows stay as they are. -/
def keep : Change := fun _ _ row => some row

/-- A change of the rows of one table. -/
def inTable (t : Sql.Table) (f : Row → Option Row) : Change := fun schema name row =>
  if schema = t.schema ∧ name = t.name then f row else some row

/-- One change after another. -/
def andThen (first second : Change) : Change := fun schema name row =>
  (first schema name row).bind (second schema name)

/-- A column of a table is the same as before in all rows that remain. -/
def Keeps (f : Change) (schema : Option String) (name column : String) : Prop :=
  ∀ row row', f schema name row = some row' → row' column = row column

@[simp] theorem inTable_self (t : Sql.Table) (f : Row → Option Row) (row : Row) :
    inTable t f t.schema t.name row = f row := by simp [inTable]

theorem andThen_eq_some_iff {first second : Change} {schema : Option String} {name : String}
    {row row' : Row} : andThen first second schema name row = some row' ↔
      ∃ between, first schema name row = some between ∧ second schema name between = some row' :=
  Option.bind_eq_some_iff

/-- A row that is changed is changed by one of two changes as it was before both. -/
theorem changed_of_andThen {first second : Change} {schema : Option String} {name : String}
    {row : Row} (h : andThen first second schema name row ≠ some row) :
    first schema name row ≠ some row ∨ second schema name row ≠ some row := by
  by_cases same : first schema name row = some row
  · right
    intro unchanged
    exact h (andThen_eq_some_iff.2 ⟨row, same, unchanged⟩)
  · exact .inl same

theorem keep_keeps (schema : Option String) (name column : String) :
    Keeps keep schema name column := by
  intro row row' same
  rw [Option.some.inj same]

theorem Keeps.andThen {first second : Change} {schema : Option String} {name column : String}
    (h : first.Keeps schema name column) (h' : second.Keeps schema name column) :
    (Change.andThen first second).Keeps schema name column := by
  intro row row' done
  obtain ⟨between, before, after⟩ := andThen_eq_some_iff.1 done
  rw [h' _ _ after, h _ _ before]

section

variable {t : Sql.Table} {chosen : Row → Prop} [DecidablePred chosen] {act : Row → Option Row}
  {schema : Option String} {name column : String}

/-- A row that a change of chosen rows of a table affects lies in the table, and is chosen. -/
theorem changed_of_inTable {row : Row}
    (h : inTable t (fun row => if chosen row then act row else some row) schema name row ≠ some row) :
    schema = t.schema ∧ name = t.name ∧ chosen row := by
  by_cases here : schema = t.schema ∧ name = t.name
  · refine ⟨here.1, here.2, ?_⟩
    by_contra other
    simp [inTable, here, other] at h
  · simp [inTable, here] at h

theorem Keeps.inTable (h : schema = t.schema → name = t.name →
    ∀ row row', act row = some row' → row' column = row column) :
    (Change.inTable t fun row => if chosen row then act row else some row).Keeps schema name
      column := by
  intro row row' done
  simp only [Change.inTable] at done
  split at done
  · next here =>
    split at done
    · exact h here.1 here.2 row row' done
    · rw [Option.some.inj done]
  · rw [Option.some.inj done]

end

end Change

namespace Database

theorem ext_rows {db db' : Database} (h : ∀ schema name, db.rows schema name = db'.rows schema name) :
    db = db' := by
  cases db
  cases db'
  simp only [mk.injEq]
  funext schema name
  exact h schema name

/-- The database with the rows that a change leaves. -/
def map (db : Database) (f : Change) : Database where
  rows schema name := (db.rows schema name).filterMap (f schema name)

/-- The database with one more row in a table. -/
def add (db : Database) (t : Sql.Table) (row : Row) : Database where
  rows schema name :=
    if schema = t.schema ∧ name = t.name then db.rows schema name ++ [row] else db.rows schema name

@[simp] theorem map_keep (db : Database) : db.map .keep = db :=
  ext_rows fun _ _ => List.filterMap_some

theorem map_map (db : Database) (first second : Change) :
    (db.map first).map second = db.map (first.andThen second) :=
  ext_rows fun _ _ => List.filterMap_filterMap

theorem map_congr {db : Database} {f f' : Change}
    (h : ∀ schema name, ∀ row ∈ db.rows schema name, f schema name row = f' schema name row) :
    db.map f = db.map f' :=
  ext_rows fun schema name => List.filterMap_congr (h schema name)

end Database

namespace Sql

variable (g : Server)

/-- The row with the values that are assigned to its columns. -/
def assign (db : Database) (e : Bound) : List Assignment → Row → Row
  | [], row => row
  | a :: as, row => assign db e as (row.set a.column.name (a.value.value g.toEngine db e))

/-- What an update does to the rows of a database. -/
def Update.change (u : Update) (db : Database) : Change := .inTable u.table fun row =>
  let e := Bound.empty.bind u.table.aliasName row
  if u.filter.truth g.toEngine db e = .true then some (assign g db e u.assignments row) else some row

/-- What a delete does to the rows of a database. -/
def Delete.change (d : Delete) (db : Database) : Change := .inTable d.table fun row =>
  if d.filter.truth g.toEngine db (Bound.empty.bind d.table.aliasName row) = .true then none
  else some row

/-- The database after a statement. -/
def Statement.execute (db : Database) : Statement → Database
  | .select _ => db
  | .insert i => db.add i.table (assign g db .empty i.assignments (g.initial db i.table))
  | .update u => db.map (u.change g db)
  | .delete d => db.map (d.change g db)

/-- The database after statements that are executed in order. -/
def executeAll (statements : List Statement) (db : Database) : Database :=
  statements.foldl (Statement.execute g) db

/-- Statements that are executed in order make a change, whatever the database holds. -/
def MakeAll (statements : List Statement) (f : Change) : Prop :=
  ∀ db, executeAll g statements db = db.map f

variable {g}

theorem executeAll_append (statements others : List Statement) (db : Database) :
    executeAll g (statements ++ others) db = executeAll g others (executeAll g statements db) :=
  List.foldl_append

namespace MakeAll

variable {statements others : List Statement} {f f' : Change}

theorem nil : MakeAll g [] .keep := fun db => (Database.map_keep db).symm

theorem append (h : MakeAll g statements f) (h' : MakeAll g others f') :
    MakeAll g (statements ++ others) (f.andThen f') := by
  intro db
  rw [executeAll_append, h, h', Database.map_map]

/-- An update whose filter and values do not depend on the database. -/
theorem update {u : Update} {act : Row → Option Row}
    (h : ∀ db row, (if u.filter.truth g.toEngine db (Bound.empty.bind u.table.aliasName row) = .true
      then some (assign g db (Bound.empty.bind u.table.aliasName row) u.assignments row)
      else some row) = act row) :
    MakeAll g [.update u] (.inTable u.table act) := by
  intro db
  have same : u.change g db = .inTable u.table act := congrArg (Change.inTable u.table) (funext (h db))
  exact congrArg db.map same

/-- A delete whose filter does not depend on the database. -/
theorem delete {d : Delete} {act : Row → Option Row}
    (h : ∀ db row, (if d.filter.truth g.toEngine db (Bound.empty.bind d.table.aliasName row) = .true
      then none else some row) = act row) :
    MakeAll g [.delete d] (.inTable d.table act) := by
  intro db
  have same : d.change g db = .inTable d.table act := congrArg (Change.inTable d.table) (funext (h db))
  exact congrArg db.map same

end MakeAll

end Sql

end ResourceSql
