/-
The rows of a query. Before windows and order, a select matches the joined rows
of the rows that are asked for (`Asked.matched`). If it joins along to-one
relationships only, it reads the page of the query, one row for each resource
(`Arranged.result_toOne`).
-/
import ResourceSql.Proofs.Requests

namespace ResourceSql

section

variable {α β : Type}

theorem filter_flatMap_eq {l : List α} {f : α → List β} {keep : β → Bool} {keep' : α → Bool}
    (same : ∀ a ∈ l, ∀ b ∈ f a, keep b = keep' a) :
    (l.flatMap f).filter keep = (l.filter keep').flatMap f := by
  induction l with
  | nil => rfl
  | cons a l ih =>
    have rest := ih fun b member => same b (List.mem_cons_of_mem _ member)
    have first := same a (List.mem_cons_self ..)
    rw [List.flatMap_cons, List.filter_append, rest, List.filter_cons]
    cases kept : keep' a with
    | true =>
      have all : (f a).filter keep = f a := List.filter_eq_self.2 fun b member => by
        rw [first b member, kept]
      rw [all, if_pos rfl, List.flatMap_cons]
    | false =>
      have none : (f a).filter keep = [] := List.filter_eq_nil_iff.2 fun b member => by
        rw [first b member, kept]
        simp
      rw [none, List.nil_append, if_neg (by simp)]

theorem flatMap_eq_map {l : List α} {f : α → List β} {f' : α → β} (single : ∀ a ∈ l, f a = [f' a]) :
    l.flatMap f = l.map f' := by
  induction l with
  | nil => rfl
  | cons a l ih =>
    rw [List.flatMap_cons, single a (List.mem_cons_self ..),
      ih fun b member => single b (List.mem_cons_of_mem _ member)]
    rfl

end

section

variable {g : Engine} {db : Database} {c : Context} {r : Resource} {table : Sql.Table}
  {q : Request.Query} {t : Progress}

/-- The root of a select over a table. -/
abbrev Resource.root (r : Resource) (table : Sql.Table) : Occurrence := ⟨r.name, .table table⟩

/-- A filter that says which rows are asked for, in the scope at the end of its compilation. -/
structure Asked (g : Engine) (db : Database) (c : Context) (r : Resource) (table : Sql.Table)
    (q : Request.Query) (t : Progress) (filter : Option Sql.Condition) : Prop where
  stored : r.table table.aliasName = table
  sound : Sound c (r.root table) r t
  asked : OnRows g db c (r.root table) r t fun row e =>
    Sql.filterTruth g db filter e = Graph.asked g db c r q.id q.filter row

/-- A filter, with terms that say how rows are sorted. -/
structure Arranged (g : Engine) (db : Database) (c : Context) (r : Resource) (table : Sql.Table)
    (q : Request.Query) (t : Progress) (filter : Option Sql.Condition) (terms : List Sql.OrderTerm) :
    Prop extends Asked g db c r table q t filter where
  directions : terms.map Sql.OrderTerm.ascending = Graph.directions q.sort
  keys : OnRows g db c (r.root table) r t fun row e =>
    Sql.sortKeys g db terms e = Graph.sortKeys g db c r q.sort row

namespace Asked

variable {filter : Option Sql.Condition}

/-- The rows that are joined to a row. -/
def joined (g : Engine) (db : Database) (table : Sql.Table) (t : Progress) (e : Bound) (row : Row) :
    List Bound :=
  Sql.joinAll g db (t.joins.map (·.join)) (e.bind table.aliasName row)

theorem shows (e : Bound) (row : Row) : r.Shows ((e.bind table.aliasName row) table.aliasName) row := by
  rw [Bound.bind_self]
  exact .refl r row

theorem here (h : Asked g db c r table q t filter) {fact : Row → Bound → Prop}
    (means : OnRows g db c (r.root table) r t fact) {row : Row} (stored : row ∈ db.rowsOf r)
    {e e' : Bound} (member : e' ∈ joined g db table t e row) : fact row e' :=
  means.here h.sound stored (shows e row) member

theorem joined_ne_nil (h : Asked g db c r table q t filter) (honoured : db.Honours g c.metadata)
    {row : Row} (stored : row ∈ db.rowsOf r) (e : Bound) : joined g db table t e row ≠ [] :=
  h.sound.linked.joinAll_ne_nil honoured h.sound.named stored (shows e row)

theorem joined_toOne (h : Asked g db c r table q t filter) (honoured : db.Honours g c.metadata)
    (toOne : ∀ j ∈ t.joins, c.metadata.leadsToMany r j.path = false) {row : Row}
    (stored : row ∈ db.rowsOf r) (e : Bound) : ∃ e', joined g db table t e row = [e'] :=
  h.sound.linked.joinAll_toOne honoured h.sound.named stored (shows e row) toOne

/-- A select matches the joined rows of the rows that are asked for. -/
theorem matched (h : Asked g db c r table q t filter) {projection : Sql.Projection}
    {order : Option (List Sql.OrderTerm)} {window : Window} {aliasName : Option String} (e : Bound) :
    (⟨projection, .table table, t.joins.map (·.join), filter, order, window, aliasName⟩ :
      Sql.Select).matched g db e =
        (Graph.askedRows g db c r q).flatMap (joined g db table t e) := by
  have rows : db.rows table.schema table.name = db.rowsOf r := by
    rw [← h.stored]
    rfl
  simp only [Sql.Select.matched, Sql.Source.bindings, rows, List.flatMap_map]
  refine filter_flatMap_eq fun row stored e' member => decide_eq_decide.2 ?_
  rw [h.here h.asked stored member]

end Asked

namespace Arranged

variable {filter : Option Sql.Condition} {terms : List Sql.OrderTerm}

/-- Rows are sorted like the rows of the root that they were joined to. -/
theorem sorted_eq (h : Arranged g db c r table q t filter terms) {a b : Row} {e e₁ e₂ : Bound}
    (first : a ∈ db.rowsOf r) (second : b ∈ db.rowsOf r)
    (member : e₁ ∈ Asked.joined g db table t e a) (member' : e₂ ∈ Asked.joined g db table t e b) :
    g.sorted (terms.map Sql.OrderTerm.ascending) (Sql.sortKeys g db terms e₁)
      (Sql.sortKeys g db terms e₂) = Graph.before g db c r q.sort a b := by
  rw [h.directions, h.here h.keys first member, h.here h.keys second member', Graph.before]

/-- A select that joins along to-one relationships reads one row for each row of the page. -/
theorem result_toOne (h : Arranged g db c r table q t filter terms)
    (honoured : db.Honours g c.metadata)
    (toOne : ∀ j ∈ t.joins, c.metadata.leadsToMany r j.path = false)
    (columns : List Sql.Column) (aliasName : Option String) (e : Bound) :
    ∃ seen : Row → Bound,
      (∀ row ∈ db.rowsOf r, seen row ∈ Asked.joined g db table t e row) ∧
      (⟨.columns columns, .table table, t.joins.map (·.join), filter, some terms, q.window, aliasName⟩ :
        Sql.Select).result g db e =
          (Graph.page g db c r q).map fun row => columns.map (seen row).column := by
  let seen : Row → Bound := fun row => (Asked.joined g db table t e row).headD .empty
  have joined : ∀ row ∈ db.rowsOf r, Asked.joined g db table t e row = [seen row] := by
    intro row stored
    obtain ⟨e', same⟩ := h.joined_toOne honoured toOne stored e
    simp [seen, same]
  have member : ∀ row ∈ db.rowsOf r, seen row ∈ Asked.joined g db table t e row := by
    intro row stored
    rw [joined row stored]
    exact List.mem_singleton_self _
  have stored : ∀ row ∈ Graph.askedRows g db c r q, row ∈ db.rowsOf r := fun row asked =>
    (List.mem_filter.1 asked).1
  refine ⟨seen, member, ?_⟩
  rw [Sql.Select.result_columns rfl]
  dsimp only
  rw [h.matched, flatMap_eq_map fun row asked => joined row (stored row asked), Sql.arrange,
    ← List.map_mergeSort (r := Graph.before g db c r q.sort), Window.of_map, List.map_map]
  · rfl
  · intro a first b second
    exact (h.sorted_eq (stored a first) (stored b second) (member a (stored a first))
      (member b (stored b second))).symm

end Arranged

end

end ResourceSql
