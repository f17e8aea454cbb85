/-
Pages. A window on a query is one on the resources that it asks for: whatever is
read along, and whether that needs a subquery or not, the same resources are
read (`Compile.includes_keep_page`).
-/
import Mathlib.Data.List.Basic
import ResourceSql.Proofs.Queries

namespace ResourceSql

/-- The first value of each row that is read, which identifies the resource that the row is of. -/
def Sql.Select.keys (g : Engine) (db : Database) (s : Sql.Select) : List Value :=
  (s.result g db .empty).filterMap List.head?

theorem Metadata.leadsToMany_of_checkAny {m : Metadata} {r : Resource} {paths : List (List String)}
    (h : m.checkAnyToMany r paths = .ok false) : ∀ path ∈ paths, m.leadsToMany r path = false := by
  induction paths with
  | nil => simp
  | cons path paths ih =>
    obtain ⟨b, checked, h⟩ := Except.bind_eq_ok.1 h
    cases b with
    | true => cases h
    | false =>
      intro other member
      rcases List.mem_cons.1 member with rfl | member
      · exact leadsToMany_of_check checked
      · exact ih h other member

section

variable {g : Engine} {db : Database} {c : Context} {r : Resource} {table : Sql.Table}
  {q : Request.Query} {p p' : Progress} {s : Sql.Select} {primaryKey : Attribute}

theorem Graph.stored_of_mem_page {row : Row} (h : row ∈ Graph.page g db c r q) :
    row ∈ db.rowsOf r := by
  have asked := List.mem_mergeSort.1 (Window.mem_of h)
  exact (List.mem_filter.1 asked).1

/-- Without a window, the keys that are read are those of the rows that match. -/
theorem Sql.Select.mem_keys_iff {columns : List Sql.Column} (selects : s.projection = .columns columns)
    (all : s.window.isAll = true) {key : Value} :
    key ∈ s.keys g db ↔
      ∃ e ∈ s.matched g db .empty, (columns.map e.column).head? = some key := by
  have same : ∀ e, e ∈ Sql.arrange g db s.order (s.matched g db .empty) ↔
      e ∈ s.matched g db .empty := by
    intro e
    unfold Sql.arrange
    cases s.order with
    | none => exact Iff.rfl
    | some terms => exact List.mem_mergeSort
  rw [keys, result_columns selects, Window.of_isAll all]
  rw [List.filterMap_map, List.mem_filterMap]
  simp only [same, Function.comp_apply]

/-- What a select reads first of a row is the primary key of the row of its root. -/
theorem Asked.head_values {t : Progress} {filter : Option Sql.Condition}
    (h : Asked g db c r table q t filter) (honoured : db.Honours g c.metadata)
    (identified : r.primaryKey = .ok primaryKey) {fields : NameMap (List String)}
    {columns : List Sql.Column}
    (read : columnsRead c fields (r.root table) t.joins = .ok columns) {row : Row}
    (stored : row ∈ db.rowsOf r) {e e' : Bound} (member : e' ∈ joined g db table t e row) :
    (columns.map e'.column).head? = some (row primaryKey.column) := by
  obtain ⟨other, rest, same, rfl⟩ := columnsRead_head h.sound.named read
  obtain rfl : other = primaryKey := Except.ok.inj (same.symm.trans identified)
  have first := h.here (OnRows.column_root honoured h.sound identified) stored member
  rw [List.map_cons, List.head?_cons, first, Graph.keyValue, identified]

namespace Compile

/-- If everything that is read along is a single resource, there is one row for each row of the
page, in its order. -/
theorem result_plainRows (honoured : db.Honours g c.metadata)
    (stored : r.table table.aliasName = table) (sound : Sound c (r.root table) r p)
    (identified : r.primaryKey = .ok primaryKey)
    (toOne : ∀ path ∈ q.includes, c.metadata.leadsToMany r path = false)
    (run : plainRows c q r table p = .ok s p') :
    ∃ values : Row → List Value, s.result g db .empty = (Graph.page g db c r q).map values ∧
      ∀ row ∈ Graph.page g db c r q, (values row).head? = some (row primaryKey.column) := by
  have known := Metadata.findResource_self sound.named
  have included : ∀ path ∈ q.includes, ∀ start there, start <+: path →
      c.metadata.walk true r start = .ok there → FitsToOne c r start true := by
    rintro path member start there ⟨rest, rfl⟩ walked
    have whole := toOne _ member
    rw [Metadata.leadsToMany_append known walked, Bool.or_eq_false_iff] at whole
    exact whole.1
  obtain ⟨t, filter, terms, columns, arranged, later, read, rfl, -, -⟩ :=
    plainRows_ok honoured stored sound (.toOne sound) included run
  obtain ⟨seen, member, result⟩ := arranged.result_toOne honoured later.all_fit columns none .empty
  refine ⟨fun row => columns.map (seen row).column, result, fun row paged => ?_⟩
  exact arranged.head_values honoured identified read (Graph.stored_of_mem_page paged)
    (member row (Graph.stored_of_mem_page paged))

theorem keys_plainRows (honoured : db.Honours g c.metadata)
    (stored : r.table table.aliasName = table) (sound : Sound c (r.root table) r p)
    (identified : r.primaryKey = .ok primaryKey)
    (toOne : ∀ path ∈ q.includes, c.metadata.leadsToMany r path = false)
    (run : plainRows c q r table p = .ok s p') :
    s.keys g db = (Graph.page g db c r q).map fun row => row primaryKey.column := by
  obtain ⟨values, result, heads⟩ :=
    result_plainRows honoured stored sound identified toOne run
  rw [Sql.Select.keys, result, List.filterMap_map, ← List.filterMap_eq_map]
  exact List.filterMap_congr heads

/-- Around a page, the rows are those of the resources on the page, each of which has some. -/
theorem mem_keys_pagedRows (honoured : db.Honours g c.metadata)
    (stored : r.table table.aliasName = table) (sound : Sound c (r.root table) r p)
    (identified : r.primaryKey = .ok primaryKey) (run : pagedRows c q r table p = .ok s p')
    (key : Value) :
    key ∈ s.keys g db ↔ ∃ row ∈ Graph.page g db c r q, row primaryKey.column = key := by
  obtain ⟨t, filter, terms, columns, arranged, later, projected, -, -, aliasName, t', terms',
    columns', sound', read, rfl⟩ := pagedRows_ok honoured stored sound (.toOne sound) run
  obtain ⟨seen, member, result⟩ := arranged.result_toOne honoured later.all_fit
    (subqueryColumns table columns) (some aliasName) .empty
  -- The rows of the page as the subquery gives them, under its alias.
  let given : Row → Bound := fun row => Bound.empty.bind (some aliasName)
    ((Sql.Projection.columns (subqueryColumns table columns)).row
      ((subqueryColumns table columns).map (seen row).column))
  have shows : ∀ row ∈ Graph.page g db c r q, r.Shows (given row (some aliasName)) row := by
    intro row paged
    have stored := Graph.stored_of_mem_page paged
    simp only [given, Bound.bind_self]
    exact shows_row projected (arranged.here (OnRows.shows_root honoured arranged.sound) stored
      (member row stored))
  have heads : ∀ row ∈ Graph.page g db c r q,
      ∀ e ∈ Sql.joinAll g db (t'.joins.map (·.join)) (given row),
        (columns'.map e.column).head? = some (row primaryKey.column) := by
    intro row paged e joined
    obtain ⟨other, rest, same, rfl⟩ := columnsRead_head sound'.named read
    obtain rfl : other = primaryKey := Except.ok.inj (same.symm.trans identified)
    have first := (OnRows.column_root honoured sound' identified).here sound'
      (Graph.stored_of_mem_page paged) (shows row paged) joined
    rw [List.map_cons, List.head?_cons, first, Graph.keyValue, identified]
  rw [Sql.Select.mem_keys_iff rfl rfl]
  simp only [Sql.Select.matched, Sql.Source.bindings, result, Sql.filterTruth, decide_true,
    List.filter_true, List.mem_flatMap, List.map_map, List.mem_map]
  constructor
  · rintro ⟨e, ⟨_, ⟨row, paged, rfl⟩, joined⟩, head⟩
    rw [heads row paged e joined] at head
    exact ⟨row, paged, Option.some.inj head⟩
  · rintro ⟨row, paged, rfl⟩
    obtain ⟨e, joined⟩ := List.exists_mem_of_ne_nil _ (sound'.linked.joinAll_ne_nil honoured
      sound'.named (Graph.stored_of_mem_page paged) (shows row paged))
    exact ⟨e, ⟨given row, ⟨row, paged, rfl⟩, joined⟩, heads row paged e joined⟩

/-- A windowed query is read around a page, or at once if all that is read along is single. -/
theorem rows_ok_of_window (windowed : q.window.isAll = false)
    (accepted : (rows c q).result = .ok s) :
    ∃ r table p p₁ p', openTable c q.resource .start = .ok (r, table) p ∧
      Sound c (r.root table) r p₁ ∧
      (pagedRows c q r table p₁ = .ok s p' ∨
        plainRows c q r table p₁ = .ok s p' ∧
          ∀ path ∈ q.includes, c.metadata.leadsToMany r path = false) := by
  obtain ⟨p', run⟩ := result_ok.1 accepted
  obtain ⟨⟨r, table⟩, p, opened, run⟩ := bind_eq_ok.1 run
  obtain ⟨-, -, sound⟩ := openTable_ok opened
  dsimp only at run
  rw [windowed] at run
  obtain ⟨paged, p₁, looked, run⟩ := bind_eq_ok.1 run
  have looks : Keeps c (r.root table) r AnyFits _ _ _ _ := keeps_anyLeadsToMany q.includes sound
  obtain ⟨sound, -, b, checked, rfl, -⟩ := looks.of_ok looked
  cases paged with
  | true => exact ⟨r, table, p, p₁, p', opened, sound, .inl run⟩
  | false =>
    exact ⟨r, table, p, p₁, p', opened, sound, .inr ⟨run, Metadata.leadsToMany_of_checkAny checked⟩⟩

/-- What a compiled query tells of its parts: they are allowed, and the root can be read. -/
theorem parts_of_run (honoured : db.Honours g c.metadata) (stored : r.table table.aliasName = table)
    (sound : Sound c (r.root table) r p)
    (run : pagedRows c q r table p = .ok s p' ∨ plainRows c q r table p = .ok s p') :
    c.metadata.checkAsked r q.id q.filter = .ok () ∧ c.metadata.checkOrder r q.sort = .ok () ∧
      ∃ root joins columns, root.resource = r.name ∧
        columnsRead c q.fields root joins = .ok columns := by
  have fit := FitsFields.any c r
  rcases run with run | run
  · obtain ⟨_, _, _, _, -, -, -, asked, ordered, aliasName, t', _, columns, -, read, -⟩ :=
      pagedRows_ok honoured stored sound fit run
    exact ⟨asked, ordered, ⟨r.name, .subquery table aliasName⟩, t'.joins, columns, rfl, read⟩
  · obtain ⟨t, _, _, columns, -, -, read, -, asked, ordered⟩ := plainRows_ok
      honoured stored sound fit (fun _ _ _ _ _ _ => trivial) run
    exact ⟨asked, ordered, r.root table, t.joins, columns, rfl, read⟩

/-- **What is read along does not change which resources are on a page.** A windowed query that is
compiled is compiled also without what is read along. The rows are then those of the page, one for
each resource, in its order; and the resources that the query reads are the same, each of them at
least once. -/
theorem includes_keep_page (honoured : db.Honours g c.metadata) (windowed : q.window.isAll = false)
    (accepted : (rows c q).result = .ok s) :
    ∃ alone r primaryKey, (rows c { q with includes := [] }).result = .ok alone ∧
      c.metadata.findResource q.resource = .ok r ∧ r.primaryKey = .ok primaryKey ∧
      alone.keys g db = (Graph.page g db c r q).map (fun row => row primaryKey.column) ∧
      ∀ key, key ∈ s.keys g db ↔ key ∈ alone.keys g db := by
  obtain ⟨r, table, p, p₁, p', opened, sound, run⟩ := rows_ok_of_window windowed accepted
  obtain ⟨found, stored, fresh⟩ := openTable_ok opened
  obtain ⟨asked, ordered, root, joins, columns, same, read⟩ := parts_of_run
    honoured stored sound (run.imp_right And.left)
  have named : c.metadata.findResource root.resource = .ok r := by
    rw [same]
    exact Metadata.findResource_self found
  obtain ⟨primaryKey, -, identified, -⟩ := columnsRead_head named read
  obtain ⟨alone, p₂, plain⟩ := plainRows_exists honoured fresh asked
    ordered fun others none => columnsRead_alone read same.symm none
  have keys := keys_plainRows honoured stored fresh identified
    (fun _ member => absurd member List.not_mem_nil) plain
  have accepted' : (rows c { q with includes := [] }).result = .ok alone := by
    refine result_ok.2 ⟨p₂, bind_eq_ok.2 ⟨(r, table), p, opened, ?_⟩⟩
    dsimp only
    rw [windowed]
    exact plain
  refine ⟨alone, r, primaryKey, accepted', found, identified, keys, fun key => ?_⟩
  rw [keys, List.mem_map]
  rcases run with run | ⟨run, toOne⟩
  · exact mem_keys_pagedRows honoured stored sound identified run key
  · rw [keys_plainRows honoured stored sound identified toOne run, List.mem_map]
    exact Iff.rfl

end Compile

end

/-- The first book, with the books that it is the sequel of. -/
def Sample.query : Request.Query where
  resource := "book"
  id := none
  filter := none
  sort := []
  includes := [["prequels"]]
  fields := .empty
  window := ⟨some 1, none⟩

theorem Compile.includes_keep_page_books : ∃ s, (rows Sample.context Sample.query).result = .ok s ∧
    ∀ key, key ∈ s.keys Sample.engine Sample.database ↔ key = .int32 1 := by
  obtain ⟨s, accepted⟩ : ∃ s, (rows Sample.context Sample.query).result = .ok s := ⟨_, rfl⟩
  obtain ⟨alone, r, primaryKey, -, found, identified, page, same⟩ :=
    includes_keep_page Sample.honours rfl accepted
  obtain rfl := Sample.findResource_eq found
  obtain rfl := Except.ok.inj identified
  refine ⟨s, accepted, fun key => ?_⟩
  have first : Graph.page Sample.engine Sample.database Sample.context ⟨"book", Sample.book⟩
      Sample.query = [Sample.row 1 "Alice" (.int32 2)] := by
    have asked : Graph.askedRows Sample.engine Sample.database Sample.context ⟨"book", Sample.book⟩
        Sample.query = Sample.database.rows none "books" := rfl
    have before : Graph.before Sample.engine Sample.database Sample.context ⟨"book", Sample.book⟩ []
        (Sample.row 1 "Alice" (.int32 2)) (Sample.row 2 "Looking-Glass" .null) = true := rfl
    rw [Graph.page, asked]
    simp only [Sample.database] at before ⊢
    simp [List.mergeSort, Sample.query, Window.of, before]
  rw [same, page, first, List.map_singleton, List.mem_singleton]
  rfl

end ResourceSql
