/-
How queries are put together. Each select is compiled in a scope of its own, in
which the parts of the query are taken in turn (`plainRows_ok`, `page_ok`,
`pagedRows_ok`, `rowCount_exists`).
-/
import ResourceSql.Proofs.Columns

namespace ResourceSql

section

variable {g : Engine} {db : Database} {c : Context} {r : Resource} {table : Sql.Table}
  {q : Request.Query} {p p' : Progress} {s : Sql.Select} {fits : List String → Bool → Prop}

/-- What is selected in a scope that has just been opened. -/
theorem Sound.inside {root : Occurrence} (sound : Sound c root r p) :
    Sound c root r { p with joins := [] } := by
  obtain ⟨k, named, le, -⟩ := sound.linked.numbered
  exact ⟨sound.named, sound.remembers, .nil named le⟩

namespace Compile

theorem joining_ok {step : Compile Sql.Select} (run : joining step p = .ok s p') :
    ∃ select t, step { p with joins := [] } = .ok select t ∧
      s = { select with joins := t.joins.map (·.join) } ∧ p' = { t with joins := p.joins } := by
  obtain ⟨⟨select, joins⟩, t, own, run⟩ := bind_eq_ok.1 run
  unfold inOwnScope at own
  cases result : step { p with joins := [] } with
  | ok select t =>
    rw [result] at own
    cases own
    cases run
    exact ⟨select, t, rfl, rfl, rfl⟩
  | error e t =>
    rw [result] at own
    cases own

theorem joining_of_ok {step : Compile Sql.Select} {select : Sql.Select} {t : Progress}
    (run : step { p with joins := [] } = .ok select t) :
    joining step p = .ok { select with joins := t.joins.map (·.join) } { t with joins := p.joins } := by
  have own : inOwnScope step p = .ok (select, t.joins) { t with joins := p.joins } := by
    rw [inOwnScope, run]
  exact bind_eq_ok.2 ⟨_, _, own, rfl⟩

/-- The condition and the order of a request, one after the other. -/
theorem arranged_of_run {filter : Option Sql.Condition} {terms : List Sql.OrderTerm} {t : Progress}
    (honoured : db.Honours g c.metadata) (stored : r.table table.aliasName = table)
    (sound : Sound c (r.root table) r p) (fit : FitsFields c r fits)
    (first : requestCondition c (r.root table) r q.id q.filter p = .ok filter p')
    (second : order c (r.root table) q.sort p' = .ok terms t) :
    Arranged g db c r table q t filter terms ∧ Later fits p t ∧
      c.metadata.checkAsked r q.id q.filter = .ok () ∧ c.metadata.checkOrder r q.sort = .ok () := by
  obtain ⟨sound, later, _, checked, asked⟩ :=
    (keeps_requestCondition honoured sound fit q.id q.filter).of_ok first
  obtain ⟨sound, later', _, checked', directions, keys⟩ :=
    (keeps_order honoured sound fit q.sort).of_ok second
  exact ⟨⟨⟨stored, sound, asked.later later'⟩, directions, keys⟩, later.trans later', checked, checked'⟩

/-- A select that reads the rows of a query at once. -/
theorem plainRows_ok (honoured : db.Honours g c.metadata) (stored : r.table table.aliasName = table)
    (sound : Sound c (r.root table) r p) (fit : FitsFields c r fits)
    (included : ∀ path ∈ q.includes, ∀ start there, start <+: path →
      c.metadata.walk true r start = .ok there → fits start true)
    (run : plainRows c q r table p = .ok s p') :
    ∃ t filter terms columns, Arranged g db c r table q t filter terms ∧
      Later fits { p with joins := [] } t ∧
      columnsRead c q.fields (r.root table) t.joins = .ok columns ∧
      s = ⟨.columns columns, .table table, t.joins.map (·.join), filter, some terms, q.window, none⟩ ∧
      c.metadata.checkAsked r q.id q.filter = .ok () ∧ c.metadata.checkOrder r q.sort = .ok () := by
  obtain ⟨select, t, own, rfl, -⟩ := joining_ok run
  obtain ⟨_, p₁, includes, run⟩ := bind_eq_ok.1 own
  obtain ⟨filter, p₂, first, run⟩ := bind_eq_ok.1 run
  obtain ⟨terms, p₃, second, run⟩ := bind_eq_ok.1 run
  obtain ⟨projection, p₄, read, run⟩ := bind_eq_ok.1 run
  cases run
  obtain ⟨sound, later, -⟩ := (keeps_includePaths q.includes sound.inside included).of_ok includes
  obtain ⟨arranged, later', asked, ordered⟩ :=
    arranged_of_run honoured stored sound fit first second
  obtain ⟨columns, selected, rfl, rfl⟩ := projection_ok read
  exact ⟨t, filter, terms, columns, arranged, later.trans later', selected, rfl, asked, ordered⟩

/-- A query that reads nothing along is compiled if its parts are allowed. -/
theorem plainRows_exists (honoured : db.Honours g c.metadata) (sound : Sound c (r.root table) r p)
    (asked : c.metadata.checkAsked r q.id q.filter = .ok ())
    (ordered : c.metadata.checkOrder r q.sort = .ok ())
    (read : ∀ plain : List PathJoin, (∀ j ∈ plain, j.included = false) →
      ∃ columns, columnsRead c q.fields (r.root table) plain = .ok columns) :
    ∃ s p', plainRows c { q with includes := [] } r table p = .ok s p' := by
  let fits : List String → Bool → Prop := fun _ included => included = false
  have fit : FitsFields c r fits := fun _ _ _ => rfl
  obtain ⟨filter, p₁, first, sound, later⟩ := (keeps_requestCondition honoured
    sound.inside fit q.id q.filter).exists_ok asked
  obtain ⟨terms, p₂, second, sound, later'⟩ :=
    (keeps_order honoured sound fit q.sort).exists_ok ordered
  obtain ⟨columns, read⟩ := read p₂.joins (later.trans later').all_fit
  have own : (do
      let filter ← requestCondition c (r.root table) r q.id q.filter
      let order ← order c (r.root table) q.sort
      let projection ← projection c (r.root table) q.fields
      return { Sql.Select.simple (.table table) projection with
        filter, order := some order, window := q.window } : Compile Sql.Select)
      { p with joins := [] } = .ok { Sql.Select.simple (.table table) (.columns columns) with
        filter, order := some terms, window := q.window } p₂ := by
    refine bind_eq_ok.2 ⟨filter, p₁, first, bind_eq_ok.2 ⟨terms, p₂, second, ?_⟩⟩
    refine bind_eq_ok.2 ⟨.columns columns, p₂, ?_, rfl⟩
    rw [projection_apply, read]
    rfl
  exact ⟨_, _, joining_of_ok own⟩

/-- The select of a page. -/
theorem page_ok (honoured : db.Honours g c.metadata) (stored : r.table table.aliasName = table)
    (sound : Sound c (r.root table) r p) (fit : FitsFields c r fits)
    (run : page c q r table p = .ok s p') :
    ∃ t filter terms columns, Arranged g db c r table q t filter terms ∧
      Later fits { p with joins := [] } t ∧ r.projectedColumns = .ok columns ∧
      s = ⟨.columns (subqueryColumns table columns), .table table, t.joins.map (·.join), filter,
        some terms, q.window, none⟩ ∧
      c.metadata.checkAsked r q.id q.filter = .ok () ∧ c.metadata.checkOrder r q.sort = .ok () ∧
      p' = { t with joins := p.joins } := by
  obtain ⟨select, t, own, rfl, rfl⟩ := joining_ok run
  obtain ⟨filter, p₁, first, run⟩ := bind_eq_ok.1 own
  obtain ⟨terms, p₂, second, run⟩ := bind_eq_ok.1 run
  obtain ⟨columns, p₃, read, run⟩ := bind_eq_ok.1 run
  obtain ⟨projected, rfl⟩ := ofExcept_eq_ok.1 read
  cases run
  obtain ⟨arranged, later, asked, ordered⟩ :=
    arranged_of_run honoured stored sound.inside fit first second
  exact ⟨t, filter, terms, columns, arranged, later, projected, rfl, asked, ordered, rfl⟩

/-- Around a page, a select joins what is read along to the rows of the page. -/
theorem pagedRows_ok (honoured : db.Honours g c.metadata)
    (stored : r.table table.aliasName = table) (sound : Sound c (r.root table) r p)
    (fit : FitsFields c r fits) (run : pagedRows c q r table p = .ok s p') :
    ∃ t filter terms columns, Arranged g db c r table q t filter terms ∧
      Later fits { p with joins := [] } t ∧ r.projectedColumns = .ok columns ∧
      c.metadata.checkAsked r q.id q.filter = .ok () ∧ c.metadata.checkOrder r q.sort = .ok () ∧
    ∃ aliasName t' terms' columns', Sound c ⟨r.name, .subquery table aliasName⟩ r t' ∧
      columnsRead c q.fields ⟨r.name, .subquery table aliasName⟩ t'.joins = .ok columns' ∧
      s = ⟨.columns columns', .select ⟨.columns (subqueryColumns table columns), .table table,
        t.joins.map (·.join), filter, some terms, q.window, some aliasName⟩, t'.joins.map (·.join),
        none, some terms', .all, none⟩ := by
  obtain ⟨inner, p₁, paged, run⟩ := bind_eq_ok.1 run
  obtain ⟨t, filter, terms, columns, arranged, later, projected, rfl, asked, ordered, rfl⟩ :=
    page_ok honoured stored sound fit paged
  refine ⟨t, filter, terms, columns, arranged, later, projected, asked, ordered, ?_⟩
  have around : Sound c (r.root table) r { t with joins := p.joins } :=
    ⟨sound.named, arranged.sound.remembers, sound.linked.mono later.tables⟩
  obtain ⟨aliasName, p₂, named, run⟩ := bind_eq_ok.1 run
  have aliased : Keeps c (r.root table) r fits _ _ _ _ := keeps_freshAlias around
  obtain ⟨around, -, _, -, rfl, rfl⟩ := aliased.of_ok named
  obtain ⟨select, t', own, rfl, -⟩ := joining_ok run
  have start : Sound c ⟨r.name, .subquery table (tableAlias (t.tables + 1))⟩ r
      { t with tables := t.tables + 1, joins := [] } :=
    ⟨Metadata.findResource_self sound.named, around.remembers, .nil rfl (Nat.le_refl _)⟩
  obtain ⟨_, p₃, includes, rest⟩ := bind_eq_ok.1 own
  have joins : Keeps c _ r AnyFits _ _ _ _ :=
    keeps_includePaths q.includes start fun _ _ _ _ _ _ => trivial
  obtain ⟨start, -, -⟩ := joins.of_ok includes
  obtain ⟨terms', p₄, second, rest⟩ := bind_eq_ok.1 rest
  obtain ⟨start, -, -⟩ :=
    (keeps_order honoured start (FitsFields.any c r) q.sort).of_ok second
  obtain ⟨projection, p₅, read, rest⟩ := bind_eq_ok.1 rest
  cases rest
  obtain ⟨columns', selected, rfl, rfl⟩ := projection_ok read
  exact ⟨_, t', terms', columns', start, selected, rfl⟩

/-- The scope that a query is compiled in. -/
theorem openTable_ok {name : String} (opened : openTable c name .start = .ok (r, table) p) :
    c.metadata.findResource name = .ok r ∧ r.table table.aliasName = table ∧
      Sound c (r.root table) r p := by
  have sound := Sound.start opened
  obtain ⟨other, p₁, found, opened⟩ := bind_eq_ok.1 opened
  obtain ⟨_, _, _, opened⟩ := bind_eq_ok.1 opened
  cases opened
  exact ⟨(ofExcept_eq_ok.1 found).1, rfl, sound⟩

theorem result_ok {α : Type} {step : Compile α} {a : α} :
    step.result = .ok a ↔ ∃ p', step .start = .ok a p' := by
  unfold result
  cases step .start with
  | ok b p' => simp
  | error e p' => simp

/-- The select that counts, if what is asked for is allowed. -/
theorem rowCount_exists (honoured : db.Honours g c.metadata)
    (opened : openTable c q.resource .start = .ok (r, table) p)
    (asked : c.metadata.checkAsked r q.id q.filter = .ok ()) :
    ∃ t filter, Asked g db c r table q t filter ∧
      (∀ j ∈ t.joins, c.metadata.leadsToMany r j.path = false) ∧
      (rowCount c q).result =
        .ok ⟨.count, .table table, t.joins.map (·.join), filter, none, .all, none⟩ := by
  obtain ⟨-, stored, sound⟩ := openTable_ok opened
  have kept := keeps_requestCondition honoured sound.inside (.toOne sound) q.id q.filter
  obtain ⟨filter, t, run, sound', later⟩ := kept.exists_ok asked
  obtain ⟨-, -, _, -, means⟩ := kept.of_ok run
  have own : (do
      let filter ← requestCondition c (r.root table) r q.id q.filter
      return { Sql.Select.simple (.table table) .count with filter } : Compile Sql.Select)
      { p with joins := [] } = .ok { Sql.Select.simple (.table table) .count with filter } t :=
    bind_eq_ok.2 ⟨filter, t, run, rfl⟩
  refine ⟨t, filter, ⟨stored, sound', means⟩, later.all_fit, result_ok.2
    ⟨{ t with joins := p.joins }, ?_⟩⟩
  exact bind_eq_ok.2 ⟨(r, table), p, opened, joining_of_ok own⟩

end Compile

end

end ResourceSql
