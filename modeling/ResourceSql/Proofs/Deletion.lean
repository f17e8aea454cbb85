/-
Deleting a resource. First the references to it that are to be null are cleared,
one relationship after the other (`clearReferences_nulls`); then its row is removed.
Clearing takes no row away, and since a cleared column is no primary key, the row of
the resource is still found by its primary key after it has lost references to itself.
-/
import ResourceSql.Proofs.Consistency
import ResourceSql.Proofs.Writes

namespace ResourceSql

/-! ## Clearing columns -/

/-- The columns of a row that hold a value are null in another row, as far as they are to be
cleared, and all others are the same. -/
structure Row.Cleared (g : Engine) (owner : Value) (cleared : String → Prop) (row row' : Row) :
    Prop where
  null : ∀ column, cleared column → g.compare .equals (row column) owner = .true →
    row' column = .null
  same : ∀ column, ¬ (cleared column ∧ g.compare .equals (row column) owner = .true) →
    row' column = row column

/-- A change clears columns wherever they hold a value, and removes nothing. -/
def Change.Nulls (f : Change) (g : Engine) (owner : Value)
    (cleared : Option String → String → String → Prop) : Prop :=
  ∀ schema name row, ∃ row', f schema name row = some row' ∧
    Row.Cleared g owner (cleared schema name) row row'

variable {g : Engine} {owner : Value}

namespace Row.Cleared

variable {cleared : String → Prop} {row row' : Row}

/-- The value is gone from the cleared columns. -/
theorem gone (h : Cleared g owner cleared row row') {column : String} (clears : cleared column) :
    g.compare .equals (row' column) owner ≠ .true := by
  by_cases held : g.compare .equals (row column) owner = .true
  · rw [h.null column clears held, Engine.compare_null]
    decide
  · rw [h.same column fun both => held both.2]
    exact held

/-- Clearing columns after others is to clear all of them. -/
theorem trans {others : String → Prop} {between : Row} (h : Cleared g owner cleared row between)
    (h' : Cleared g owner others between row') :
    Cleared g owner (fun column => cleared column ∨ others column) row row' where
  null column clears held := by
    by_cases first : cleared column
    · have null := h.null column first held
      have unheld : g.compare .equals (between column) owner ≠ .true := h.gone first
      rw [h'.same column fun both => unheld both.2, null]
    · have same := h.same column fun both => first both.1
      rw [← same] at held
      exact h'.null column (clears.resolve_left first) held
  same column kept := by
    have same := h.same column fun both => kept ⟨.inl both.1, both.2⟩
    rw [← same] at kept
    rw [h'.same column fun both => kept ⟨.inr both.1, both.2⟩, same]

end Row.Cleared

namespace Change

theorem keep_nulls : keep.Nulls g owner fun _ _ _ => False := fun _ _ row =>
  ⟨row, rfl, ⟨fun _ never _ => never.elim, fun _ _ => rfl⟩⟩

theorem Nulls.andThen {f f' : Change} {cleared others : Option String → String → String → Prop}
    (h : f.Nulls g owner cleared) (h' : f'.Nulls g owner others) :
    (f.andThen f').Nulls g owner fun schema name column =>
      cleared schema name column ∨ others schema name column := by
  intro schema name row
  obtain ⟨between, first, clears⟩ := h schema name row
  obtain ⟨row', second, clears'⟩ := h' schema name between
  exact ⟨row', andThen_eq_some_iff.2 ⟨between, first, second⟩, clears.trans clears'⟩

theorem Nulls.mono {f : Change} {cleared others : Option String → String → String → Prop}
    (h : f.Nulls g owner cleared) (same : ∀ schema name column,
      cleared schema name column ↔ others schema name column) : f.Nulls g owner others := by
  have equal : cleared = others := by
    funext schema name column
    exact propext (same schema name column)
  exact equal ▸ h

end Change

/-- Detaching all rows whose key allows null clears one column. -/
theorem ForeignKey.detached_nulls {key : ForeignKey} {target : Resource}
    (nullable : key.nullable = true) :
    (key.detached g target owner fun _ => .true).Nulls g owner fun schema name column =>
      schema = (target.table none).schema ∧ name = (target.table none).name ∧
        column = key.column := by
  intro schema name row
  by_cases here : schema = (target.table none).schema ∧ name = (target.table none).name
  · obtain ⟨rfl, rfl⟩ := here
    by_cases held : g.compare .equals (row key.column) owner = .true
    · refine ⟨row.set key.column .null, ?_, ?_, ?_⟩
      · simp [detached, Truth.and_true, held, nullable]
      · rintro column ⟨-, -, rfl⟩ -
        exact Row.set_self row _ .null
      · intro column kept
        refine Row.set_other ?_ .null
        rintro rfl
        exact kept ⟨⟨rfl, rfl, rfl⟩, held⟩
    · refine ⟨row, ?_, ?_, fun _ _ => rfl⟩
      · simp [detached, Truth.and_true, held]
      · rintro column ⟨-, -, rfl⟩ held'
        exact absurd held' held
  · refine ⟨row, by simp [detached, Change.inTable, here], ?_, fun _ _ => rfl⟩
    rintro column ⟨schema, name, -⟩ -
    exact absurd ⟨schema, name⟩ here

/-- When columns are cleared that are not the primary key, and then rows are removed by their primary
keys, just the rows are removed that had these primary keys before. -/
theorem Change.Nulls.andThen_deleted {f : Change} {r : Resource} {primaryKey : Attribute}
    {cleared : Option String → String → String → Prop} (h : f.Nulls g owner cleared)
    (identified : r.primaryKey = .ok primaryKey)
    (apart : ¬ cleared (r.table none).schema (r.table none).name primaryKey.column)
    (schema : Option String) (table : String) (row : Row) :
    ((f.andThen (r.deleted g owner)) schema table row = none ↔ schema = (r.table none).schema ∧
      table = (r.table none).name ∧ g.compare .equals (Graph.keyValue r row) owner = .true) ∧
    ∀ row', (f.andThen (r.deleted g owner)) schema table row = some row' →
      Row.Cleared g owner (cleared schema table) row row' := by
  obtain ⟨between, done, clear⟩ := h schema table row
  have after : (f.andThen (r.deleted g owner)) schema table row =
      r.deleted g owner schema table between := by rw [Change.andThen, done, Option.bind_some]
  rw [after]
  by_cases here : schema = (r.table none).schema ∧ table = (r.table none).name
  · obtain ⟨rfl, rfl⟩ := here
    have unmoved : Graph.keyValue r between = Graph.keyValue r row := by
      rw [Graph.keyValue, Graph.keyValue, identified]
      exact clear.same _ fun both => apart both.1
    rw [Resource.deleted, Change.inTable_self, unmoved]
    by_cases own : g.compare .equals (Graph.keyValue r row) owner = .true
    · simp [own]
    · simp only [own, if_false, and_false, iff_false]
      exact ⟨Option.some_ne_none _, fun row' same => Option.some.inj same ▸ clear⟩
  · rw [Resource.deleted, Change.inTable, if_neg here]
    refine ⟨⟨fun none => ?_, fun there => absurd ⟨there.1, there.2.1⟩ here⟩, fun row' same => ?_⟩
    · cases none
    · exact Option.some.inj same ▸ clear

/-! ## Statements of a deletion -/

/-- The columns that relationships clear when a resource is deleted. -/
def Metadata.Clears (m : Metadata) (relationships : List (String × Relationship))
    (schema : Option String) (table column : String) : Prop :=
  ∃ relationship d target, (relationship, d) ∈ relationships ∧ d.deleteBehavior = .setNull ∧
    d.foreignKey.atLeftSide = false ∧ m.findResource d.target = .ok target ∧
    schema = (target.table none).schema ∧ table = (target.table none).name ∧
    column = d.foreignKey.column

namespace Metadata

variable {m : Metadata} {relationship : String} {d : Relationship} {target : Resource}
  {given : List (String × Relationship)} {schema : Option String} {table column : String}

theorem clears_nil : ¬ m.Clears [] schema table column := by
  rintro ⟨_, _, _, member, -⟩
  cases member

theorem clears_cons (clears : d.deleteBehavior = .setNull ∧ d.foreignKey.atLeftSide = false)
    (found : m.findResource d.target = .ok target) :
    m.Clears ((relationship, d) :: given) schema table column ↔
      (schema = (target.table none).schema ∧ table = (target.table none).name ∧
        column = d.foreignKey.column) ∨ m.Clears given schema table column := by
  constructor
  · rintro ⟨name, d', target', member, setNull, right, found', rest⟩
    rcases List.mem_cons.1 member with same | member
    · cases same
      obtain rfl := Except.ok.inj (found.symm.trans found')
      exact .inl rest
    · exact .inr ⟨name, d', target', member, setNull, right, found', rest⟩
  · rintro (here | ⟨name, d', target', member, rest⟩)
    · exact ⟨relationship, d, target, List.mem_cons_self .., clears.1, clears.2, found, here⟩
    · exact ⟨name, d', target', List.mem_cons_of_mem _ member, rest⟩

theorem clears_cons_of_not (keeps : ¬ (d.deleteBehavior = .setNull ∧ d.foreignKey.atLeftSide = false)) :
    m.Clears ((relationship, d) :: given) schema table column ↔ m.Clears given schema table column := by
  constructor
  · rintro ⟨name, d', target', member, setNull, right, rest⟩
    rcases List.mem_cons.1 member with same | member
    · cases same
      exact absurd ⟨setNull, right⟩ keeps
    · exact ⟨name, d', target', member, setNull, right, rest⟩
  · rintro ⟨name, d', target', member, rest⟩
    exact ⟨name, d', target', List.mem_cons_of_mem _ member, rest⟩

end Metadata

namespace Compile

variable {c : Context} {p q : Progress} {r target : Resource} {key : ForeignKey} {id : Json}

theorem bindId_runs (identifies : c.metadata.Identifies r id owner) :
    ∃ parameter q, bindId c r id p = .ok parameter q :=
  ⟨_, _, bindId_eq_ok.2 ⟨owner, identifies, rfl⟩⟩

theorem rowIs_runs {table : Sql.Table} (identifies : c.metadata.Identifies r id owner) :
    ∃ made q, rowIs c r table id p = .ok made q := by
  obtain ⟨parameter, q, bound⟩ := bindId_runs (p := p) identifies
  obtain ⟨primaryKey, identified, -⟩ := identifies
  simp only [rowIs, bind_eq_ok, ofExcept_eq_ok]
  exact ⟨_, q, primaryKey, p, ⟨identified, rfl⟩, parameter, q, bound, rfl⟩

/-- Rows whose key allows null can be detached. -/
theorem detach_runs {behavior : DeleteBehavior} (nullable : key.nullable = true)
    (found : c.metadata.findResource key.target = .ok target)
    (identifies : c.metadata.Identifies r id owner) :
    ∃ statement q, detach c r key behavior id .all p = .ok statement q := by
  obtain ⟨parameter, q, bound⟩ := bindId_runs (p := { p with parameters := 0 }) identifies
  simp only [detach, narrow, nullable, if_true, bind_eq_ok, ofExcept_eq_ok, startStatement_apply]
  exact ⟨_, q, (), _, rfl, target, _, ⟨found, rfl⟩, parameter, q, bound, _, q, rfl, rfl⟩

/-- If metadata pass the check, the references to a resource can be cleared, and what is made for
that clears them. -/
theorem clearReferences_nulls {given : List (String × Relationship)}
    (checked : c.metadata.check = .ok ()) (found : c.metadata.findResource r.name = .ok r)
    (identifies : c.metadata.Identifies r id owner)
    (declared : ∀ entry ∈ given, entry ∈ r.type.relationships.toList)
    (remembers : p.Remembers c.metadata) :
    ∃ cleared q, clearReferences c r id given p = .ok cleared q ∧ ∀ g : Server,
      ∃ f, Sql.MakeAll g cleared f ∧ f.Nulls g.toEngine owner (c.metadata.Clears given) := by
  induction given generalizing p with
  | nil =>
    refine ⟨[], p, rfl, fun g => ⟨.keep, .nil, Change.keep_nulls.mono fun schema table column => ?_⟩⟩
    exact ⟨False.elim, fun clears => Metadata.clears_nil clears⟩
  | cons entry given ih =>
    obtain ⟨relationship, d⟩ := entry
    obtain ⟨here, others⟩ := List.forall_mem_cons.1 declared
    by_cases clears : d.deleteBehavior = .setNull ∧ d.foreignKey.atLeftSide = false
    · obtain ⟨target, known⟩ := Metadata.target_of_check checked found here
      obtain ⟨-, -, allowed⟩ := Metadata.checkRelationship_eq_ok.1
        (Metadata.checkRelationship_of_check checked found here)
      have nullable := allowed clears.1
      obtain ⟨key, resolved, leads, column, clearable⟩ : ∃ key,
          ForeignKey.resolve c.metadata r relationship = .ok key ∧ key.target = target.name ∧
            key.column = d.foreignKey.column ∧ key.nullable = true :=
        ⟨_, ForeignKey.resolve_eq_ok.2 ⟨d, target, NameMap.get?_of_mem here, known, rfl⟩, rfl, rfl,
          nullable⟩
      obtain ⟨memory, remembers, looked⟩ := foreignKey_apply remembers found relationship
      rw [resolved] at looked
      have itself : c.metadata.findResource key.target = .ok target := by
        rw [leads]
        exact Metadata.findResource_self known
      obtain ⟨statement, p₁, first⟩ : ∃ statement p₁,
          detach c r key .setNull id .all { p with memory } = .ok statement p₁ :=
        detach_runs clearable itself identifies
      obtain ⟨target', owner', values, found', identifies', -, -, same, makes⟩ := detach_makes first
      obtain rfl := Except.ok.inj (itself.symm.trans found')
      obtain rfl := identifies.unique identifies'
      obtain ⟨cleared, q, run, nulls⟩ := ih others (remembers.of_memory same)
      refine ⟨statement :: cleared, q, ?_, fun g => ?_⟩
      · rw [clearReferences, if_pos (by simpa using clears)]
        simp only [bind_eq_ok]
        exact ⟨key, _, looked, statement, p₁, first, cleared, q, run, rfl⟩
      · obtain ⟨f, makes', nulls⟩ := nulls g
        have one : (key.detached g.toEngine target owner fun _ => .true).Nulls g.toEngine owner _ :=
          ForeignKey.detached_nulls clearable
        refine ⟨_, (makes g).append makes', (one.andThen nulls).mono fun schema table name => ?_⟩
        rw [column]
        exact (Metadata.clears_cons clears known).symm
    · obtain ⟨cleared, q, run, nulls⟩ := ih others remembers
      refine ⟨cleared, q, ?_, fun g => ?_⟩
      · rw [clearReferences, if_neg (by simpa using clears), run]
      · obtain ⟨f, makes, nulls⟩ := nulls g
        exact ⟨f, makes, nulls.mono fun _ _ _ => (Metadata.clears_cons_of_not clears).symm⟩

/-- Deleting a resource sets the references to it to null that have to be, and then removes its row;
all other rows and columns stay as they are. This never fails where the metadata pass the check. -/
theorem delete_clears_references {name : String} (checked : c.metadata.check = .ok ())
    (found : c.metadata.findResource name = .ok r) (identifies : c.metadata.Identifies r id owner)
    (apart : ∀ primaryKey, r.primaryKey = .ok primaryKey →
      ¬ c.metadata.Clears r.type.relationships.toList (r.table none).schema (r.table none).name
        primaryKey.column) :
    ∃ cleared filter,
      (delete c name id).result = .ok (cleared ++ [.delete ⟨r.table none, filter⟩]) ∧
      ∀ g : Server,
        (∀ db schema table column,
          c.metadata.Clears r.type.relationships.toList schema table column →
          ∀ row ∈ (Sql.executeAll g cleared db).rows schema table,
            g.compare .equals (row column) owner ≠ .true) ∧
        ∃ f, Sql.MakeAll g (cleared ++ [.delete ⟨r.table none, filter⟩]) f ∧
          ∀ schema table row,
            (f schema table row = none ↔ schema = (r.table none).schema ∧
              table = (r.table none).name ∧
              g.compare .equals (Graph.keyValue r row) owner = .true) ∧
            ∀ row', f schema table row = some row' → Row.Cleared g.toEngine owner
              (c.metadata.Clears r.type.relationships.toList schema table) row row' := by
  obtain ⟨cleared, q, run, nulls⟩ := clearReferences_nulls checked (Metadata.findResource_self found)
    identifies (fun _ member => member) (Progress.remembers_start c.metadata)
  obtain ⟨filter, q', own⟩ : ∃ filter q',
      rowIs c r (r.table none) id { q with parameters := 0 } = .ok filter q' := rowIs_runs identifies
  refine ⟨cleared, filter, ?_, fun g => ?_⟩
  · refine result_ok.2 ⟨q', ?_⟩
    simp only [delete, bind_eq_ok, ofExcept_eq_ok, startStatement_apply]
    exact ⟨r, _, ⟨found, rfl⟩, cleared, q, run, (), _, rfl, filter, q', own, rfl⟩
  · obtain ⟨f, makes, nulls⟩ := nulls g
    constructor
    · intro db schema table column clears row' stored
      rw [makes db] at stored
      obtain ⟨row, -, done⟩ := List.mem_filterMap.1 stored
      obtain ⟨between, done', clear⟩ := nulls schema table row
      obtain rfl := Option.some.inj (done.symm.trans done')
      exact clear.gone clears
    · obtain ⟨owner', identifies', -, makes'⟩ := delete_makes own
      obtain rfl := identifies.unique identifies'
      obtain ⟨primaryKey, identified, -⟩ := identifies
      exact ⟨_, makes.append (makes' g), fun schema table row =>
        nulls.andThen_deleted identified (apart primaryKey identified) schema table row⟩

end Compile

/-- Without the second book, the first one has no sequel. -/
theorem Compile.delete_clears_references_books : ∃ statements,
    (delete Sample.context "book" (Sample.bookId 2)).result = .ok statements ∧
    ((Sql.executeAll Sample.server statements Sample.database).rows none "books").map
      (fun row => (row "id", row "sequel_id")) = [(.int32 1, .null)] := by
  have cleared : ∀ {schema table column}, Sample.context.metadata.Clears
      Sample.book.relationships.toList schema table column → column = "sequel_id" := by
    rintro schema table column ⟨relationship, d, target, member, -, right, -, -, -, rfl⟩
    simp only [Sample.book, NameMap.toList, List.mem_cons, List.not_mem_nil, or_false,
      Prod.mk.injEq] at member
    rcases member with ⟨-, rfl⟩ | ⟨-, rfl⟩
    · rfl
    · cases right
  have found : Sample.context.metadata.findResource "book" = .ok ⟨"book", Sample.book⟩ := rfl
  obtain ⟨made, filter, run, effect⟩ := delete_clears_references (c := Sample.context)
    (by decide) found Sample.identifies_book (fun primaryKey identified clears => by
      cases identified
      exact absurd (cleared clears) (by decide))
  obtain ⟨-, f, makes, becomes⟩ := effect Sample.server
  refine ⟨_, run, ?_⟩
  obtain ⟨first, kept⟩ := becomes none "books" (Sample.row 1 "Alice" (.int32 2))
  obtain ⟨second, -⟩ := becomes none "books" (Sample.row 2 "Looking-Glass" .null)
  have clears : Sample.context.metadata.Clears Sample.book.relationships.toList none "books"
      "sequel_id" :=
    ⟨"prequels", _, _, List.mem_cons_self .., rfl, rfl, rfl, rfl, rfl, rfl⟩
  rw [makes Sample.database]
  show (([Sample.row 1 "Alice" (.int32 2), Sample.row 2 "Looking-Glass" .null] : List Row).filterMap
    (f none "books")).map _ = _
  rw [List.filterMap_cons, List.filterMap_cons, second.2 ⟨rfl, rfl, rfl⟩]
  cases left : f none "books" (Sample.row 1 "Alice" (.int32 2)) with
  | none =>
    have gone := (first.1 left).2.2
    cases Sample.eq_of_compare gone
  | some row' =>
    have clear := kept row' left
    have id := clear.same "id" fun both => absurd (cleared both.1) (by decide)
    have sequel := clear.null "sequel_id" clears rfl
    simp only [List.filterMap_nil, List.map_cons, List.map_nil, id, sequel]
    rfl

end ResourceSql
