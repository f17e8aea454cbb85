/-
Replacing the right side of a relationship whose foreign key lies in the related
table. Two statements do it: the first one spares the rows that the second one
attaches, and the second one takes back nothing that the first one let go, since
a row that is let go is gone or keeps its primary key, unless that became null
(`detached_attached`).
-/
import ResourceSql.Proofs.Writes

namespace ResourceSql

/-- A primary key in which null is written is as it was, or null. -/
theorem Graph.keyValue_set_null (r : Resource) (row : Row) (column : String) :
    Graph.keyValue r (row.set column .null) = Graph.keyValue r row ∨
      Graph.keyValue r (row.set column .null) = .null := by
  unfold Graph.keyValue
  cases r.primaryKey with
  | error e => exact .inr rfl
  | ok primaryKey =>
    by_cases same : primaryKey.column = column
    · right
      subst same
      exact Row.set_self row _ .null
    · left
      exact Row.set_other same .null

namespace ForeignKey

/-- Of the rows that hold a foreign key, those whose primary keys are given values refer to the
owner, and no others. -/
def replaced (g : Engine) (key : ForeignKey) (target : Resource) (owner : Value)
    (values : List Value) : Change := .inTable (target.table none) fun row =>
  if g.among (Graph.keyValue target row) values = .true then some (row.set key.column owner)
  else if g.compare .equals (row key.column) owner = .true then
    if key.nullable then some (row.set key.column .null) else none
  else some row

variable {g : Engine} {key : ForeignKey} {target : Resource} {owner : Value} {values : List Value}

theorem detached_attached {schema : Option String} {name : String} {row : Row}
    (stored : schema = (target.table none).schema → name = (target.table none).name →
      (Graph.keyValue target row).isNull = false)
    (given : ∀ value ∈ values, value.isNull = false) :
    ((key.detached g target owner fun row => (g.among (Graph.keyValue target row) values).not).andThen
      (key.attached g target owner values)) schema name row =
        key.replaced g target owner values schema name row := by
  by_cases here : schema = (target.table none).schema ∧ name = (target.table none).name
  · obtain ⟨rfl, rfl⟩ := here
    rcases Engine.among_decided (g := g) (stored rfl rfl) given with chosen | other
    · rw [attached_of_among chosen, replaced, Change.inTable_self, if_pos chosen]
    · simp only [Change.andThen, detached, attached, replaced, Change.inTable_self,
        Truth.and_eq_true_iff]
      have spared : (Truth.false).not = .true := rfl
      by_cases owned : g.compare .equals (row key.column) owner = .true
      · cases key.nullable with
        | false => simp [owned, other, spared]
        | true =>
          have left : g.among (Graph.keyValue target (row.set key.column .null)) values ≠ .true := by
            rcases Graph.keyValue_set_null target row key.column with same | null
            · rw [same, other]
              decide
            · rw [null]
              exact Engine.among_null_ne_true values
          simp [owned, other, spared, left]
      · simp [owned, other]
  · simp [Change.andThen, detached, attached, replaced, Change.inTable, here]

end ForeignKey

variable {c : Context} {p q : Progress} {r : Resource} {key : ForeignKey} {id : Json}

/-- Where the related table holds the foreign key, setting a relationship makes just the given rows
refer to the resource: the rows that did before are cleared, or removed if the key is required. If
the relationship does not allow that, no statements are made. -/
theorem Compile.setRelationship_replaces {relationship : String} {data : Request.RelationshipData}
    (remembers : p.Remembers c.metadata) (found : c.metadata.findResource r.name = .ok r)
    (resolved : ForeignKey.resolve c.metadata r relationship = .ok key)
    (right : key.atLeftSide = false) :
    (∀ statements q, setRelationship c r id relationship data p = .ok statements q →
      ∃ target ids owner values, c.metadata.findResource key.target = .ok target ∧
        relatedIds key data = .ok ids ∧ c.metadata.Identifies r id owner ∧
        List.Forall₂ (c.metadata.Identifies target) ids values ∧
        ∀ (g : Server) (db : Database),
          (∀ row ∈ db.rowsOf target, (Graph.keyValue target row).isNull = false) →
          Sql.executeAll g statements db = db.map (key.replaced g.toEngine target owner values)) ∧
    (key.nullable = false →
      (∀ declared, r.findRelationship relationship = .ok declared →
        declared.deleteBehavior ≠ .cascade) →
      ∀ statements q, setRelationship c r id relationship data p ≠ .ok statements q) := by
  constructor
  · intro statements q run
    obtain ⟨-, key', resolved', parts⟩ := setRelationship_makes remembers found run
    obtain rfl := Except.ok.inj (resolved.symm.trans resolved')
    rcases parts with ⟨left, -⟩ | ⟨-, target, ids, declared, owner, values, known, related, -, -,
      identifies, identify, makes⟩
    · rw [right] at left
      cases left
    · refine ⟨target, ids, owner, values, known, related, identifies, identify, fun g db stored => ?_⟩
      have given : ∀ value ∈ values, value.isNull = false := by
        intro value member
        obtain ⟨id, -, stands⟩ := forall₂_exists_left identify member
        exact stands.not_null
      rw [makes g db]
      refine Database.map_congr fun schema name row member => ?_
      refine ForeignKey.detached_attached (fun here there => stored row ?_) given
      subst here there
      exact member
  · intro required keeps statements q run
    obtain ⟨-, key', resolved', parts⟩ := setRelationship_makes remembers found run
    obtain rfl := Except.ok.inj (resolved.symm.trans resolved')
    rcases parts with ⟨left, -⟩ | ⟨-, -, -, declared, -, -, -, -, declares, allowed, -⟩
    · rw [right] at left
      cases left
    · rcases allowed with nullable | cascades
      · rw [required] at nullable
        cases nullable
      · exact keeps declared declares cascades

/-- The second book becomes its own prequel, and the first one is no longer its prequel. -/
theorem Compile.setRelationship_replaces_books : ∃ statements q,
    setRelationship Sample.context ⟨"book", Sample.book⟩ (Sample.bookId 2) "prequels"
      (.many [Sample.bookId 2]) .start = .ok statements q ∧
    ((Sql.executeAll Sample.server statements Sample.database).rows none "books").map
      (fun row => (row "id", row "sequel_id")) =
        [(.int32 1, .null), (.int32 2, .int32 2)] := by
  obtain ⟨statements, q, run⟩ : ∃ statements q,
      setRelationship Sample.context ⟨"book", Sample.book⟩ (Sample.bookId 2) "prequels"
        (.many [Sample.bookId 2]) .start = .ok statements q := ⟨_, _, rfl⟩
  refine ⟨statements, q, run, ?_⟩
  obtain ⟨key, resolved⟩ : ∃ key, ForeignKey.resolve Sample.context.metadata
      ⟨"book", Sample.book⟩ "prequels" = .ok key := ⟨_, rfl⟩
  have right : key.atLeftSide = false := by
    cases resolved
    rfl
  have start := Progress.remembers_start Sample.context.metadata
  obtain ⟨target, ids, owner, values, known, related, identifies, identify, executes⟩ :=
    (setRelationship_replaces start rfl resolved right).1 statements q run
  cases resolved
  cases known
  cases related
  obtain rfl := identifies.unique Sample.identifies_book
  obtain rfl := Metadata.Identifies.unique_all identify (.cons Sample.identifies_book .nil)
  rw [executes Sample.server Sample.database (by decide)]
  rfl

end ResourceSql
