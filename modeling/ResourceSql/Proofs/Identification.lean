/-
Queries for one resource. An identifier narrows a query as a filter does that
compares the primary key with it: the condition is compiled to the same term by
the same steps (`Compile.comparison_key`), it is joined to the filter of the query
in the same way, and so every command for such a query is the one for the query
with the filter (`Request.Query.commands_byKey`).
-/
import ResourceSql.Proofs.Consistency
import ResourceSql.Proofs.Pagination
import ResourceSql.Proofs.Writes

namespace ResourceSql

/-- The filter that the primary key equals an identifier and, if there is one, another filter. -/
def Resource.keyFilter (r : Resource) (id : Json) (filter : Option Request.Filter) :
    Request.Filter :=
  .and (.comparison .equals (.field [r.type.primaryKey]) (.value id) :: filter.toList)

/-- The query with a filter in the place of an identifier. -/
def Request.Query.byKey (q : Query) (r : Resource) (id : Json) : Query :=
  { q with id := none, filter := some (r.keyFilter id q.filter) }

namespace Compile

variable {c : Context} {root : Occurrence} {r : Resource} {key : Attribute} {id : Json}

theorem side_key (named : c.metadata.findResource root.resource = .ok r)
    (identified : r.primaryKey = .ok key) :
    side c root (.field [r.type.primaryKey]) =
      pure (.column (root.column key.column .scalar) key) := by
  have held := Resource.attribute_of_primaryKey identified
  have stays : walkPath c .toField root [] = pure root := rfl
  simp only [side, field, List.getLast?_singleton, List.dropLast_singleton, stays, pure_bind, named,
    bind_ofExcept, held]

theorem side_value (notNull : id.isNull = false) : side c root (.value id) = pure (.value id) := by
  cases id with
  | null => cases notNull
  | _ => rfl

/-- The comparison of the primary key with an identifier is the condition for the identifier. -/
theorem comparison_key (named : c.metadata.findResource root.resource = .ok r)
    (identified : r.primaryKey = .ok key) (notNull : id.isNull = false) :
    comparison c root .equals (.field [r.type.primaryKey]) (.value id) = identity c root r id := by
  have compares : Known.check .equals key.type (.field key) (.value id) = .ok () := by
    simp [Known.check, Known.isNull, key.type.equals_mem_comparisons]
  simp only [comparison, identity, bindId, side_key named identified, side_value notNull, pure_bind,
    Side.known, Known.typing, bind_ofExcept, Option.map_some, Option.getD_some, compares, bindSide,
    Known.literal, identified, notNull, Bool.false_eq_true, if_false, bind_assoc,
    Sql.Condition.equals]

/-- An identifier and a filter are asked for together as both conditions in one filter are. -/
theorem requestCondition_key (named : c.metadata.findResource root.resource = .ok r)
    (identified : r.primaryKey = .ok key) (notNull : id.isNull = false)
    (filter : Option Request.Filter) :
    requestCondition c root r none (some (r.keyFilter id filter)) =
      requestCondition c root r (some id) filter := by
  cases filter with
  | none =>
    simp only [requestCondition, Resource.keyFilter, optionally, condition, conditions,
      comparison_key named identified notNull, pure_bind, bind_assoc, Option.toList_none]
    rfl
  | some filter =>
    simp only [requestCondition, Resource.keyFilter, optionally, condition, conditions,
      comparison_key named identified notNull, pure_bind, bind_assoc, Option.toList_some]
    rfl

/-! ## Queries -/

section

variable {q : Request.Query} (identified : r.primaryKey = .ok key) (given : q.id = some id)
  (notNull : id.isNull = false)

include identified given notNull

theorem asked_byKey (known : c.metadata.findResource r.name = .ok r) (table : Sql.Table) :
    requestCondition c ⟨r.name, .table table⟩ r (q.byKey r id).id (q.byKey r id).filter =
      requestCondition c ⟨r.name, .table table⟩ r q.id q.filter := by
  rw [given]
  exact requestCondition_key known identified notNull q.filter

theorem plainRows_byKey (known : c.metadata.findResource r.name = .ok r) (table : Sql.Table) :
    plainRows c (q.byKey r id) r table = plainRows c q r table := by
  simp only [plainRows, asked_byKey identified given notNull known]
  rfl

theorem pagedRows_byKey (known : c.metadata.findResource r.name = .ok r) (table : Sql.Table) :
    pagedRows c (q.byKey r id) r table = pagedRows c q r table := by
  simp only [pagedRows, page, asked_byKey identified given notNull known]
  rfl

theorem rows_byKey (named : c.metadata.findResource q.resource = .ok r) :
    rows c (q.byKey r id) = rows c q := by
  have known := Metadata.findResource_self named
  have named' : c.metadata.findResource (q.byKey r id).resource = .ok r := named
  simp only [rows, openTable, named, named', bind_ofExcept, bind_assoc, pure_bind,
    plainRows_byKey identified given notNull known, pagedRows_byKey identified given notNull known]
  rfl

theorem rowCount_byKey (named : c.metadata.findResource q.resource = .ok r) :
    rowCount c (q.byKey r id) = rowCount c q := by
  have known := Metadata.findResource_self named
  have named' : c.metadata.findResource (q.byKey r id).resource = .ok r := named
  simp only [rowCount, openTable, named, named', bind_ofExcept, bind_assoc, pure_bind,
    asked_byKey identified given notNull known]

end

end Compile

/-- A query for one resource comes to the same commands, or fails with the same error, as the query
with the filter that compares its primary key. -/
theorem Request.Query.commands_byKey {c : Context} {q : Query} {r : Resource} {id : Json}
    (checked : c.metadata.check = .ok ()) (named : c.metadata.findResource q.resource = .ok r)
    (given : q.id = some id) (notNull : id.isNull = false) :
    (q.byKey r id).command c = q.command c ∧ (q.byKey r id).countCommand c = q.countCommand c := by
  have known := Metadata.findResource_self named
  obtain ⟨key, identified, -⟩ := Metadata.primaryKey_of_check checked known
  constructor
  · rw [command, Compile.rows_byKey identified given notNull named, command]
  · rw [countCommand, Compile.rowCount_byKey identified given notNull named, countCommand]

/-- The first book, if its title begins with an A. -/
def Sample.lettered : Request.Query :=
  { Sample.first with filter := some (.textMatch .startsWith ["title"] "A") }

theorem Request.Query.commands_byKey_books :
    Sample.context.metadata.check = .ok () ∧ ∃ command counted,
      Sample.lettered.command Sample.context = .ok command ∧
      Sample.lettered.countCommand Sample.context = .ok counted ∧
      (Sample.lettered.byKey ⟨"book", Sample.book⟩ (Sample.bookId 1)).command Sample.context =
        .ok command ∧
      (Sample.lettered.byKey ⟨"book", Sample.book⟩ (Sample.bookId 1)).countCommand Sample.context =
        .ok counted := by
  have checked : Sample.context.metadata.check = .ok () := by decide
  obtain ⟨command, run⟩ : ∃ command, Sample.lettered.command Sample.context = .ok command :=
    ⟨_, rfl⟩
  obtain ⟨counted, counts⟩ : ∃ counted, Sample.lettered.countCommand Sample.context = .ok counted :=
    ⟨_, rfl⟩
  have named : Sample.context.metadata.findResource Sample.lettered.resource =
      .ok ⟨"book", Sample.book⟩ := rfl
  have given : Sample.lettered.id = some (Sample.bookId 1) := rfl
  obtain ⟨same, same'⟩ := commands_byKey checked named given rfl
  exact ⟨checked, command, counted, run, counts, same.trans run, same'.trans counts⟩

end ResourceSql
