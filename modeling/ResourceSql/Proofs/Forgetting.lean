/-
Remembering foreign keys does not show. Whatever functions of the translation were
called before, in whatever scopes, and whether they succeeded or failed, what is
remembered is what resolving gives (`Attained.remembers`). So every function ends as it
does where each foreign key is resolved anew (`Attained.memory_unseen`).
-/
import ResourceSql.Proofs.Oblivious
import ResourceSql.Proofs.Paging

namespace ResourceSql

namespace Compile

/-- The functions of the translation that use a state, applied to arguments. Types of resources
whose relationships are looked up are those of the metadata. -/
inductive Translates (c : Context) : {α : Type} → Compile α → Prop
  | freshAlias : Translates c freshAlias
  | bindValue (value : Value) : Translates c (bindValue value)
  | startStatement : Translates c startStatement
  | foreignKey {name : String} {declaring : Resource}
    (found : c.metadata.findResource name = .ok declaring) (relationship : String) :
    Translates c (foreignKey c.metadata declaring relationship)
  | walkPath (walk : Walk) (root : Occurrence) (path : List String) :
    Translates c (walkPath c walk root path)
  | anyLeadsToMany {name : String} {here : Resource}
    (found : c.metadata.findResource name = .ok here) (paths : List (List String)) :
    Translates c (anyLeadsToMany c here paths)
  | field (root : Occurrence) (path : List String) : Translates c (field c root path)
  | bindId (resource : Resource) (id : Json) : Translates c (bindId c resource id)
  | relatedSelect (root : Occurrence) (path : List String) (projection : Sql.Projection)
    (filter : Option Request.Filter) : Translates c (relatedSelect c root path projection filter)
  | count (root : Occurrence) (path : List String) : Translates c (count c root path)
  | side (root : Occurrence) (operand : Request.Operand) : Translates c (side c root operand)
  | bindSide (typing : Option Attribute) (side : Side) : Translates c (bindSide c typing side)
  | comparison (root : Occurrence) (operator : Comparison) (left right : Request.Operand) :
    Translates c (comparison c root operator left right)
  | logical (root : Occurrence) (connective : Connective) (terms : List Request.Filter) :
    Translates c (conditions c root terms >>= joined connective)
  | condition (root : Occurrence) (filter : Request.Filter) : Translates c (condition c root filter)
  | requestCondition (root : Occurrence) (resource : Resource) (id : Option Json)
    (filter : Option Request.Filter) : Translates c (requestCondition c root resource id filter)
  | orderTerm (root : Occurrence) (element : Request.SortElement) :
    Translates c (orderTerm c root element)
  | order (root : Occurrence) (sort : List Request.SortElement) : Translates c (order c root sort)
  | projection (root : Occurrence) (fields : NameMap (List String)) :
    Translates c (projection c root fields)
  | pagedRows (q : Request.Query) (resource : Resource) (table : Sql.Table) :
    Translates c (pagedRows c q resource table)
  | rows (q : Request.Query) : Translates c (rows c q)
  | rowCount (q : Request.Query) : Translates c (rowCount c q)
  | rowIs (resource : Resource) (table : Sql.Table) (id : Json) :
    Translates c (rowIs c resource table id)
  | rowIsAnyOf (resource : Resource) (table : Sql.Table) (ids : List Json) :
    Translates c (rowIsAnyOf c resource table ids)
  | assignAttribute (resource : Resource) (table : Sql.Table) (name : String) (value : Json) :
    Translates c (assignAttribute c resource table name value)
  | assignKey (table : Sql.Table) (key : ForeignKey) (data : Request.RelationshipData) :
    Translates c (assignKey c table key data)
  | detach (resource : Resource) (key : ForeignKey) (behavior : DeleteBehavior) (id : Json)
    (selection : Selection) : Translates c (detach c resource key behavior id selection)
  | attach (resource : Resource) (key : ForeignKey) (id : Json) (ids : List Json) :
    Translates c (attach c resource key id ids)
  | setRelationship {name : String} {resource : Resource}
    (found : c.metadata.findResource name = .ok resource) (id : Json) (relationship : String)
    (data : Request.RelationshipData) :
    Translates c (setRelationship c resource id relationship data)
  | addToRelationship {name : String} {resource : Resource}
    (found : c.metadata.findResource name = .ok resource) (id : Json) (relationship : String)
    (ids : List Json) : Translates c (addToRelationship c resource id relationship ids)
  | removeFromRelationship {name : String} {resource : Resource}
    (found : c.metadata.findResource name = .ok resource) (id : Json) (relationship : String)
    (ids : List Json) : Translates c (removeFromRelationship c resource id relationship ids)
  | insert (name : String) (attributes : NameMap Json)
    (relationships : NameMap Request.RelationshipData) :
    Translates c (insert c name attributes relationships)
  | update (name : String) (id : Json) (attributes : NameMap Json)
    (relationships : NameMap Request.RelationshipData) :
    Translates c (update c name id attributes relationships)
  | delete (name : String) (id : Json) : Translates c (delete c name id)
  | compile (r : Request) : Translates c (r.compile c)

theorem Translates.oblivious {c : Context} {α : Type} {x : Compile α} (h : Translates c x) :
    Oblivious c.metadata x := by
  cases h with
  | freshAlias => exact oblivious_freshAlias
  | bindValue value => exact oblivious_bindValue value
  | startStatement => exact oblivious_startStatement
  | foreignKey found relationship =>
    exact oblivious_foreignKey (Metadata.findResource_self found) relationship
  | walkPath walk root path => exact oblivious_walkPath walk root path
  | anyLeadsToMany found paths =>
    exact oblivious_anyLeadsToMany (Metadata.findResource_self found) paths
  | field root path => exact oblivious_field root path
  | bindId resource id => exact oblivious_bindId resource id
  | relatedSelect root path projection filter =>
    exact oblivious_relatedSelect root path projection filter
  | count root path => exact oblivious_count root path
  | side root operand => exact oblivious_side root operand
  | bindSide typing side => exact oblivious_bindSide typing side
  | comparison root operator left right => exact oblivious_comparison root operator left right
  | logical root connective terms =>
    exact .bind (oblivious_conditions root terms) (oblivious_joined connective)
  | condition root filter => exact oblivious_condition root filter
  | requestCondition root resource id filter =>
    exact oblivious_requestCondition root resource id filter
  | orderTerm root element => exact oblivious_orderTerm root element
  | order root sort => exact oblivious_order root sort
  | projection root fields => exact oblivious_projection root fields
  | pagedRows q resource table => exact oblivious_pagedRows q resource table
  | rows q => exact oblivious_rows q
  | rowCount q => exact oblivious_rowCount q
  | rowIs resource table id => exact oblivious_rowIs resource table id
  | rowIsAnyOf resource table ids => exact oblivious_rowIsAnyOf resource table ids
  | assignAttribute resource table name value =>
    exact oblivious_assignAttribute resource table name value
  | assignKey table key data => exact oblivious_assignKey table key data
  | detach resource key behavior id selection =>
    exact oblivious_detach resource key behavior id selection
  | attach resource key id ids => exact oblivious_attach resource key id ids
  | setRelationship found id relationship data =>
    exact oblivious_setRelationship (Metadata.findResource_self found) id relationship data
  | addToRelationship found id relationship ids =>
    exact oblivious_addToRelationship (Metadata.findResource_self found) id relationship ids
  | removeFromRelationship found id relationship ids =>
    exact oblivious_removeFromRelationship (Metadata.findResource_self found) id relationship ids
  | insert name attributes relationships => exact oblivious_insert name attributes relationships
  | update name id attributes relationships =>
    exact oblivious_update name id attributes relationships
  | delete name id => exact oblivious_delete name id
  | compile r => exact oblivious_compile r

end Compile

open Compile

/-- The progress that functions of the translation lead to from a start, called one after the
other, each in a scope with any joins, whether they succeed or fail. -/
inductive Attained (c : Context) (start : Progress) : Progress → Prop
  | refl : Attained c start start
  | inScope {p : Progress} (joins : List PathJoin) :
    Attained c start p → Attained c start { p with joins }
  | called {p : Progress} {α : Type} {x : Compile α} :
    Translates c x → Attained c start p → Attained c start (.after (x p))

section

variable {c : Context} {start p : Progress}

theorem Attained.remembers (right : start.Remembers c.metadata) (h : Attained c start p) :
    p.Remembers c.metadata := by
  induction h with
  | refl => exact right
  | inScope joins _ ih => exact ih
  | called translates _ ih => exact (translates.oblivious.runs ih).2

/-- Where nothing is remembered, the same calls lead to the same counters and joins. -/
theorem Attained.forget (right : start.Remembers c.metadata) (h : Attained c start p) :
    Attained c start.forget p.forget := by
  induction h with
  | refl => exact .refl
  | inScope joins _ ih => exact .inScope joins ih
  | @called p _ x translates before ih =>
    have same := (translates.oblivious.runs (before.remembers right)).1
    rw [← after_forgotten, same]
    exact .called translates ih

/-- Where nothing is remembered, nothing comes to be. -/
theorem Compile.Translates.memory_eq_none {α : Type} {x : Compile α} (h : Translates c x)
    (without : p.memory = none) : (Progress.after (x p)).memory = none := by
  have same := (h.oblivious.runs (.of_none without)).1
  rw [Progress.forget_eq_self without] at same
  rw [← same, after_forgotten]
  rfl

/-- The commands for a request, if nothing is remembered while it is compiled. -/
theorem Request.commands_eq_forgotten (c : Context) (r : Request) : r.commands c =
    (outcome (r.compile c (.forget .start))).map
      fun statements => statements.map (·.command c.dialect) := by
  have same := ((oblivious_compile (c := c) r).runs (Progress.remembers_start c.metadata)).1
  rw [commands_eq, result_eq_outcome, ← same, outcome_forgotten]

/-- **What is remembered does not show.** After any calls of functions of the translation, a
look-up gives the foreign key that resolving gives, or its error. Every function ends as it does
where nothing is remembered: with the same value or error, the same counters and the same joins;
and there the calls before would have led to the same progress, too. Where nothing is remembered,
each look-up resolves, and nothing comes to be remembered. So the commands for a request are those
that are made where all foreign keys are resolved. -/
theorem Attained.memory_unseen (attained : Attained c .start p) :
    (∀ name declaring, c.metadata.findResource name = .ok declaring → ∀ relationship,
      outcome (foreignKey c.metadata declaring relationship p) =
        ForeignKey.resolve c.metadata declaring relationship) ∧
    (∀ {α : Type} {x : Compile α}, Translates c x → forgotten (x p) = x p.forget) ∧
    Attained c (.forget .start) p.forget ∧
    (∀ q : Progress, q.memory = none →
      (∀ declaring relationship, foreignKey c.metadata declaring relationship q =
        ofExcept (ForeignKey.resolve c.metadata declaring relationship) q) ∧
      ∀ {α : Type} {x : Compile α}, Translates c x → (Progress.after (x q)).memory = none) ∧
    ∀ r : Request, r.commands c = (outcome (r.compile c (.forget .start))).map
      fun statements => statements.map (·.command c.dialect) := by
  have right := Progress.remembers_start c.metadata
  have remembers := attained.remembers right
  refine ⟨fun name declaring found relationship => ?_, fun translates => ?_, attained.forget right,
    fun q without => ?_, Request.commands_eq_forgotten c⟩
  · have known := Metadata.findResource_self found
    rw [← outcome_forgotten, ((oblivious_foreignKey known relationship).runs remembers).1,
      foreignKey_of_forgotten rfl]
    cases ForeignKey.resolve c.metadata declaring relationship <;> rfl
  · exact (translates.oblivious.runs remembers).1
  · exact ⟨fun _ _ => foreignKey_of_forgotten without, fun h => h.memory_eq_none without⟩

end

/-- A walk that fails at its second relationship: both of them are remembered afterwards, one that
books do not have is not found, and books are read as if nothing were remembered. -/
theorem Attained.memory_unseen_books : ∃ p : Progress, let c := Sample.context
    let book : Resource := ⟨"book", Sample.book⟩
    walkPath c .toField ⟨"book", .table Sample.books⟩ ["sequel", "prequels"] .start =
        .error (.expectedToOne "prequels" "book") p ∧
      p.memory.map (·.map (·.1)) = some [("book", "prequels"), ("book", "sequel")] ∧
      Attained c .start p ∧
      outcome (foreignKey c.metadata book "sequel" p) =
        ForeignKey.resolve c.metadata book "sequel" ∧
      outcome (foreignKey c.metadata book "author" p) =
        .error (.relationshipNotFound "author" "book") ∧
      forgotten (rows c Sample.query p) = rows c Sample.query p.forget ∧
      Attained c (.forget .start) p.forget ∧
      (Progress.after (rows c Sample.query p.forget)).memory = none := by
  have attained : Attained Sample.context .start (.after (walkPath Sample.context .toField
      ⟨"book", .table Sample.books⟩ ["sequel", "prequels"] .start)) :=
    .called (.walkPath .toField ⟨"book", .table Sample.books⟩ ["sequel", "prequels"]) .refl
  obtain ⟨lookups, functions, session, resolving, -⟩ := attained.memory_unseen
  have found : Sample.context.metadata.findResource "book" = .ok ⟨"book", Sample.book⟩ := rfl
  exact ⟨_, rfl, rfl, attained, lookups _ _ found "sequel", lookups _ _ found "author",
    functions (.rows Sample.query), session, (resolving _ rfl).2 (.rows Sample.query)⟩

end ResourceSql
