/-
The types of the values that mutations bind, and of those of all requests. The
foreign keys that are changed in a related table identify the resource they belong
to (`ForeignKey.Owns`), as the metadata say of keys at the right side. Only to add
to a to-many relationship or to remove from it, the side of the key is not looked
at; there the key may be one that the metadata place elsewhere
(`Request.Misplaces`), which checked metadata never do. All other values have the
types of what they meet (`Request.bound_types`).
-/
import ResourceSql.Proofs.BoundTypes
import ResourceSql.Proofs.Commands
import ResourceSql.Proofs.Consistency

namespace ResourceSql

/-- The values of a statement have the types of what they meet in its tables. -/
def Sql.Statement.Typed (m : Metadata) (s : Statement) : Prop :=
  ∀ use ∈ s.uses, use.Typed m s.tables

/-- A placeholder identifies the resource to which rows of a related table belong, where it meets
the foreign key in that table. -/
def ForeignKey.Owns (m : Metadata) (key : ForeignKey) (r : Resource) (id : Json) (use : Sql.Use) :
    Prop :=
  m.Identifies r id use.parameter.value ∧ ∃ target, m.findResource key.target = .ok target ∧
    let column := (target.table none).column key.column .foreignKey
    use.role = .compared column ∨ use.role = .assigned column

section

variable {c : Context} {p q : Progress} {r target : Resource} {key : ForeignKey} {id : Json}
  {relationship : String} {made : Sql.Condition} {statement : Sql.Statement}
  {statements : List Sql.Statement} {tables : List Sql.Table}

theorem Metadata.Identifies.exists_admits {m : Metadata} {value : Value}
    (h : m.Identifies r id value) : ∃ a, r.primaryKey = .ok a ∧ a.Admits m value := by
  obtain ⟨a, identified, given, read⟩ := h
  exact ⟨a, identified, Attribute.admits_of_literal given read⟩

/-- A foreign key in the related table holds the primary keys of the type that declares it. -/
theorem ForeignKey.Owns.typed {m : Metadata} {use : Sql.Use} (owns : key.Owns m r id use)
    (found : m.findResource r.name = .ok r)
    (resolved : ForeignKey.resolve m r relationship = .ok key) (right : key.atLeftSide = false)
    (stored : ∀ target, m.findResource key.target = .ok target → target.table none ∈ tables) :
    use.Typed m tables := by
  obtain ⟨parameter, role⟩ := use
  obtain ⟨identifies, target, known, met⟩ := owns
  obtain ⟨a, identified, admits⟩ := identifies.exists_admits
  have described : m.Describes tables ((target.table none).column key.column .foreignKey) a :=
    ⟨target, Metadata.findResource_self known, stored target known, r,
      .remote found resolved right rfl known, identified⟩
  rcases met with met | met
  · obtain rfl : role = _ := met
    exact ⟨a, described, admits⟩
  · obtain rfl : role = _ := met
    exact ⟨a, described, admits⟩

namespace Compile

open Sql

/-! ## Parts of a mutation -/

theorem described_own {m : Metadata} {name : String} {held : Attribute}
    (found : m.findResource r.name = .ok r) (stored : r.table none ∈ tables)
    (looked : r.type.attributes.get? name = some held) :
    m.Describes tables ((r.table none).column held.column .scalar) held :=
  ⟨r, found, stored, rfl, name, looked⟩

theorem typed_rowIs (found : c.metadata.findResource r.name = .ok r)
    (stored : r.table none ∈ tables) (run : rowIs c r (r.table none) id p = .ok made q) :
    ∀ use ∈ made.uses, use.Typed c.metadata tables := by
  obtain ⟨primaryKey, parameter, identified, bound, rfl⟩ := rowIs_run run
  intro use member
  obtain rfl := List.mem_singleton.1 member
  exact ⟨primaryKey, described_own found stored (Resource.attribute_of_primaryKey identified),
    (bindId_value bound).1.admits identified⟩

theorem typed_rowIsAnyOf {ids : List Json} (found : c.metadata.findResource r.name = .ok r)
    (stored : r.table none ∈ tables) (run : rowIsAnyOf c r (r.table none) ids p = .ok made q) :
    ∀ use ∈ made.uses, use.Typed c.metadata tables := by
  obtain ⟨primaryKey, operands, identified, bound, rfl⟩ := rowIsAnyOf_run run
  rw [Condition.uses, operandUses_eq_flatMap]
  intro use member
  obtain ⟨operand, listed, member⟩ := List.mem_flatMap.1 member
  obtain ⟨id, -, before, after, run⟩ := forEach_mem bound listed
  obtain ⟨parameter, p₁, bound, run⟩ := bind_eq_ok.1 run
  cases run
  obtain rfl := List.mem_singleton.1 member
  exact ⟨primaryKey, described_own found stored (Resource.attribute_of_primaryKey identified),
    .inr ((bindId_value bound).1.admits identified)⟩

/-- The value of a column belongs to what describes the column. -/
abbrev AssignmentTyped (m : Metadata) (tables : List Table) (a : Assignment) : Prop :=
  ∀ use ∈ a.value.uses (.assigned a.column), use.Typed m tables

theorem typed_assignKey {data : Request.RelationshipData} {assignment : Assignment}
    (found : c.metadata.findResource r.name = .ok r) (stored : r.table none ∈ tables)
    (resolved : ForeignKey.resolve c.metadata r relationship = .ok key)
    (left : key.atLeftSide = true)
    (run : assignKey c (r.table none) key data p = .ok assignment q) :
    AssignmentTyped c.metadata tables assignment := by
  obtain ⟨column, ⟨-, -, value, -⟩ | ⟨id, target, parameter, -, known, bound, value⟩⟩ :=
    assignKey_run run
  · rw [AssignmentTyped, value]
    simp [Operand.uses]
  · rw [AssignmentTyped, value, column]
    intro use member
    obtain rfl := List.mem_singleton.1 member
    obtain ⟨a, identified, admits⟩ := (bindId_value bound).1.exists_admits
    exact ⟨a, ⟨r, found, stored, target, .held resolved left rfl known, identified⟩, admits⟩

theorem typed_assignAttribute {name : String} {value : Json} {assignment : Assignment}
    (found : c.metadata.findResource r.name = .ok r) (stored : r.table none ∈ tables)
    (run : assignAttribute c r (r.table none) name value p = .ok assignment q) :
    AssignmentTyped c.metadata tables assignment := by
  obtain ⟨held, looked, column, ⟨-, value, -⟩ | ⟨literal, parameter, given, read, bound, value⟩⟩ :=
    assignAttribute_run run
  · rw [AssignmentTyped, value]
    simp [Operand.uses]
  · cases bound
    rw [AssignmentTyped, value, column]
    intro use member
    obtain rfl := List.mem_singleton.1 member
    exact ⟨held, described_own found stored (Resource.findAttribute_eq_ok.1 looked),
      Attribute.admits_of_literal given read⟩

theorem typed_assignAttributes {attributes : NameMap Json} {assignments : List Assignment}
    (found : c.metadata.findResource r.name = .ok r) (stored : r.table none ∈ tables)
    (run : assignAttributes c r (r.table none) attributes p = .ok assignments q) :
    ∀ a ∈ assignments, AssignmentTyped c.metadata tables a := by
  intro a member
  obtain ⟨⟨name, value⟩, -, before, after, own⟩ := forEach_mem run member
  exact typed_assignAttribute found stored own

theorem typed_assignNewKeys {relationships : NameMap Request.RelationshipData}
    {assignments : List Assignment} (remembers : p.Remembers c.metadata)
    (found : c.metadata.findResource r.name = .ok r) (stored : r.table none ∈ tables)
    (run : assignNewKeys c r (r.table none) relationships p = .ok assignments q) :
    ∀ a ∈ assignments, AssignmentTyped c.metadata tables a := by
  obtain ⟨-, all⟩ := forEach_run (Progress.Remembers c.metadata)
    (fun _ a => AssignmentTyped c.metadata tables a) (fun (name, data) _ a s s' remembers run => by
    simp only [bind_eq_ok] at run
    obtain ⟨key, p₁, looked, run⟩ := run
    obtain ⟨resolved, remembers⟩ := foreignKey_found remembers found looked
    split at run
    · simp [bind_eq_ok] at run
    · split at run
      · simp [bind_eq_ok] at run
      · next held =>
        have left : key.atLeftSide = true := by simpa using held
        exact ⟨remembers.of_memory (assignKey_fixed run).2.2,
          typed_assignKey found stored resolved left run⟩) remembers run
  intro a member
  obtain ⟨-, -, typed⟩ := forall₂_exists_left all member
  exact typed

theorem typed_assignHeldKeys {given others : List (String × Request.RelationshipData)}
    {keys : List Assignment} (remembers : p.Remembers c.metadata)
    (found : c.metadata.findResource r.name = .ok r) (stored : r.table none ∈ tables)
    (run : assignHeldKeys c r (r.table none) given p = .ok (keys, others) q) :
    ∀ a ∈ keys, AssignmentTyped c.metadata tables a := by
  induction given generalizing keys others p with
  | nil =>
    cases run
    simp
  | cons entry given ih =>
    obtain ⟨name, data⟩ := entry
    simp only [assignHeldKeys, bind_eq_ok] at run
    obtain ⟨key, p₁, looked, run⟩ := run
    obtain ⟨resolved, remembers⟩ := foreignKey_found remembers found looked
    split at run
    · next held =>
      obtain ⟨-, left⟩ := Bool.and_eq_true_iff.1 held
      simp only [bind_eq_ok] at run
      obtain ⟨assignment, p₂, assigned, ⟨keys, others⟩, p₃, rest, run⟩ := run
      cases run
      have later := ih (remembers.of_memory (assignKey_fixed assigned).2.2) rest
      exact List.forall_mem_cons.2 ⟨typed_assignKey found stored resolved left assigned, later⟩
    · simp only [bind_eq_ok] at run
      obtain ⟨⟨keys, others⟩, p₂, rest, run⟩ := run
      cases run
      exact ih remembers rest

theorem typed_narrow {owned : Condition} {selection : Selection}
    (found : c.metadata.findResource target.name = .ok target) (stored : target.table none ∈ tables)
    (run : narrow c target (target.table none) owned selection p = .ok made q) :
    ∀ use ∈ made.uses, use ∈ owned.uses ∨ use.Typed c.metadata tables := by
  intro use member
  rcases narrow_run run with ⟨-, rfl, -⟩ | ⟨ids, among, first, rest⟩
  · exact .inl member
  · have typed := typed_rowIsAnyOf found stored first
    rcases rest with ⟨-, rfl⟩ | ⟨-, -, rfl⟩
    · simp only [Condition.uses, conditionUses, List.append_nil] at member
      exact (List.mem_append.1 member).imp_right (typed use)
    · simp only [Condition.uses, conditionUses, List.append_nil] at member
      exact (List.mem_append.1 member).imp_right (typed use)

/-! ## Statements of a mutation -/

theorem typed_detach {behavior : DeleteBehavior} {selection : Selection}
    (run : detach c r key behavior id selection p = .ok statement q) :
    q.memory = p.memory ∧
      (∀ target, c.metadata.findResource key.target = .ok target →
        target.table none ∈ statement.tables) ∧
      ∀ use ∈ statement.uses, key.Owns c.metadata r id use ∨
        use.Typed c.metadata statement.tables := by
  obtain ⟨-, -, -, -, -, -, -, memory, -⟩ := detach_makes run
  obtain ⟨target, parameter, p₁, filter, known, bound, narrowed, rest⟩ := detach_run run
  have among (stored : target.table none ∈ statement.tables) : ∀ use ∈ filter.uses,
      key.Owns c.metadata r id use ∨ use.Typed c.metadata statement.tables := by
    intro use member
    refine (typed_narrow (Metadata.findResource_self known) stored narrowed use member).imp_left ?_
    intro member
    obtain rfl := List.mem_singleton.1 member
    exact ⟨(bindId_value bound).1, target, known, .inl rfl⟩
  have only : ∀ other, c.metadata.findResource key.target = .ok other → other = target :=
    fun other same => Except.ok.inj (same.symm.trans known)
  rcases rest with ⟨-, rfl⟩ | ⟨-, -, rfl⟩
  · refine ⟨memory, fun other same => ?_, ?_⟩
    · rw [only other same]
      exact List.mem_cons_self ..
    · simpa [Statement.uses, Operand.uses] using among (List.mem_cons_self ..)
  · refine ⟨memory, fun other same => ?_, among (List.mem_cons_self ..)⟩
    rw [only other same]
    exact List.mem_cons_self ..

theorem typed_attach {ids : List Json} (run : attach c r key id ids p = .ok statement q) :
    (∀ target, c.metadata.findResource key.target = .ok target →
        target.table none ∈ statement.tables) ∧
      ∀ use ∈ statement.uses, key.Owns c.metadata r id use ∨
        use.Typed c.metadata statement.tables := by
  obtain ⟨target, parameter, p₁, filter, known, bound, among, rfl⟩ := attach_run run
  refine ⟨fun other same => ?_,
    List.forall_mem_append.2 ⟨fun use member => .inl ?_, fun use member => .inr ?_⟩⟩
  · rw [Except.ok.inj (same.symm.trans known)]
    exact List.mem_cons_self ..
  · obtain rfl := List.mem_singleton.1 member
    exact ⟨(bindId_value bound).1, target, known, .inr rfl⟩
  · exact typed_rowIsAnyOf (Metadata.findResource_self known) (List.mem_cons_self ..) among use member

/-- All statements for a key at the right side are typed. -/
theorem typed_or_owns (found : c.metadata.findResource r.name = .ok r)
    (resolved : ForeignKey.resolve c.metadata r relationship = .ok key)
    (stored : ∀ target, c.metadata.findResource key.target = .ok target →
      target.table none ∈ statement.tables)
    (each : ∀ use ∈ statement.uses, key.Owns c.metadata r id use ∨
      use.Typed c.metadata statement.tables) :
    ∀ use ∈ statement.uses, use.Typed c.metadata statement.tables ∨
      key.atLeftSide = true ∧ key.Owns c.metadata r id use := by
  intro use member
  rcases each use member with owns | typed
  · cases left : key.atLeftSide with
    | true => exact .inr ⟨rfl, owns⟩
    | false => exact .inl (owns.typed found resolved left stored)
  · exact .inl typed

theorem typed_of_right (found : c.metadata.findResource r.name = .ok r)
    (resolved : ForeignKey.resolve c.metadata r relationship = .ok key)
    (right : key.atLeftSide = false)
    (stored : ∀ target, c.metadata.findResource key.target = .ok target →
      target.table none ∈ statement.tables)
    (each : ∀ use ∈ statement.uses, key.Owns c.metadata r id use ∨
      use.Typed c.metadata statement.tables) : statement.Typed c.metadata := by
  intro use member
  refine (typed_or_owns found resolved stored each use member).resolve_right ?_
  rintro ⟨left, -⟩
  rw [right] at left
  cases left

theorem typed_update {assignments : List Assignment} {filter : Condition}
    (assigned : ∀ a ∈ assignments, AssignmentTyped c.metadata statement.tables a)
    (filtered : ∀ use ∈ filter.uses, use.Typed c.metadata statement.tables)
    (same : statement = .update ⟨r.table none, assignments, filter⟩) :
    statement.Typed c.metadata := by
  intro use member
  rw [same] at member
  rcases List.mem_append.1 member with member | member
  · obtain ⟨a, given, member⟩ := List.mem_flatMap.1 member
    exact assigned a given use member
  · exact filtered use member

theorem typed_setRelationship {data : Request.RelationshipData} (remembers : p.Remembers c.metadata)
    (found : c.metadata.findResource r.name = .ok r)
    (run : setRelationship c r id relationship data p = .ok statements q) :
    ∀ s ∈ statements, s.Typed c.metadata := by
  obtain ⟨key, p₁, looked, rest⟩ := setRelationship_run run
  obtain ⟨resolved, -⟩ := foreignKey_found remembers found looked
  rcases rest with ⟨left, assignment, p₂, filter, assigned, own, rfl⟩ |
    ⟨right, ids, declared, detached, p₂, -, -, first, rest⟩
  · rw [List.forall_mem_singleton]
    refine typed_update (List.forall_mem_singleton.2 ?_) ?_ rfl
    · exact typed_assignKey found (List.mem_cons_self ..) resolved left assigned
    · exact typed_rowIs found (List.mem_cons_self ..) own
  · obtain ⟨-, stored, each⟩ := typed_detach first
    have detaches := typed_of_right found resolved right stored each
    rcases rest with ⟨-, rfl, -⟩ | ⟨attached, -, second, rfl⟩
    · exact List.forall_mem_singleton.2 detaches
    · obtain ⟨stored, each⟩ := typed_attach second
      exact List.forall_mem_cons.2 ⟨detaches,
        List.forall_mem_singleton.2 (typed_of_right found resolved right stored each)⟩

/-- Where resources are added or removed, only the owner of a key at the left side may not be of the
type that the metadata say. -/
theorem typed_addToRelationship {ids : List Json} (remembers : p.Remembers c.metadata)
    (found : c.metadata.findResource r.name = .ok r)
    (run : addToRelationship c r id relationship ids p = .ok statements q) :
    ∃ key, ForeignKey.resolve c.metadata r relationship = .ok key ∧ key.isToOne = false ∧
      ∀ s ∈ statements, ∀ use ∈ s.uses, use.Typed c.metadata s.tables ∨
        key.atLeftSide = true ∧ key.Owns c.metadata r id use := by
  obtain ⟨key, p₁, looked, toMany, rest⟩ := addToRelationship_run run
  obtain ⟨resolved, -⟩ := foreignKey_found remembers found looked
  refine ⟨key, resolved, toMany, ?_⟩
  rcases rest with ⟨-, rfl, -⟩ | ⟨attached, -, first, rfl⟩
  · simp
  · obtain ⟨stored, each⟩ := typed_attach first
    exact List.forall_mem_singleton.2 (typed_or_owns found resolved stored each)

theorem typed_removeFromRelationship {ids : List Json} (remembers : p.Remembers c.metadata)
    (found : c.metadata.findResource r.name = .ok r)
    (run : removeFromRelationship c r id relationship ids p = .ok statements q) :
    ∃ key, ForeignKey.resolve c.metadata r relationship = .ok key ∧ key.isToOne = false ∧
      ∀ s ∈ statements, ∀ use ∈ s.uses, use.Typed c.metadata s.tables ∨
        key.atLeftSide = true ∧ key.Owns c.metadata r id use := by
  obtain ⟨key, p₁, looked, toMany, rest⟩ := removeFromRelationship_run run
  obtain ⟨resolved, -⟩ := foreignKey_found remembers found looked
  refine ⟨key, resolved, toMany, ?_⟩
  rcases rest with ⟨-, rfl, -⟩ | ⟨declared, detached, -, -, first, rfl⟩
  · simp
  · obtain ⟨-, stored, each⟩ := typed_detach first
    exact List.forall_mem_singleton.2 (typed_or_owns found resolved stored each)

theorem typed_insert {name : String} {attributes : NameMap Json}
    {relationships : NameMap Request.RelationshipData} (remembers : p.Remembers c.metadata)
    (run : insert c name attributes relationships p = .ok statements q) :
    ∀ s ∈ statements, s.Typed c.metadata := by
  obtain ⟨r, values, p₁, keys, primaryKey, named, assigned, held, -, rfl⟩ := insert_run run
  have found := Metadata.findResource_self named
  obtain ⟨memory, -⟩ := assignAttributes_fixed assigned
  have remembers : p₁.Remembers c.metadata := remembers.of_memory memory
  rw [List.forall_mem_singleton]
  intro use member
  obtain ⟨a, given, member⟩ := List.mem_flatMap.1 member
  rcases List.mem_append.1 given with given | given
  · exact typed_assignAttributes found (List.mem_cons_self ..) assigned a given use member
  · exact typed_assignNewKeys remembers found (List.mem_cons_self ..) held a given use member

theorem typed_update_of_mutation {name : String} {attributes : NameMap Json}
    {relationships : NameMap Request.RelationshipData} (remembers : p.Remembers c.metadata)
    (run : update c name id attributes relationships p = .ok statements q) :
    ∀ s ∈ statements, s.Typed c.metadata := by
  obtain ⟨r, values, p₁, keys, others, p₂, own, p₃, linked, named, assigned, held, changed, related,
    rfl⟩ := update_run run
  have found := Metadata.findResource_self named
  obtain ⟨memory, -⟩ := assignAttributes_fixed assigned
  have start : p₁.Remembers c.metadata := remembers.of_memory memory
  obtain ⟨remembers, -⟩ := assignHeldKeys_fixed start found held
  have itself : p₃.Remembers c.metadata ∧ ∀ s ∈ own, s.Typed c.metadata := by
    rcases changed with ⟨-, rfl, rfl⟩ | ⟨filter, -, first, rfl⟩
    · exact ⟨remembers, by simp⟩
    · obtain ⟨-, -, memory, -⟩ := rowIs_truth first
      refine ⟨remembers.of_memory memory, List.forall_mem_singleton.2 ?_⟩
      refine typed_update (fun a given => ?_) (typed_rowIs found (List.mem_cons_self ..) first) rfl
      rcases List.mem_append.1 given with given | given
      · exact typed_assignAttributes found (List.mem_cons_self ..) assigned a given
      · exact typed_assignHeldKeys start found (List.mem_cons_self ..) held a given
  obtain ⟨-, all⟩ := forEach_run (Progress.Remembers c.metadata)
    (fun _ (made : List Statement) => ∀ s ∈ made, s.Typed c.metadata)
    (fun (name, data) _ made s s' remembers run =>
      ⟨(setRelationship_makes remembers found run).1, typed_setRelationship remembers found run⟩)
    itself.1 related
  refine List.forall_mem_append.2 ⟨itself.2, fun s member => ?_⟩
  obtain ⟨made, given, member⟩ := List.mem_flatten.1 member
  obtain ⟨-, -, typed⟩ := forall₂_exists_left all given
  exact typed s member

theorem typed_clearReferences {given : List (String × Relationship)}
    (remembers : p.Remembers c.metadata) (found : c.metadata.findResource r.name = .ok r)
    (declared : ∀ entry ∈ given, entry ∈ r.type.relationships.toList)
    (run : clearReferences c r id given p = .ok statements q) :
    ∀ s ∈ statements, s.Typed c.metadata := by
  induction given generalizing statements p with
  | nil =>
    cases run
    simp
  | cons entry given ih =>
    obtain ⟨name, d⟩ := entry
    obtain ⟨here, declared⟩ := List.forall_mem_cons.1 declared
    simp only [clearReferences] at run
    split at run
    · next clears =>
      simp only [bind_eq_ok] at run
      obtain ⟨key, p₁, looked, detached, p₂, first, rest, p₃, others, run⟩ := run
      cases run
      obtain ⟨resolved, remembers⟩ := foreignKey_found remembers found looked
      have right : key.atLeftSide = false := by
        obtain ⟨d', target, held, -, rfl⟩ := ForeignKey.resolve_eq_ok.1 resolved
        obtain rfl := Option.some.inj ((NameMap.get?_of_mem here).symm.trans held)
        simpa using clears.2
      obtain ⟨memory, stored, each⟩ := typed_detach first
      exact List.forall_mem_cons.2 ⟨typed_of_right found resolved right stored each,
        ih (remembers.of_memory memory) declared others⟩
    · exact ih remembers declared run

theorem typed_delete {name : String} (remembers : p.Remembers c.metadata)
    (run : delete c name id p = .ok statements q) : ∀ s ∈ statements, s.Typed c.metadata := by
  obtain ⟨r, cleared, p₁, filter, named, references, own, rfl⟩ := delete_run run
  have found := Metadata.findResource_self named
  refine List.forall_mem_append.2 ⟨?_, List.forall_mem_singleton.2 ?_⟩
  · exact typed_clearReferences remembers found (fun _ member => member) references
  · exact typed_rowIs found (List.mem_cons_self ..) own

end Compile

end

/-! ## Requests -/

/-- A placeholder identifies the owner of rows that are added to a to-many relationship or removed
from it, although the metadata place its foreign key at the left side. -/
def Request.Misplaces (m : Metadata) (request : Request) (use : Sql.Use) : Prop :=
  ∃ name id relationship ids r key,
    (request = .mutation (.addToRelationship name id relationship ids) ∨
      request = .mutation (.removeFromRelationship name id relationship ids)) ∧
    m.findResource name = .ok r ∧ ForeignKey.resolve m r relationship = .ok key ∧
    key.isToOne = false ∧ key.atLeftSide = true ∧ key.Owns m r id use

namespace Request

variable {c : Context} {request : Request} {q : Progress} {statements : List Sql.Statement}

/-- Checked metadata place the keys of to-many relationships at the right side. -/
theorem not_misplaces_of_check {m : Metadata} (checked : m.check = .ok ()) (use : Sql.Use) :
    ¬ request.Misplaces m use := by
  rintro ⟨name, id, relationship, ids, r, key, -, found, resolved, toMany, left, -⟩
  obtain ⟨d, target, declared, -, rfl⟩ := ForeignKey.resolve_eq_ok.1 resolved
  have passed := Metadata.checkRelationship_of_check checked (Metadata.findResource_self found)
    (NameMap.mem_of_get? declared)
  obtain ⟨-, right, -⟩ := Metadata.checkRelationship_eq_ok.1 passed
  have kind : d.kind = .toMany := by
    cases same : d.kind with
    | toMany => rfl
    | toOne => simp [ForeignKey.isToOne, same] at toMany
  simp [right kind] at left

theorem typed_compile (run : request.compile c .start = .ok statements q) :
    ∀ s ∈ statements, ∀ use ∈ s.uses,
      use.Typed c.metadata s.tables ∨ request.Misplaces c.metadata use := by
  have remembers := Progress.remembers_start c.metadata
  have typed : (∀ s ∈ statements, s.Typed c.metadata) → ∀ s ∈ statements, ∀ use ∈ s.uses,
      use.Typed c.metadata s.tables ∨ request.Misplaces c.metadata use :=
    fun each s member use used => .inl (each s member use used)
  cases request with
  | rows request =>
    obtain ⟨select, p₁, first, run⟩ := Compile.bind_eq_ok.1 run
    cases run
    exact typed (List.forall_mem_singleton.2 (Compile.typed_rows first))
  | count request =>
    obtain ⟨select, p₁, first, run⟩ := Compile.bind_eq_ok.1 run
    cases run
    exact typed (List.forall_mem_singleton.2 (Compile.typed_rowCount first))
  | mutation m =>
    cases m with
    | insert name attributes relationships => exact typed (Compile.typed_insert remembers run)
    | update name id attributes relationships =>
      exact typed (Compile.typed_update_of_mutation remembers run)
    | delete name id => exact typed (Compile.typed_delete remembers run)
    | setRelationship name id relationship data =>
      obtain ⟨r, p₁, looked, run⟩ := Compile.bind_eq_ok.1 run
      obtain ⟨found, rfl⟩ := Compile.ofExcept_eq_ok.1 looked
      exact typed (Compile.typed_setRelationship remembers (Metadata.findResource_self found) run)
    | addToRelationship name id relationship ids =>
      obtain ⟨r, p₁, looked, run⟩ := Compile.bind_eq_ok.1 run
      obtain ⟨found, rfl⟩ := Compile.ofExcept_eq_ok.1 looked
      obtain ⟨key, resolved, toMany, each⟩ :=
        Compile.typed_addToRelationship remembers (Metadata.findResource_self found) run
      intro s member use used
      rcases each s member use used with typed | ⟨left, owns⟩
      · exact .inl typed
      · exact .inr ⟨name, id, relationship, ids, r, key, .inl rfl, found, resolved, toMany, left, owns⟩
    | removeFromRelationship name id relationship ids =>
      obtain ⟨r, p₁, looked, run⟩ := Compile.bind_eq_ok.1 run
      obtain ⟨found, rfl⟩ := Compile.ofExcept_eq_ok.1 looked
      obtain ⟨key, resolved, toMany, each⟩ :=
        Compile.typed_removeFromRelationship remembers (Metadata.findResource_self found) run
      intro s member use used
      rcases each s member use used with typed | ⟨left, owns⟩
      · exact .inl typed
      · exact .inr ⟨name, id, relationship, ids, r, key, .inr rfl, found, resolved, toMany, left, owns⟩

/-- What is bound in a command are the values of the placeholders of its statement, and each of them
has the type of what it meets there. Only if the metadata are inconsistent, the owner of rows that
are added or removed may meet a key that references something else. -/
theorem bound_types {commands : List Sql.Command} (accepted : request.commands c = .ok commands) :
    (c.metadata.check = .ok () → ∀ use, ¬ request.Misplaces c.metadata use) ∧
    ∃ statements q, request.compile c .start = .ok statements q ∧
      commands = statements.map (·.command c.dialect) ∧
      ∀ s ∈ statements, (s.command c.dialect).parameters =
          s.uses.map (fun use => (use.parameter.name, use.parameter.value)) ∧
        ∀ use ∈ s.uses, use.Typed c.metadata s.tables ∨ request.Misplaces c.metadata use := by
  obtain ⟨statements, q, compiled, rfl⟩ := commands_eq_ok accepted
  refine ⟨fun checked use => not_misplaces_of_check checked use, statements, q, compiled, rfl,
    fun s member => ⟨?_, typed_compile compiled s member⟩⟩
  obtain ⟨t, numbered⟩ := numbered_compile (d := c.dialect) compiled s member
  rw [numbered.parameters, Sql.Statement.parameters_eq, List.map_map]
  rfl

/-- The first book becomes the sequel of the second one: both are identified by integers. -/
theorem bound_types_books : ∃ statements q,
    (Request.mutation Sample.link).compile Sample.context .start = .ok statements q ∧
    ∀ s ∈ statements, s.Typed Sample.context.metadata ∧
      s.uses.map (·.parameter.value) = [.int32 1, .int32 2] := by
  obtain ⟨commands, run⟩ : ∃ commands,
      (Request.mutation Sample.link).commands Sample.context = .ok commands := ⟨_, rfl⟩
  obtain ⟨placed, statements, q, compiled, -, each⟩ := bound_types run
  refine ⟨statements, q, compiled, fun s member => ⟨fun use used => ?_, ?_⟩⟩
  · exact ((each s member).2 use used).resolve_right (placed (by decide) use)
  · cases compiled
    simp only [List.mem_cons, List.not_mem_nil, or_false] at member
    rcases member with rfl | rfl
    · rfl
    · rfl

end Request

namespace Sample

/-- Shelves with codes, whose relationship to books has its key at the left side. -/
def shelf : ResourceType where
  schema := none
  table := "shelves"
  primaryKey := "code"
  attributes := ⟨[("code", ⟨"code", .text, false, none⟩)], by decide⟩
  relationships := ⟨[("books", ⟨"book", .toMany, ⟨"book_id", true, true⟩, .setNull⟩)], by decide⟩

def shelves : Context where
  metadata := ⟨⟨[("book", { book with relationships := .empty }), ("shelf", shelf)], by decide⟩,
    .empty⟩
  dialect := .postgreSql

theorem resource_of_shelves {name : String} {r : Resource}
    (h : shelves.metadata.findResource name = .ok r) :
    r = ⟨"book", { book with relationships := .empty }⟩ ∨ r = ⟨"shelf", shelf⟩ := by
  simp only [Metadata.findResource] at h
  split at h
  · next found =>
    cases h
    have entered := NameMap.mem_of_get? found
    simp only [NameMap.toList, shelves, List.mem_cons, List.not_mem_nil, or_false, Prod.mk.injEq]
      at entered
    rcases entered with ⟨rfl, rfl⟩ | ⟨rfl, rfl⟩
    · exact .inl rfl
    · exact .inr rfl
  · cases h

/-- The only relationship is that of the shelves. -/
theorem left_of_shelves {r : Resource} {relationship : String} {key : ForeignKey} {name : String}
    (found : shelves.metadata.findResource name = .ok r)
    (resolved : ForeignKey.resolve shelves.metadata r relationship = .ok key) :
    r = ⟨"shelf", shelf⟩ ∧ key.atLeftSide = true := by
  obtain ⟨d, target, declared, -, rfl⟩ := ForeignKey.resolve_eq_ok.1 resolved
  have entered := NameMap.mem_of_get? declared
  rcases resource_of_shelves found with rfl | rfl
  · cases entered
  · refine ⟨rfl, ?_⟩
    simp only [NameMap.toList, shelf, List.mem_cons, List.not_mem_nil, or_false, Prod.mk.injEq]
      at entered
    obtain ⟨-, rfl⟩ := entered
    rfl

end Sample

/-- A book is added to a shelf: the key of the book is given the code of the shelf, although it
references books. -/
theorem Request.owner_mistyped : ∃ statements q s use,
    (Request.mutation (.addToRelationship "shelf" (.string "A") "books" [Sample.bookId 1])).compile
      Sample.shelves .start = .ok statements q ∧
    s ∈ statements ∧ use ∈ s.uses ∧ use.role = .assigned ⟨"book_id", .foreignKey, none⟩ ∧
    use.parameter.value = .text "A" ∧ ¬ use.Typed Sample.shelves.metadata s.tables := by
  refine ⟨_, _, _, _, rfl, List.mem_cons_self .., List.mem_cons_self .., rfl, rfl, ?_⟩
  rintro ⟨a, ⟨r, found, stored, other, references, -⟩, -⟩
  have books : r.table none ∈ [⟨none, "books", none⟩] := stored
  rcases references with ⟨resolved, left, -, -⟩ | ⟨known, resolved, right, -, -⟩
  · obtain ⟨rfl, -⟩ := Sample.left_of_shelves found resolved
    exact absurd books (by decide)
  · obtain ⟨-, left⟩ := Sample.left_of_shelves known resolved
    rw [right] at left
    cases left

end ResourceSql
