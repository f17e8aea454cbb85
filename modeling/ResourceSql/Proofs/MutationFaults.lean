/-
Faults of mutations, and of all requests. A deletion names no relationship: those
whose foreign keys it clears are declared, and metadata that pass their check let
these keys be null, so that nothing of a deletion can be required
(`blames_clearReferences`). If a request is refused, it is for what the request
itself names (`Request.blames_request`).
-/
import ResourceSql.Proofs.Faults
import ResourceSql.Proofs.Paging

namespace ResourceSql

variable {c : Context} {names : Request.Names}

/-- A checked relationship that is set to null on deletion has a foreign key that may be null. -/
theorem Metadata.nullable_of_check {m : Metadata} {r : Resource} {relationship : String}
    {d : Relationship} {key : ForeignKey} (checked : m.check = .ok ())
    (found : m.findResource r.name = .ok r)
    (declared : (relationship, d) ∈ r.type.relationships.toList)
    (behavior : d.deleteBehavior = .setNull)
    (resolved : ForeignKey.resolve m r relationship = .ok key) : key.nullable = true := by
  obtain ⟨-, -, nullable⟩ :=
    checkRelationship_eq_ok.1 (checkRelationship_of_check checked found declared)
  obtain ⟨d', target, declared', -, rfl⟩ := ForeignKey.resolve_eq_ok.1 resolved
  obtain rfl := Option.some.inj ((NameMap.get?_of_mem declared).symm.trans declared')
  exact nullable behavior

namespace Compile

variable {r target : Resource} {table : Sql.Table} {key : ForeignKey} {id : Json} {ids : List Json}
  {relationship : String}

/-! ## Rows and assignments -/

theorem blames_rowIs (checked : c.metadata.check = .ok ())
    (found : c.metadata.findResource r.name = .ok r) (table : Sql.Table) (id : Json) :
    Blames c names (fun _ => True) (rowIs c r table id) := by
  refine .bind (blames_primaryKey checked found) fun a _ => ?_
  exact .bind (blames_bindId checked found id) fun _ _ => .pure trivial

theorem blames_rowIsAnyOf (checked : c.metadata.check = .ok ())
    (found : c.metadata.findResource r.name = .ok r) (table : Sql.Table) (ids : List Json) :
    Blames c names (fun _ => True) (rowIsAnyOf c r table ids) := by
  refine .bind (blames_primaryKey checked found) fun a _ => ?_
  refine .bind (.forEach fun id _ => ?_) fun _ _ => .pure trivial
  exact .bind (blames_bindId checked found id) fun _ _ => .pure trivial

theorem blames_assignKey (checked : c.metadata.check = .ok ()) (known : c.metadata.Knows key.target)
    (named : key.relationship ∈ names.relationships) (table : Sql.Table)
    (data : Request.RelationshipData) :
    Blames c names (fun _ => True) (assignKey c table key data) := by
  unfold assignKey
  split
  · exact .throw named
  · exact .ite (fun _ => .pure trivial) fun _ => .throw named
  · refine .bind (blames_findResource (.inl known)) ?_
    rintro target ⟨found, -⟩
    exact .bind (blames_bindId checked found _) fun _ _ => .pure trivial

theorem blames_assignAttribute (checked : c.metadata.check = .ok ())
    (found : c.metadata.findResource r.name = .ok r) (table : Sql.Table) {name : String}
    (named : name ∈ names.attributes) (value : Json) :
    Blames c names (fun _ => True) (assignAttribute c r table name value) := by
  have finds : Blames c names c.metadata.Types (ofExcept (r.findAttribute name)) := by
    unfold Resource.findAttribute
    cases held : r.type.attributes.get? name with
    | none => exact .throw named
    | some a => exact .pure (Metadata.types_of_check checked found held)
  refine .bind finds fun held typed => ?_
  refine .ite (fun _ => .pure trivial) fun _ => ?_
  refine .bind (blames_literal typed value) fun literal _ => ?_
  exact .bind (blames_bindValue literal) fun _ _ => .pure trivial

theorem blames_assignAttributes (checked : c.metadata.check = .ok ())
    (found : c.metadata.findResource r.name = .ok r) (table : Sql.Table)
    {attributes : NameMap Json} (named : attributes.names ⊆ names.attributes) :
    Blames c names (fun _ => True) (assignAttributes c r table attributes) := by
  refine .forEach fun (name, value) member => ?_
  exact blames_assignAttribute checked found table (named (List.mem_map_of_mem member)) value

theorem blames_assignNewKeys (checked : c.metadata.check = .ok ())
    (found : c.metadata.findResource r.name = .ok r) (table : Sql.Table)
    {relationships : NameMap Request.RelationshipData}
    (named : relationships.names ⊆ names.relationships) :
    Blames c names (fun _ => True) (assignNewKeys c r table relationships) := by
  refine .forEach fun (name, data) member => ?_
  have named : name ∈ names.relationships := named (List.mem_map_of_mem member)
  refine .bind (blames_foreignKey checked found (.inr named)) fun key resolved => ?_
  have own : key.relationship ∈ names.relationships :=
    (ForeignKey.relationship_of_resolve resolved).symm ▸ named
  refine .guard own fun _ => .guard named fun _ => ?_
  exact blames_assignKey checked (Metadata.knows_target resolved) own table data

/-- The relationships that are left over are among the given ones. -/
theorem blames_assignHeldKeys (checked : c.metadata.check = .ok ())
    (found : c.metadata.findResource r.name = .ok r) (table : Sql.Table)
    {given : List (String × Request.RelationshipData)}
    (named : ∀ entry ∈ given, entry.1 ∈ names.relationships) :
    Blames c names (fun made => ∀ entry ∈ made.2, entry.1 ∈ names.relationships)
      (assignHeldKeys c r table given) := by
  induction given with
  | nil => exact .pure (by simp)
  | cons entry given ih =>
    obtain ⟨name, data⟩ := entry
    obtain ⟨first, rest⟩ := List.forall_mem_cons.1 named
    refine .bind (blames_foreignKey checked found (.inr first)) fun key resolved => ?_
    have own : key.relationship ∈ names.relationships :=
      (ForeignKey.relationship_of_resolve resolved).symm ▸ first
    refine .ite (fun _ => ?_) fun _ => ?_
    · refine .bind (blames_assignKey checked (Metadata.knows_target resolved) own table data) ?_
      intro assignment _
      refine .bind (ih rest) ?_
      rintro ⟨assignments, others⟩ left
      exact .pure left
    · refine .bind (ih rest) ?_
      rintro ⟨assignments, others⟩ left
      exact .pure (List.forall_mem_cons.2 ⟨first, left⟩)

/-! ## Relationships -/

theorem blames_narrow (checked : c.metadata.check = .ok ())
    (found : c.metadata.findResource target.name = .ok target) (table : Sql.Table)
    (owned : Sql.Condition) (selection : Selection) :
    Blames c names (fun _ => True) (narrow c target table owned selection) := by
  unfold narrow
  split
  · exact .pure trivial
  · exact .pure trivial
  · exact .bind (blames_rowIsAnyOf checked found table _) fun _ _ => .pure trivial
  · exact .bind (blames_rowIsAnyOf checked found table _) fun _ _ => .pure trivial

/-- Detaching is refused only for a relationship that the request names, or for an identifier. -/
theorem blames_detach (checked : c.metadata.check = .ok ())
    (found : c.metadata.findResource r.name = .ok r) (known : c.metadata.Knows key.target)
    (allowed : key.nullable = true ∨ key.relationship ∈ names.relationships)
    (behavior : DeleteBehavior) (id : Json) (selection : Selection) :
    Blames c names (fun _ => True) (detach c r key behavior id selection) := by
  refine .bind blames_startStatement fun _ _ => ?_
  refine .bind (blames_findResource (.inl known)) ?_
  rintro target ⟨found', -⟩
  refine .bind (blames_bindId checked found id) fun parameter _ => ?_
  refine .bind (blames_narrow checked found' _ _ selection) fun filter _ => ?_
  refine .ite (fun _ => .pure trivial) fun required => ?_
  refine .ite (fun _ => .pure trivial) fun _ => ?_
  exact .throw (allowed.resolve_left required)

theorem blames_attach (checked : c.metadata.check = .ok ())
    (found : c.metadata.findResource r.name = .ok r) (known : c.metadata.Knows key.target)
    (id : Json) (ids : List Json) : Blames c names (fun _ => True) (attach c r key id ids) := by
  refine .bind blames_startStatement fun _ _ => ?_
  refine .bind (blames_findResource (.inl known)) ?_
  rintro target ⟨found', -⟩
  refine .bind (blames_bindId checked found id) fun parameter _ => ?_
  exact .bind (blames_rowIsAnyOf checked found' _ ids) fun _ _ => .pure trivial

theorem blames_relatedIds (named : key.relationship ∈ names.relationships)
    (data : Request.RelationshipData) :
    Blames c names (fun _ => True) (ofExcept (relatedIds key data)) := by
  refine .check fun e failed => ?_
  unfold relatedIds at failed
  split at failed
  · split at failed
    · cases failed
      exact named
    · cases failed
  · split at failed
    · cases failed
      exact named
    · split at failed
      · cases failed
      · cases failed

theorem blames_findRelationship (named : relationship ∈ names.relationships) :
    Blames c names (fun _ => True) (ofExcept (r.findRelationship relationship)) := by
  refine .check fun e failed => ?_
  unfold Resource.findRelationship at failed
  split at failed
  · cases failed
  · cases failed
    exact named

theorem blames_setRelationship (checked : c.metadata.check = .ok ())
    (found : c.metadata.findResource r.name = .ok r) (id : Json)
    (named : relationship ∈ names.relationships) (data : Request.RelationshipData) :
    Blames c names (fun _ => True) (setRelationship c r id relationship data) := by
  refine .bind (blames_foreignKey checked found (.inr named)) fun key resolved => ?_
  have known := Metadata.knows_target resolved
  have own : key.relationship ∈ names.relationships :=
    (ForeignKey.relationship_of_resolve resolved).symm ▸ named
  refine .ite (fun _ => ?_) fun _ => ?_
  · refine .bind blames_startStatement fun _ _ => ?_
    refine .bind (blames_assignKey checked known own _ data) fun assignment _ => ?_
    exact .bind (blames_rowIs checked found _ id) fun _ _ => .pure trivial
  · refine .bind (blames_relatedIds own data) fun ids _ => ?_
    refine .bind (blames_findRelationship named) fun declared _ => ?_
    refine .bind (blames_detach checked found known (.inr own) _ id _) fun detached _ => ?_
    refine .ite (fun _ => .pure trivial) fun _ => ?_
    exact .bind (blames_attach checked found known id ids) fun _ _ => .pure trivial

theorem blames_addToRelationship (checked : c.metadata.check = .ok ())
    (found : c.metadata.findResource r.name = .ok r) (id : Json)
    (named : relationship ∈ names.relationships) (ids : List Json) :
    Blames c names (fun _ => True) (addToRelationship c r id relationship ids) := by
  refine .bind (blames_foreignKey checked found (.inr named)) fun key resolved => ?_
  have own : key.relationship ∈ names.relationships :=
    (ForeignKey.relationship_of_resolve resolved).symm ▸ named
  refine .guard own fun _ => .ite (fun _ => .pure trivial) fun _ => ?_
  exact .bind (blames_attach checked found (Metadata.knows_target resolved) id ids)
    fun _ _ => .pure trivial

theorem blames_removeFromRelationship (checked : c.metadata.check = .ok ())
    (found : c.metadata.findResource r.name = .ok r) (id : Json)
    (named : relationship ∈ names.relationships) (ids : List Json) :
    Blames c names (fun _ => True) (removeFromRelationship c r id relationship ids) := by
  refine .bind (blames_foreignKey checked found (.inr named)) fun key resolved => ?_
  have own : key.relationship ∈ names.relationships :=
    (ForeignKey.relationship_of_resolve resolved).symm ▸ named
  refine .guard own fun _ => .ite (fun _ => .pure trivial) fun _ => ?_
  refine .bind (blames_findRelationship named) fun declared _ => ?_
  exact .bind (blames_detach checked found (Metadata.knows_target resolved) (.inr own) _ id _)
    fun _ _ => .pure trivial

/-! ## Mutations -/

theorem blames_insert (checked : c.metadata.check = .ok ()) {name : String}
    {attributes : NameMap Json} {relationships : NameMap Request.RelationshipData}
    (named : (Request.Mutation.insert name attributes relationships).names.Within names) :
    Blames c names (fun _ => True) (insert c name attributes relationships) := by
  refine .bind (blames_findResource (.inr (List.cons_subset.1 named.resources).1)) ?_
  rintro r ⟨found, -⟩
  refine .bind blames_startStatement fun _ _ => ?_
  refine .bind (blames_assignAttributes checked found _ named.attributes) fun values _ => ?_
  refine .bind (blames_assignNewKeys checked found _ named.relationships) fun keys _ => ?_
  exact .bind (blames_primaryKey checked found) fun _ _ => .pure trivial

theorem blames_update (checked : c.metadata.check = .ok ()) {name : String}
    {attributes : NameMap Json} {relationships : NameMap Request.RelationshipData}
    (named : (Request.Mutation.update name id attributes relationships).names.Within names) :
    Blames c names (fun _ => True) (update c name id attributes relationships) := by
  refine .bind (blames_findResource (.inr (List.cons_subset.1 named.resources).1)) ?_
  rintro r ⟨found, -⟩
  refine .bind blames_startStatement fun _ _ => ?_
  refine .bind (blames_assignAttributes checked found _ named.attributes) fun values _ => ?_
  have given : ∀ entry ∈ relationships.toList, entry.1 ∈ names.relationships := fun _ member =>
    named.relationships (List.mem_map_of_mem member)
  refine .bind (blames_assignHeldKeys checked found _ given) ?_
  rintro ⟨keys, others⟩ left
  have linked : ∀ own : List Sql.Statement, Blames c names (fun _ => True) (do
      let linked ← forEach (fun entry => setRelationship c r id entry.1 entry.2) others
      return own ++ linked.flatten) := fun own =>
    .bind (.forEach fun entry member =>
      blames_setRelationship checked found id (left entry member) entry.2) fun _ _ => .pure trivial
  refine .ite (fun _ => linked []) fun _ => ?_
  exact .bind (blames_rowIs checked found _ id) fun filter _ => linked _

/-- Clearing references is never refused for a relationship. -/
theorem blames_clearReferences (checked : c.metadata.check = .ok ())
    (found : c.metadata.findResource r.name = .ok r) (id : Json)
    {given : List (String × Relationship)} (declared : given ⊆ r.type.relationships.toList) :
    Blames c names (fun _ => True) (clearReferences c r id given) := by
  induction given with
  | nil => exact .pure trivial
  | cons entry given ih =>
    obtain ⟨name, d⟩ := entry
    obtain ⟨first, rest⟩ := List.cons_subset.1 declared
    refine .ite (fun clears => ?_) fun _ => ih rest
    have contained : r.type.relationships.contains name = true := by
      simp [NameMap.contains, NameMap.get?_of_mem first]
    refine .bind (blames_foreignKey checked found (.inl contained)) fun key resolved => ?_
    have nullable := Metadata.nullable_of_check checked found first clears.1 resolved
    refine .bind (blames_detach checked found (Metadata.knows_target resolved) (.inl nullable)
      .setNull id .all) fun _ _ => ?_
    exact .bind (ih rest) fun _ _ => .pure trivial

theorem blames_delete (checked : c.metadata.check = .ok ()) {name : String}
    (named : name ∈ names.resources) : Blames c names (fun _ => True) (delete c name id) := by
  refine .bind (blames_findResource (.inr named)) ?_
  rintro r ⟨found, -⟩
  refine .bind (blames_clearReferences checked found id (List.Subset.refl _)) fun _ _ => ?_
  refine .bind blames_startStatement fun _ _ => ?_
  exact .bind (blames_rowIs checked found _ id) fun _ _ => .pure trivial

theorem blames_mutation (checked : c.metadata.check = .ok ()) {m : Request.Mutation}
    (named : m.names.Within names) : Blames c names (fun _ => True) (mutation c m) := by
  cases m with
  | insert name attributes relationships => exact blames_insert checked named
  | update name id attributes relationships => exact blames_update checked named
  | delete name id => exact blames_delete checked (List.cons_subset.1 named.resources).1
  | setRelationship name id relationship data =>
    refine .bind (blames_findResource (.inr (List.cons_subset.1 named.resources).1)) ?_
    rintro r ⟨found, -⟩
    exact blames_setRelationship checked found id (List.cons_subset.1 named.relationships).1 data
  | addToRelationship name id relationship ids =>
    refine .bind (blames_findResource (.inr (List.cons_subset.1 named.resources).1)) ?_
    rintro r ⟨found, -⟩
    exact blames_addToRelationship checked found id (List.cons_subset.1 named.relationships).1 ids
  | removeFromRelationship name id relationship ids =>
    refine .bind (blames_findResource (.inr (List.cons_subset.1 named.resources).1)) ?_
    rintro r ⟨found, -⟩
    exact blames_removeFromRelationship checked found id
      (List.cons_subset.1 named.relationships).1 ids

end Compile

/-! ## Requests -/

namespace Request

variable {r : Request}

theorem blames_compile (checked : c.metadata.check = .ok ()) :
    Blames c r.names (fun _ => True) (r.compile c) := by
  have named := Names.Within.refl r.names
  cases r with
  | rows q => exact .bind (Compile.blames_rows checked named) fun _ _ => .pure trivial
  | count q => exact .bind (Compile.blames_rowCount checked named) fun _ _ => .pure trivial
  | mutation m => exact Compile.blames_mutation checked named

/-- With metadata that pass their check, a request is refused only for what it names itself, and a
deletion never because a relationship is required. The nodes that statements are made of are always
accepted: parameters by their names, and conjunctions of owned rows by the number of their terms. -/
theorem blames_request (checked : c.metadata.check = .ok ()) (r : Request) :
    (∀ e, r.commands c = .error e → e.Concerns r.names ∧
      ∀ name id, r = .mutation (.delete name id) →
        ∀ relationship resource, e ≠ .requiredRelationship relationship resource) ∧
    (∀ value p, ∃ parameter q, Compile.bindValue value p = .ok parameter q ∧
      Sql.Parameter.ofName parameter.name value = .ok parameter) ∧
    ∀ target table owned selection p made q,
      Compile.narrow c target table owned selection p = .ok made q →
        made = owned ∨ ∃ chosen, Sql.Condition.ofTerms .and [owned, chosen] = .ok made := by
  refine ⟨fun e failed => ?_, fun value p => ?_, fun target table owned selection p made q run => ?_⟩
  · obtain ⟨q, failed⟩ := commands_eq_error failed
    have blamed := blames_compile (r := r) checked .start (Progress.grounded_start c.metadata)
    rw [failed] at blamed
    refine ⟨blamed, ?_⟩
    rintro name id rfl relationship resource rfl
    cases blamed
  · exact ⟨_, _, Compile.bindValue_apply value p, dif_pos (Sql.Parameter.numbered _ value).named⟩
  · rcases Compile.narrow_run run with ⟨-, rfl, -⟩ | ⟨ids, among, -, ⟨-, rfl⟩ | ⟨-, -, rfl⟩⟩
    · exact .inl rfl
    · exact .inr ⟨among, rfl⟩
    · exact .inr ⟨.not among, rfl⟩

end Request

/-- Books by an attribute of their sequels that there is not. -/
def Sample.unknown : Request := .rows { Sample.query with
  filter := some (.comparison .equals (.field ["sequel", "author"]) .null) }

theorem Request.blames_request_books : Sample.context.metadata.check = .ok () ∧
    Sample.unknown.commands Sample.context = .error (.attributeNotFound "author" "book") ∧
    "author" ∈ Sample.unknown.names.attributes := by
  have checked : Sample.context.metadata.check = .ok () := by decide
  have failed : Sample.unknown.commands Sample.context =
      .error (.attributeNotFound "author" "book") := rfl
  exact ⟨checked, failed, ((blames_request checked Sample.unknown).1 _ failed).1⟩

end ResourceSql
