/-
Successful runs of mutations, taken apart like those of queries.
-/
import ResourceSql.Compile.Mutation
import ResourceSql.Proofs.Runs

namespace ResourceSql.Compile

section

variable {c : Context} {p q : Progress} {resource : Resource} {table : Sql.Table} {key : ForeignKey}
  {id : Json} {made : Sql.Condition} {assignment : Sql.Assignment} {statement : Sql.Statement}
  {statements : List Sql.Statement}

theorem rowIs_run (run : rowIs c resource table id p = .ok made q) :
    ∃ primaryKey parameter, resource.primaryKey = .ok primaryKey ∧
      bindId c resource id p = .ok parameter q ∧
      made = .equals (.column (.ofTable (table.column primaryKey.column .scalar)))
        (.parameter parameter) := by
  simp only [rowIs, bind_eq_ok, ofExcept_eq_ok] at run
  obtain ⟨primaryKey, _, ⟨identified, rfl⟩, parameter, p₁, bound, run⟩ := run
  cases run
  exact ⟨primaryKey, parameter, identified, bound, rfl⟩

theorem rowIsAnyOf_run {ids : List Json} (run : rowIsAnyOf c resource table ids p = .ok made q) :
    ∃ primaryKey operands, resource.primaryKey = .ok primaryKey ∧
      forEach (fun id => do return Sql.Operand.parameter (← bindId c resource id)) ids p =
        .ok operands q ∧
      made = .isIn (.ofTable (table.column primaryKey.column .scalar)) operands := by
  simp only [rowIsAnyOf, bind_eq_ok, ofExcept_eq_ok] at run
  obtain ⟨primaryKey, _, ⟨identified, rfl⟩, operands, p₁, bound, run⟩ := run
  cases run
  exact ⟨primaryKey, operands, identified, bound, rfl⟩

/-- A foreign key is cleared, or given a related resource. -/
theorem assignKey_run {data : Request.RelationshipData}
    (run : assignKey c table key data p = .ok assignment q) :
    assignment.column = table.column key.column .foreignKey ∧
      (data = .one .null ∧ key.nullable = true ∧ assignment.value = .null ∧ q = p ∨
        ∃ id target parameter, data = .one id ∧ c.metadata.findResource key.target = .ok target ∧
          bindId c target id p = .ok parameter q ∧ assignment.value = .parameter parameter) := by
  unfold assignKey at run
  split at run
  · simp at run
  · split at run
    · next nullable =>
      cases run
      exact ⟨rfl, .inl ⟨rfl, nullable, rfl, rfl⟩⟩
    · simp at run
  · simp only [bind_eq_ok, ofExcept_eq_ok] at run
    obtain ⟨target, _, ⟨found, rfl⟩, parameter, p₁, bound, run⟩ := run
    cases run
    exact ⟨rfl, .inr ⟨_, target, parameter, rfl, found, bound, rfl⟩⟩

theorem assignAttribute_run {name : String} {value : Json}
    (run : assignAttribute c resource table name value p = .ok assignment q) :
    ∃ held, resource.findAttribute name = .ok held ∧
      assignment.column = table.column held.column .scalar ∧
      (value.isNull = true ∧ assignment.value = .null ∧ q = p ∨
        ∃ literal parameter, value.isNull = false ∧ held.literal c.metadata value = .ok literal ∧
          bindValue literal p = .ok parameter q ∧ assignment.value = .parameter parameter) := by
  simp only [assignAttribute, bind_eq_ok, ofExcept_eq_ok] at run
  obtain ⟨held, _, ⟨found, rfl⟩, run⟩ := run
  refine ⟨held, found, ?_⟩
  cases null : value.isNull with
  | true =>
    simp only [null, if_true] at run
    cases run
    exact ⟨rfl, .inl ⟨rfl, rfl, rfl⟩⟩
  | false =>
    simp only [null, Bool.false_eq_true, if_false, bind_eq_ok, ofExcept_eq_ok] at run
    obtain ⟨literal, _, ⟨typed, rfl⟩, parameter, p₁, bound, run⟩ := run
    cases run
    exact ⟨rfl, .inr ⟨literal, parameter, rfl, typed, bound, rfl⟩⟩

/-- The owned rows are all taken, or narrowed to some of them or to all but some. -/
theorem narrow_run {owned : Sql.Condition} {selection : Selection}
    (run : narrow c resource table owned selection p = .ok made q) :
    (selection = .all ∨ selection = .allExcept []) ∧ made = owned ∧ q = p ∨
      ∃ ids among, rowIsAnyOf c resource table ids p = .ok among q ∧
        (selection = .only ids ∧ made = .logical .and owned among [] ∨
          selection = .allExcept ids ∧ ids ≠ [] ∧ made = .logical .and owned (.not among) []) := by
  cases selection with
  | all =>
    cases run
    exact .inl ⟨.inl rfl, rfl, rfl⟩
  | only ids =>
    simp only [narrow, bind_eq_ok] at run
    obtain ⟨among, p₁, first, run⟩ := run
    cases run
    exact .inr ⟨ids, among, first, .inl ⟨rfl, rfl⟩⟩
  | allExcept ids =>
    cases ids with
    | nil =>
      cases run
      exact .inl ⟨.inr rfl, rfl, rfl⟩
    | cons other ids =>
      simp only [narrow, bind_eq_ok] at run
      obtain ⟨among, p₁, first, run⟩ := run
      cases run
      exact .inr ⟨_, among, first, .inr ⟨rfl, by simp, rfl⟩⟩

theorem detach_run {behavior : DeleteBehavior} {selection : Selection}
    (run : detach c resource key behavior id selection p = .ok statement q) :
    ∃ target parameter p₁ filter, c.metadata.findResource key.target = .ok target ∧
      bindId c resource id { p with parameters := 0 } = .ok parameter p₁ ∧
      narrow c target (target.table none) (.equals
        (.column (.ofTable ((target.table none).column key.column .foreignKey)))
        (.parameter parameter)) selection p₁ = .ok filter q ∧
      (key.nullable = true ∧ statement = .update ⟨target.table none,
          [⟨(target.table none).column key.column .foreignKey, .null⟩], filter⟩ ∨
        key.nullable = false ∧ behavior = .cascade ∧
          statement = .delete ⟨target.table none, filter⟩) := by
  simp only [detach, bind_eq_ok, ofExcept_eq_ok, startStatement_apply] at run
  obtain ⟨_, _, started, target, _, ⟨found, rfl⟩, parameter, p₁, bound, filter, p₂, narrowed, run⟩ :=
    run
  cases started
  refine ⟨target, parameter, p₁, filter, found, bound, ?_⟩
  cases nullable : key.nullable with
  | true =>
    simp only [nullable, if_true] at run
    cases run
    exact ⟨narrowed, .inl ⟨rfl, rfl⟩⟩
  | false =>
    simp only [nullable, Bool.false_eq_true, if_false] at run
    split at run
    · next cascades =>
      cases run
      exact ⟨narrowed, .inr ⟨rfl, cascades, rfl⟩⟩
    · simp at run

theorem attach_run {ids : List Json} (run : attach c resource key id ids p = .ok statement q) :
    ∃ target parameter p₁ filter, c.metadata.findResource key.target = .ok target ∧
      bindId c resource id { p with parameters := 0 } = .ok parameter p₁ ∧
      rowIsAnyOf c target (target.table none) ids p₁ = .ok filter q ∧
      statement = .update ⟨target.table none, [⟨(target.table none).column key.column .foreignKey,
        .parameter parameter⟩], filter⟩ := by
  simp only [attach, bind_eq_ok, ofExcept_eq_ok, startStatement_apply] at run
  obtain ⟨_, _, started, target, _, ⟨found, rfl⟩, parameter, p₁, bound, filter, p₂, among, run⟩ := run
  cases started
  cases run
  exact ⟨target, parameter, p₁, filter, found, bound, among, rfl⟩

theorem setRelationship_run {relationship : String} {data : Request.RelationshipData}
    (run : setRelationship c resource id relationship data p = .ok statements q) :
    ∃ key p₁, foreignKey c.metadata resource relationship p = .ok key p₁ ∧
      (key.atLeftSide = true ∧ (∃ assignment p₂ filter,
          assignKey c (resource.table none) key data { p₁ with parameters := 0 } =
            .ok assignment p₂ ∧
          rowIs c resource (resource.table none) id p₂ = .ok filter q ∧
          statements = [.update ⟨resource.table none, [assignment], filter⟩]) ∨
        key.atLeftSide = false ∧ ∃ ids declared detached p₂, relatedIds key data = .ok ids ∧
          resource.findRelationship relationship = .ok declared ∧
          detach c resource key declared.deleteBehavior id (.allExcept ids) p₁ = .ok detached p₂ ∧
          (ids = [] ∧ statements = [detached] ∧ q = p₂ ∨
            ∃ attached, ids ≠ [] ∧ attach c resource key id ids p₂ = .ok attached q ∧
              statements = [detached, attached])) := by
  simp only [setRelationship, bind_eq_ok] at run
  obtain ⟨key, p₁, looked, run⟩ := run
  refine ⟨key, p₁, looked, ?_⟩
  cases left : key.atLeftSide with
  | true =>
    simp only [left, if_true, bind_eq_ok, startStatement_apply] at run
    obtain ⟨_, _, started, assignment, p₂, assigned, filter, p₃, found, run⟩ := run
    cases started
    cases run
    exact .inl ⟨rfl, assignment, p₂, filter, assigned, found, rfl⟩
  | false =>
    simp only [left, Bool.false_eq_true, if_false, bind_eq_ok, ofExcept_eq_ok] at run
    obtain ⟨ids, _, ⟨given, rfl⟩, declared, _, ⟨found, rfl⟩, detached, p₂, first, run⟩ := run
    refine .inr ⟨rfl, ids, declared, detached, p₂, given, found, first, ?_⟩
    cases ids with
    | nil =>
      cases run
      exact .inl ⟨rfl, rfl, rfl⟩
    | cons other ids =>
      simp only [List.isEmpty_cons, Bool.false_eq_true, if_false, bind_eq_ok] at run
      obtain ⟨attached, p₃, second, run⟩ := run
      cases run
      exact .inr ⟨attached, by simp, second, rfl⟩

theorem addToRelationship_run {relationship : String} {ids : List Json}
    (run : addToRelationship c resource id relationship ids p = .ok statements q) :
    ∃ key p₁, foreignKey c.metadata resource relationship p = .ok key p₁ ∧ key.isToOne = false ∧
      (ids = [] ∧ statements = [] ∧ q = p₁ ∨
        ∃ attached, ids ≠ [] ∧ attach c resource key id ids p₁ = .ok attached q ∧
          statements = [attached]) := by
  simp only [addToRelationship, bind_eq_ok] at run
  obtain ⟨key, p₁, looked, run⟩ := run
  refine ⟨key, p₁, looked, ?_⟩
  cases toOne : key.isToOne with
  | true => simp [toOne, bind_eq_ok] at run
  | false =>
    cases ids with
    | nil =>
      simp only [toOne] at run
      cases run
      exact ⟨rfl, .inl ⟨rfl, rfl, rfl⟩⟩
    | cons other ids =>
      simp only [toOne, List.isEmpty_cons, Bool.false_eq_true, if_false, bind_eq_ok] at run
      obtain ⟨attached, p₂, first, run⟩ := run
      cases run
      exact ⟨rfl, .inr ⟨attached, by simp, first, rfl⟩⟩

theorem removeFromRelationship_run {relationship : String} {ids : List Json}
    (run : removeFromRelationship c resource id relationship ids p = .ok statements q) :
    ∃ key p₁, foreignKey c.metadata resource relationship p = .ok key p₁ ∧ key.isToOne = false ∧
      (ids = [] ∧ statements = [] ∧ q = p₁ ∨
        ∃ declared detached, ids ≠ [] ∧ resource.findRelationship relationship = .ok declared ∧
          detach c resource key declared.deleteBehavior id (.only ids) p₁ = .ok detached q ∧
          statements = [detached]) := by
  simp only [removeFromRelationship, bind_eq_ok] at run
  obtain ⟨key, p₁, looked, run⟩ := run
  refine ⟨key, p₁, looked, ?_⟩
  cases toOne : key.isToOne with
  | true => simp [toOne, bind_eq_ok] at run
  | false =>
    cases ids with
    | nil =>
      simp only [toOne] at run
      cases run
      exact ⟨rfl, .inl ⟨rfl, rfl, rfl⟩⟩
    | cons other ids =>
      simp only [toOne, List.isEmpty_cons, Bool.false_eq_true, if_false, bind_eq_ok,
        ofExcept_eq_ok] at run
      obtain ⟨declared, _, ⟨found, rfl⟩, detached, p₂, first, run⟩ := run
      cases run
      exact ⟨rfl, .inr ⟨declared, detached, by simp, found, first, rfl⟩⟩

theorem insert_run {name : String} {attributes : NameMap Json}
    {relationships : NameMap Request.RelationshipData}
    (run : insert c name attributes relationships p = .ok statements q) :
    ∃ resource values p₁ keys primaryKey, c.metadata.findResource name = .ok resource ∧
      assignAttributes c resource (resource.table none) attributes { p with parameters := 0 } =
        .ok values p₁ ∧
      assignNewKeys c resource (resource.table none) relationships p₁ = .ok keys q ∧
      resource.primaryKey = .ok primaryKey ∧
      statements = [.insert ⟨resource.table none, values ++ keys,
        some ((resource.table none).column primaryKey.column .scalar)⟩] := by
  simp only [insert, bind_eq_ok, ofExcept_eq_ok, startStatement_apply] at run
  obtain ⟨resource, _, ⟨found, rfl⟩, _, _, started, values, p₁, assigned, keys, p₂, held, primaryKey,
    _, ⟨identified, rfl⟩, run⟩ := run
  cases started
  cases run
  exact ⟨resource, values, p₁, keys, primaryKey, found, assigned, held, identified, rfl⟩

/-- An update of the row itself, if anything in it changes, comes before those of related rows. -/
theorem update_run {name : String} {attributes : NameMap Json}
    {relationships : NameMap Request.RelationshipData}
    (run : update c name id attributes relationships p = .ok statements q) :
    ∃ resource values p₁ keys others p₂ own p₃ linked,
      c.metadata.findResource name = .ok resource ∧
      assignAttributes c resource (resource.table none) attributes { p with parameters := 0 } =
        .ok values p₁ ∧
      assignHeldKeys c resource (resource.table none) relationships.toList p₁ =
        .ok (keys, others) p₂ ∧
      (values ++ keys = [] ∧ own = [] ∧ p₃ = p₂ ∨ ∃ filter, values ++ keys ≠ [] ∧
        rowIs c resource (resource.table none) id p₂ = .ok filter p₃ ∧
          own = [.update ⟨resource.table none, values ++ keys, filter⟩]) ∧
      forEach (fun (name, data) => setRelationship c resource id name data) others p₃ =
        .ok linked q ∧
      statements = own ++ linked.flatten := by
  unfold update at run
  simp only [bind_eq_ok, ofExcept_eq_ok, startStatement_apply] at run
  obtain ⟨resource, _, ⟨found, rfl⟩, _, _, started, values, p₁, assigned, ⟨keys, others⟩, p₂, held,
    run⟩ := run
  cases started
  refine ⟨resource, values, p₁, keys, others, p₂, ?_⟩
  cases changes : values ++ keys with
  | nil =>
    simp only [changes, List.isEmpty_nil, if_true, bind_eq_ok, pure_eq_ok] at run
    obtain ⟨_, _, ⟨rfl, rfl⟩, linked, p₃, related, rfl, rfl⟩ := run
    exact ⟨[], p₂, linked, found, assigned, held, .inl ⟨rfl, rfl, rfl⟩, related, rfl⟩
  | cons assignment assignments =>
    simp only [changes, List.isEmpty_cons, Bool.false_eq_true, if_false, bind_eq_ok, pure_eq_ok]
      at run
    obtain ⟨filter, p₃, first, _, _, ⟨rfl, rfl⟩, linked, p₄, related, rfl, rfl⟩ := run
    exact ⟨_, p₃, linked, found, assigned, held,
      .inr ⟨filter, by simp, first, rfl⟩, related, rfl⟩

theorem delete_run {name : String} (run : delete c name id p = .ok statements q) :
    ∃ resource cleared p₁ filter, c.metadata.findResource name = .ok resource ∧
      clearReferences c resource id resource.type.relationships.toList p = .ok cleared p₁ ∧
      rowIs c resource (resource.table none) id { p₁ with parameters := 0 } = .ok filter q ∧
      statements = cleared ++ [.delete ⟨resource.table none, filter⟩] := by
  simp only [delete, bind_eq_ok, ofExcept_eq_ok, startStatement_apply] at run
  obtain ⟨resource, _, ⟨found, rfl⟩, cleared, p₁, references, _, _, started, filter, p₂, first, run⟩ :=
    run
  cases started
  cases run
  exact ⟨resource, cleared, p₁, filter, found, references, first, rfl⟩

end

end ResourceSql.Compile
