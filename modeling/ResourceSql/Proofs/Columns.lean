/-
The columns that selects read. The first one is the primary key of the root, so
that it tells which resource a row belongs to (`columnsRead_head`). A subquery
selects every column that its resources hold, so that a row of it shows the row
that it was read from (`shows_row`).
-/
import ResourceSql.Proofs.Rows

namespace ResourceSql

/-! ## Columns of a projection -/

/-- The columns of a select, by the joins of its scope. -/
def columnsRead (c : Context) (fields : NameMap (List String)) (root : Occurrence)
    (joins : List PathJoin) : Except RequestError (List Sql.Column) := do
  Compile.checkResources c.metadata fields.names
  Compile.columnsOfAll c fields (root :: (joins.filter (·.included)).map (·.occurrence))

theorem Compile.projection_apply (c : Context) (root : Occurrence) (fields : NameMap (List String))
    (p : Progress) :
    projection c root fields p =
      ofExcept ((columnsRead c fields root p.joins).map .columns) p := by
  unfold projection columnsRead
  cases checkResources c.metadata fields.names with
  | error e => rfl
  | ok _ =>
    rw [bind_ofExcept, get_bind]
    show (ofExcept (columnsOfAll c fields _) >>= _) p = _
    cases columnsOfAll c fields (root :: (p.joins.filter (·.included)).map (·.occurrence)) with
    | error e => rfl
    | ok columns => rfl

theorem Compile.projection_ok {c : Context} {root : Occurrence} {fields : NameMap (List String)}
    {p q : Progress} {projection : Sql.Projection}
    (run : Compile.projection c root fields p = .ok projection q) :
    ∃ columns, columnsRead c fields root p.joins = .ok columns ∧
      projection = .columns columns ∧ q = p := by
  rw [projection_apply] at run
  obtain ⟨read, rfl⟩ := ofExcept_eq_ok.1 run
  cases columns : columnsRead c fields root p.joins with
  | error e =>
    rw [columns] at read
    cases read
  | ok found =>
    rw [columns] at read
    cases read
    exact ⟨found, rfl, rfl, rfl⟩

/-! ## The first column -/

theorem Resource.addAttributes_head {r : Resource} {first : Attribute} {names : List String}
    {rest found : List Attribute} (h : r.addAttributes (first :: rest) names = .ok found) :
    ∃ others, found = first :: others := by
  induction names generalizing rest with
  | nil =>
    cases h
    exact ⟨rest, rfl⟩
  | cons name names ih =>
    obtain ⟨_, -, h⟩ := Except.bind_eq_ok.1 h
    dsimp only at h
    split at h
    · exact ih h
    · exact ih h

theorem Resource.selectedAttributes_head {r : Resource} {asked : Option (List String)}
    {attributes : List Attribute} (h : r.selectedAttributes asked = .ok attributes) :
    ∃ primaryKey others, r.primaryKey = .ok primaryKey ∧ attributes = primaryKey :: others := by
  obtain ⟨primaryKey, identified, h⟩ := Except.bind_eq_ok.1 h
  cases asked with
  | none =>
    cases h
    exact ⟨primaryKey, _, identified, rfl⟩
  | some names =>
    obtain ⟨others, rfl⟩ := addAttributes_head h
    exact ⟨primaryKey, others, identified, rfl⟩

section

variable {c : Context} {fields : NameMap (List String)} {root : Occurrence} {r : Resource}
  {joins : List PathJoin} {columns : List Sql.Column}

/-- The first column that is read is the primary key of the root. -/
theorem columnsRead_head (named : c.metadata.findResource root.resource = .ok r)
    (h : columnsRead c fields root joins = .ok columns) :
    ∃ primaryKey rest, r.primaryKey = .ok primaryKey ∧
      columns = root.column primaryKey.column .scalar :: rest := by
  obtain ⟨_, -, h⟩ := Except.bind_eq_ok.1 h
  obtain ⟨own, read, h⟩ := Except.bind_eq_ok.1 h
  obtain ⟨others, -, h⟩ := Except.bind_eq_ok.1 h
  obtain ⟨other, found, read⟩ := Except.bind_eq_ok.1 read
  obtain rfl : other = r := Except.ok.inj (found.symm.trans named)
  obtain ⟨attributes, selected, read⟩ := Except.bind_eq_ok.1 read
  obtain ⟨primaryKey, rest, identified, rfl⟩ := Resource.selectedAttributes_head selected
  cases read
  cases h
  exact ⟨primaryKey, _, identified, rfl⟩

/-- What can be read along with other resources can be read alone, also from elsewhere. -/
theorem columnsRead_alone (h : columnsRead c fields root joins = .ok columns) {other : Occurrence}
    (same : other.resource = root.resource) {plain : List PathJoin}
    (none : ∀ j ∈ plain, j.included = false) :
    ∃ columns, columnsRead c fields other plain = .ok columns := by
  obtain ⟨_, checked, h⟩ := Except.bind_eq_ok.1 h
  obtain ⟨own, read, h⟩ := Except.bind_eq_ok.1 h
  obtain ⟨type, found, read⟩ := Except.bind_eq_ok.1 read
  obtain ⟨attributes, selected, read⟩ := Except.bind_eq_ok.1 read
  have empty : plain.filter (·.included) = [] :=
    List.filter_eq_nil_iff.2 fun j member => by simp [none j member]
  unfold columnsRead
  rw [checked, empty]
  refine ⟨attributes.map (fun a => other.column a.column .scalar) ++ [],
    Except.bind_eq_ok.2 ⟨(), rfl, Except.bind_eq_ok.2 ⟨_, ?_, Except.bind_eq_ok.2 ⟨[], rfl, rfl⟩⟩⟩⟩
  unfold Compile.columnsOf
  rw [same]
  exact Except.bind_eq_ok.2 ⟨type, found, Except.bind_eq_ok.2 ⟨attributes, selected, rfl⟩⟩

end

/-! ## Columns of a subquery -/

namespace Resource

theorem mem_addKeys {relationships : List Relationship} {columns : List (String × Sql.ColumnRole)}
    {column : String × Sql.ColumnRole} (member : column ∈ columns) :
    column ∈ addKeys columns relationships := by
  induction relationships generalizing columns with
  | nil => exact member
  | cons relationship relationships ih =>
    rw [addKeys]
    apply ih
    split
    · exact List.mem_append_left _ member
    · exact member

theorem key_mem_addKeys {relationships : List Relationship}
    {columns : List (String × Sql.ColumnRole)} {relationship : Relationship}
    (member : relationship ∈ relationships) (left : relationship.foreignKey.atLeftSide = true) :
    ∃ role, (relationship.foreignKey.column, role) ∈ addKeys columns relationships := by
  induction relationships generalizing columns with
  | nil => cases member
  | cons first relationships ih =>
    rw [addKeys]
    rcases List.mem_cons.1 member with rfl | member
    · cases known : columns.any (·.1 = relationship.foreignKey.column) with
      | true =>
        obtain ⟨⟨column, role⟩, held, same⟩ := List.any_eq_true.1 known
        have same : column = relationship.foreignKey.column := of_decide_eq_true same
        refine ⟨role, mem_addKeys ?_⟩
        rw [if_neg (by simp), ← same]
        exact held
      | false =>
        refine ⟨.foreignKey, mem_addKeys ?_⟩
        rw [if_pos (by simp [left])]
        exact List.mem_append_right _ (List.mem_singleton_self _)
    · exact ih member

/-- The columns of a subquery are all those that are held for its resources. -/
theorem mem_projectedColumns {r : Resource} {columns : List (String × Sql.ColumnRole)}
    (h : r.projectedColumns = .ok columns) {column : String} (holds : r.Holds column) :
    ∃ role, (column, role) ∈ columns := by
  obtain ⟨attributes, selected, h⟩ := Except.bind_eq_ok.1 h
  cases h
  obtain ⟨primaryKey, identified, selected⟩ := Except.bind_eq_ok.1 selected
  cases selected
  rcases holds with ⟨name, a, found, rfl⟩ | ⟨name, d, found, left, rfl⟩
  · refine ⟨.scalar, mem_addKeys (List.mem_map.2 ⟨a, ?_, rfl⟩)⟩
    by_cases key : name = r.type.primaryKey
    · rw [key, attribute_of_primaryKey identified] at found
      rw [Option.some.inj found]
      exact List.mem_cons_self ..
    · refine List.mem_cons_of_mem _ (List.mem_map.2 ⟨(name, a), ?_, rfl⟩)
      exact List.mem_filter.2 ⟨NameMap.mem_of_get? found, by simpa using key⟩
  · refine key_mem_addKeys ?_ left
    exact List.mem_map.2 ⟨(name, d), NameMap.mem_of_get? found, rfl⟩

theorem holds_of_mem_addKeys {r : Resource} {relationships : List Relationship}
    {columns : List (String × Sql.ColumnRole)} {column : String × Sql.ColumnRole}
    (known : ∀ x ∈ columns, r.Holds x.1)
    (declared : ∀ d ∈ relationships, ∃ name, r.type.relationships.get? name = some d)
    (member : column ∈ addKeys columns relationships) : r.Holds column.1 := by
  induction relationships generalizing columns with
  | nil => exact known column member
  | cons relationship relationships ih =>
    obtain ⟨⟨name, found⟩, declared⟩ := List.forall_mem_cons.1 declared
    rw [addKeys] at member
    refine ih (fun x given => ?_) declared member
    split at given
    · next new =>
      rcases List.mem_append.1 given with given | given
      · exact known x given
      · obtain rfl := List.mem_singleton.1 given
        simp only [Bool.and_eq_true] at new
        exact .inr ⟨name, relationship, found, new.1, rfl⟩
    · exact known x given

theorem holds_of_addAttributes {r : Resource} {names : List String}
    {selected attributes : List Attribute} (known : ∀ a ∈ selected, r.Holds a.column)
    (h : r.addAttributes selected names = .ok attributes) :
    ∀ a ∈ attributes, r.Holds a.column := by
  induction names generalizing selected with
  | nil =>
    cases h
    exact known
  | cons name names ih =>
    obtain ⟨a, found, h⟩ := Except.bind_eq_ok.1 h
    refine ih (fun x given => ?_) h
    split at given
    · exact known x given
    · rcases List.mem_append.1 given with given | given
      · exact known x given
      · obtain rfl := List.mem_singleton.1 given
        simp only [findAttribute] at found
        split at found
        · next looked =>
          cases found
          exact .inl ⟨name, x, looked, rfl⟩
        · cases found

/-- The attributes that are read have columns that are held. -/
theorem holds_of_selected {r : Resource} {asked : Option (List String)}
    {attributes : List Attribute} (h : r.selectedAttributes asked = .ok attributes) :
    ∀ a ∈ attributes, r.Holds a.column := by
  obtain ⟨primaryKey, identified, h⟩ := Except.bind_eq_ok.1 h
  have key := holds_of_primaryKey identified
  cases asked with
  | some names => exact holds_of_addAttributes (by simpa using key) h
  | none =>
    cases h
    refine List.forall_mem_cons.2 ⟨key, fun a member => ?_⟩
    obtain ⟨⟨name, b⟩, given, rfl⟩ := List.mem_map.1 member
    have found := NameMap.get?_of_mem (List.mem_filter.1 given).1
    exact .inl ⟨name, b, found, rfl⟩

theorem holds_of_projected {r : Resource} {columns : List (String × Sql.ColumnRole)}
    (h : r.projectedColumns = .ok columns) : ∀ x ∈ columns, r.Holds x.1 := by
  obtain ⟨attributes, selected, h⟩ := Except.bind_eq_ok.1 h
  cases h
  intro x member
  refine holds_of_mem_addKeys (fun y given => ?_) (fun d given => ?_) member
  · obtain ⟨a, chosen, rfl⟩ := List.mem_map.1 given
    exact holds_of_selected selected a chosen
  · obtain ⟨⟨name, held⟩, entered, rfl⟩ := List.mem_map.1 given
    exact ⟨name, NameMap.get?_of_mem entered⟩

end Resource

/-- The columns of a table that a subquery selects. -/
def subqueryColumns (table : Sql.Table) (columns : List (String × Sql.ColumnRole)) : List Sql.Column :=
  columns.map fun (name, role) => .ofTable (table.column name role)

/-- A row that is read of a subquery shows the row that it was read from. -/
theorem shows_row {r : Resource} {columns : List (String × Sql.ColumnRole)}
    (projected : r.projectedColumns = .ok columns) {table : Sql.Table} {e : Bound} {row : Row}
    (shows : r.Shows (e table.aliasName) row) :
    r.Shows ((Sql.Projection.columns (subqueryColumns table columns)).row
      ((subqueryColumns table columns).map e.column)) row := by
  intro column holds
  obtain ⟨role, member⟩ := r.mem_projectedColumns projected holds
  rw [← shows column holds]
  show ((((subqueryColumns table columns).map Sql.Column.name).zip
    ((subqueryColumns table columns).map e.column)).lookup column).getD .null = _
  clear projected
  induction columns with
  | nil => cases member
  | cons first columns ih =>
    obtain ⟨name, other⟩ := first
    show ((List.lookup column ((name, e table.aliasName name) :: _)).getD .null) = _
    rw [List.lookup_cons]
    by_cases same : column = name
    · subst same
      simp
    · rw [beq_eq_false_iff_ne.2 same]
      refine ih ?_
      rcases List.mem_cons.1 member with here | there
      · exact absurd (Prod.mk.inj here).1 same
      · exact there

end ResourceSql
