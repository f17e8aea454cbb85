/-
Successful runs, taken apart. For each step that is made of others, the runs of
those are named: a step that succeeded did so because its parts did, one after
the other (`bind_eq_ok`). Facts about what steps make are drawn from these
lemmas and not from the definitions of the steps.
-/
import ResourceSql.Proofs.Queries

namespace ResourceSql.Compile

section

variable {c : Context} {root : Occurrence} {p q : Progress} {α β : Type}

@[simp] theorem pure_eq_ok {a b : α} : (pure a : Compile α) p = .ok b q ↔ a = b ∧ p = q := by
  show EStateM.Result.ok a p = .ok b q ↔ _
  simp

@[simp] theorem throw_ne_ok {e : RequestError} {a : α} : (throw e : Compile α) p ≠ .ok a q := by
  show EStateM.Result.error e p ≠ .ok a q
  simp

/-- What is made for the elements of a list is made in a run for one of them. -/
theorem forEach_mem {step : α → Compile β} {given : List α} {made : List β}
    (run : forEach step given p = .ok made q) {b : β} (member : b ∈ made) :
    ∃ a ∈ given, ∃ before after, step a before = .ok b after := by
  induction given generalizing made p with
  | nil =>
    cases run
    cases member
  | cons a given ih =>
    simp only [forEach, bind_eq_ok] at run
    obtain ⟨first, p₁, head, rest, p₂, tail, run⟩ := run
    cases run
    rcases List.mem_cons.1 member with rfl | member
    · exact ⟨a, List.mem_cons_self .., p, p₁, head⟩
    · obtain ⟨other, given, own⟩ := ih tail member
      exact ⟨other, List.mem_cons_of_mem _ given, own⟩

theorem forEach_ne_nil {step : α → Compile β} {given : List α} {made : List β}
    (run : forEach step given p = .ok made q) (some : given ≠ []) : made ≠ [] := by
  cases given with
  | nil => exact absurd rfl some
  | cons a given =>
    simp only [forEach, bind_eq_ok] at run
    obtain ⟨first, p₁, -, rest, p₂, -, run⟩ := run
    cases run
    simp

theorem inOwnScope_eq_ok {step : Compile α} {a : α} {joins : List PathJoin} :
    inOwnScope step p = .ok (a, joins) q ↔
      ∃ t, step { p with joins := [] } = .ok a t ∧ t.joins = joins ∧
        q = { t with joins := p.joins } := by
  unfold inOwnScope
  cases step { p with joins := [] } with
  | ok b t =>
    constructor
    · intro run
      cases run
      exact ⟨t, rfl, rfl, rfl⟩
    · rintro ⟨_, same, rfl, rfl⟩
      cases same
      rfl
  | error e t =>
    constructor
    · intro run
      cases run
    · rintro ⟨_, same, -⟩
      cases same

/-! ## Paths and fields -/

/-- A look-up changes nothing but what is remembered. -/
theorem foreignKey_run {declaring : Resource} {relationship : String} {key : ForeignKey}
    (run : foreignKey c.metadata declaring relationship p = .ok key q) :
    q = { p with memory := q.memory } := by
  cases held : p.memory.bind (·.lookup (declaring.name, relationship)) with
  | some found =>
    rw [foreignKey_apply_of_remembered held] at run
    cases run
    rfl
  | none =>
    rw [foreignKey_apply_of_not_remembered held] at run
    split at run
    · cases run
      rfl
    · cases run

/-- Following a relationship finds a table that was joined before, which may be included now, or
joins one. -/
theorem follow_run {walk : Walk} {walked : List String} {here next : Occurrence}
    {relationship : String} (run : follow c walk walked here relationship p = .ok next q) :
    ∃ parent key p₁, foreignKey c.metadata parent relationship p = .ok key p₁ ∧
      ((∃ j, p₁.joinAt (walked ++ [relationship]) = some j) ∧
          (q = p₁ ∨ includeJoin (walked ++ [relationship]) p₁ = .ok () q) ∨
        p₁.joinAt (walked ++ [relationship]) = none ∧
          ∃ a p₂ j, freshAlias p₁ = .ok a p₂ ∧ j.join.table.aliasName = some a ∧
            j.path = walked ++ [relationship] ∧ q = { p₂ with joins := p₂.joins ++ [j] }) := by
  simp only [follow, bind_eq_ok, ofExcept_eq_ok] at run
  obtain ⟨parent, _, ⟨found, rfl⟩, key, p₁, looked, run⟩ := run
  refine ⟨parent, key, p₁, looked, ?_⟩
  split at run
  · simp [bind_eq_ok] at run
  · rw [get_bind] at run
    cases joined : p₁.joinAt (walked ++ [relationship]) with
    | some j =>
      rw [joined] at run
      cases included : walk.included with
      | true =>
        simp only [included, if_true, bind_eq_ok] at run
        obtain ⟨_, p₂, marked, run⟩ := run
        obtain ⟨-, rfl⟩ := pure_eq_ok.1 run
        exact .inl ⟨⟨j, rfl⟩, .inr marked⟩
      | false =>
        simp only [included] at run
        obtain ⟨-, rfl⟩ := pure_eq_ok.1 run
        exact .inl ⟨⟨j, rfl⟩, .inl rfl⟩
    | none =>
      simp only [joined, bind_eq_ok, ofExcept_eq_ok] at run
      obtain ⟨target, _, ⟨named, rfl⟩, a, p₂, fresh, ⟨outer, inner⟩, _, ⟨columns, rfl⟩, _, _, got, _,
        _, added, run⟩ := run
      cases got
      cases added
      cases run
      exact .inr ⟨rfl, a, p₂, ⟨_, _, ⟨_, target.table (some a), _, _⟩, _⟩, fresh, rfl, rfl, rfl⟩

/-- A field is a column of the table that the path before its name leads to, or the primary key of
the table that the whole path leads to. -/
theorem field_run {path : List String} {column : Sql.Column} {held : Attribute}
    (run : field c root path p = .ok (column, held) q) :
    ∃ here p₁ resource name, walkPath c .toField root path.dropLast p = .ok here p₁ ∧
      c.metadata.findResource here.resource = .ok resource ∧
      (resource.type.attributes.get? name = some held ∧
          column = here.column held.column .scalar ∧ q = p₁ ∨
        ∃ related target, walkPath c .toField root path p₁ = .ok related q ∧
          c.metadata.findResource related.resource = .ok target ∧ target.primaryKey = .ok held ∧
          column = related.column held.column .scalar) := by
  unfold field at run
  cases last : path.getLast? with
  | none => simp [last] at run
  | some name =>
    simp only [last, bind_eq_ok, ofExcept_eq_ok] at run
    obtain ⟨here, p₁, walked, resource, _, ⟨named, rfl⟩, run⟩ := run
    refine ⟨here, p₁, resource, name, walked, named, ?_⟩
    cases looked : resource.type.attributes.get? name with
    | some found =>
      simp only [looked] at run
      cases run
      exact .inl ⟨rfl, rfl, rfl⟩
    | none =>
      simp only [looked] at run
      split at run
      · simp only [bind_eq_ok, ofExcept_eq_ok] at run
        obtain ⟨related, p₂, walked, target, _, ⟨named, rfl⟩, primaryKey, _, ⟨identified, rfl⟩,
          run⟩ := run
        cases run
        exact .inr ⟨related, target, walked, named, identified, rfl⟩
      · simp at run

theorem bindId_run {resource : Resource} {id : Json} {parameter : Sql.Parameter}
    (run : bindId c resource id p = .ok parameter q) :
    ∃ value, bindValue value p = .ok parameter q := by
  simp only [bindId, bind_eq_ok, ofExcept_eq_ok] at run
  obtain ⟨primaryKey, _, ⟨identified, rfl⟩, run⟩ := run
  split at run
  · simp [bind_eq_ok] at run
  · simp only [bind_eq_ok, ofExcept_eq_ok] at run
    obtain ⟨value, _, ⟨-, rfl⟩, run⟩ := run
    exact ⟨value, run⟩

/-! ## Conditions -/

/-- A select over related resources is opened for a table under a new alias, and linked to the place
that the path before its last relationship leads to. -/
theorem related_run {path : List String} {opened : Related}
    (run : related c root path p = .ok opened q) :
    ∃ here p₁ parent relationship key p₂ target a outer inner,
      walkPath c .toField root path.dropLast p = .ok here p₁ ∧
      c.metadata.findResource here.resource = .ok parent ∧
      foreignKey c.metadata parent relationship p₁ = .ok key p₂ ∧
      c.metadata.findResource key.target = .ok target ∧ freshAlias p₂ = .ok a q ∧
      joinColumns parent here key target (target.table (some a)) = .ok (outer, inner) ∧
      opened = ⟨target.name, target.table (some a),
        .equals (.column outer) (.column (.ofTable inner))⟩ := by
  unfold related at run
  cases last : path.getLast? with
  | none => simp [last] at run
  | some relationship =>
    simp only [last, bind_eq_ok, ofExcept_eq_ok] at run
    obtain ⟨here, p₁, walked, parent, _, ⟨found, rfl⟩, key, p₂, looked, run⟩ := run
    split at run
    · simp [bind_eq_ok] at run
    · simp only [bind_eq_ok, ofExcept_eq_ok] at run
      obtain ⟨target, _, ⟨named, rfl⟩, a, p₃, fresh, ⟨outer, inner⟩, _, ⟨columns, rfl⟩, run⟩ := run
      cases run
      exact ⟨here, p₁, parent, relationship, key, p₂, target, a, outer, inner, walked, found, looked,
        named, fresh, columns, rfl⟩

theorem count_run {path : List String} {select : Sql.Select}
    (run : count c root path p = .ok select q) :
    ∃ opened, related c root path p = .ok opened q ∧ select = opened.select .count [] [] := by
  simp only [count, bind_eq_ok] at run
  obtain ⟨opened, p₁, first, run⟩ := run
  cases run
  exact ⟨opened, first, rfl⟩

theorem side_run {operand : Request.Operand} {s : Side} (run : side c root operand p = .ok s q) :
    (∃ path column held, field c root path p = .ok (column, held) q ∧ s = .column column held) ∨
      (∃ path select, count c root path p = .ok select q ∧ s = .count select) ∨
      (s = .null ∨ ∃ v, s = .value v) ∧ q = p := by
  cases operand with
  | field path =>
    simp only [side, bind_eq_ok] at run
    obtain ⟨⟨column, held⟩, p₁, found, run⟩ := run
    cases run
    exact .inl ⟨path, column, held, found, rfl⟩
  | count path =>
    simp only [side, bind_eq_ok] at run
    obtain ⟨select, p₁, counted, run⟩ := run
    cases run
    exact .inr (.inl ⟨path, select, counted, rfl⟩)
  | null =>
    cases run
    exact .inr (.inr ⟨.inl rfl, rfl⟩)
  | value v =>
    cases v with
    | null =>
      cases run
      exact .inr (.inr ⟨.inl rfl, rfl⟩)
    | _ =>
      cases run
      exact .inr (.inr ⟨.inr ⟨_, rfl⟩, rfl⟩)

theorem comparison_run {operator : Comparison} {left right : Request.Operand}
    {condition : Sql.Condition} (run : comparison c root operator left right p = .ok condition q) :
    ∃ a p₁ b p₂ typing x p₃ y, side c root left p = .ok a p₁ ∧ side c root right p₁ = .ok b p₂ ∧
      Known.typing a.known b.known = .ok typing ∧ bindSide c typing a p₂ = .ok x p₃ ∧
      bindSide c typing b p₃ = .ok y q ∧ condition = .comparison operator x y := by
  simp only [comparison, bind_eq_ok, ofExcept_eq_ok] at run
  obtain ⟨a, p₁, first, b, p₂, second, typing, _, ⟨typed, rfl⟩, _, _, ⟨-, rfl⟩, x, p₃, left, y, p₄,
    right, run⟩ := run
  cases run
  exact ⟨a, p₁, b, p₂, typing, x, p₃, y, first, second, typed, left, right, rfl⟩

theorem bindSide_run {typing : Option Attribute} {s : Side} {operand : Sql.Operand}
    (run : bindSide c typing s p = .ok operand q) :
    (∃ column held, s = .column column held ∧ operand = .column column ∧ q = p) ∨
      (∃ select, s = .count select ∧ operand = .count select ∧ q = p) ∨
      (s = .null ∧ operand = .null ∧ q = p) ∨
      ∃ v value parameter, s = .value v ∧ Known.literal c.metadata typing v = .ok value ∧
        bindValue value p = .ok parameter q ∧ operand = .parameter parameter := by
  cases s with
  | column column held =>
    cases run
    exact .inl ⟨column, held, rfl, rfl, rfl⟩
  | count select =>
    cases run
    exact .inr (.inl ⟨select, rfl, rfl, rfl⟩)
  | null =>
    cases run
    exact .inr (.inr (.inl ⟨rfl, rfl, rfl⟩))
  | value v =>
    simp only [bindSide, bind_eq_ok, ofExcept_eq_ok] at run
    obtain ⟨value, _, ⟨read, rfl⟩, parameter, p₁, bound, run⟩ := run
    cases run
    exact .inr (.inr (.inr ⟨v, value, parameter, rfl, read, bound, rfl⟩))

theorem textMatch_run {place : TextMatch} {path : List String} {text : String}
    {condition : Sql.Condition} (run : textMatch c root place path text p = .ok condition q) :
    ∃ column held p₁ parameter, field c root path p = .ok (column, held) p₁ ∧
      held.type.matchesText = true ∧
      bindValue (.text (c.dialect.pattern place text)) p₁ = .ok parameter q ∧
      condition = .like column place parameter := by
  simp only [textMatch, bind_eq_ok] at run
  obtain ⟨⟨column, held⟩, p₁, found, run⟩ := run
  dsimp only at run
  split at run
  · simp [bind_eq_ok] at run
  · next matchable =>
    simp only [bind_eq_ok] at run
    obtain ⟨parameter, p₂, bound, run⟩ := run
    cases run
    exact ⟨column, held, p₁, parameter, found, by simpa using matchable, bound, rfl⟩

theorem anyOf_run {path : List String} {values : List Json} {condition : Sql.Condition}
    (run : anyOf c root path values p = .ok condition q) :
    ∃ column held p₁ operands, values ≠ [] ∧ field c root path p = .ok (column, held) p₁ ∧
      forEach (fun value => do
        return Sql.Operand.parameter (← bindValue (← ofExcept (held.literal c.metadata value))))
        values p₁ = .ok operands q ∧ condition = .isIn column operands := by
  unfold anyOf at run
  split at run
  · simp [bind_eq_ok] at run
  · next given =>
    simp only [bind_eq_ok] at run
    obtain ⟨⟨column, held⟩, p₁, found, operands, p₂, bound, run⟩ := run
    cases run
    exact ⟨column, held, p₁, operands, by simpa using given, found, bound, rfl⟩

theorem joined_run {connective : Connective} {conditions : List Sql.Condition}
    {condition : Sql.Condition} (run : joined connective conditions p = .ok condition q) :
    Sql.Condition.combine connective conditions = some condition ∧ q = p := by
  unfold joined at run
  cases combined : Sql.Condition.combine connective conditions with
  | none => simp [combined] at run
  | some joint =>
    rw [combined] at run
    cases run
    exact ⟨rfl, rfl⟩

theorem optionally_run {step : α → Compile β} {given : Option α} {made : List β}
    (run : optionally step given p = .ok made q) :
    (given = none ∧ made = [] ∧ q = p) ∨
      ∃ a b, given = some a ∧ step a p = .ok b q ∧ made = [b] := by
  cases given with
  | none =>
    cases run
    exact .inl ⟨rfl, rfl, rfl⟩
  | some a =>
    simp only [optionally, bind_eq_ok] at run
    obtain ⟨b, p₁, first, run⟩ := run
    cases run
    exact .inr ⟨a, b, rfl, first, rfl⟩

theorem identity_run {resource : Resource} {id : Json} {condition : Sql.Condition}
    (run : identity c root resource id p = .ok condition q) :
    ∃ primaryKey parameter, resource.primaryKey = .ok primaryKey ∧
      bindId c resource id p = .ok parameter q ∧
      condition = .equals (.column (root.column primaryKey.column .scalar)) (.parameter parameter) := by
  simp only [identity, bind_eq_ok, ofExcept_eq_ok] at run
  obtain ⟨primaryKey, _, ⟨identified, rfl⟩, parameter, p₁, bound, run⟩ := run
  cases run
  exact ⟨primaryKey, parameter, identified, bound, rfl⟩

theorem requestCondition_run {resource : Resource} {id : Option Json}
    {filter : Option Request.Filter} {found : Option Sql.Condition}
    (run : requestCondition c root resource id filter p = .ok found q) :
    ∃ identities p₁ filters, optionally (identity c root resource) id p = .ok identities p₁ ∧
      optionally (condition c root) filter p₁ = .ok filters q ∧
      found = Sql.conjunction? (identities ++ filters) := by
  simp only [requestCondition, bind_eq_ok] at run
  obtain ⟨identities, p₁, first, filters, p₂, second, run⟩ := run
  cases run
  exact ⟨identities, p₁, filters, first, second, rfl⟩

theorem orderTerm_run {element : Request.SortElement} {term : Sql.OrderTerm}
    (run : orderTerm c root element p = .ok term q) :
    (∃ path column held, field c root path p = .ok (column, held) q ∧
        term = .column column element.ascending) ∨
      ∃ path select, count c root path p = .ok select q ∧ term = .count select element.ascending := by
  obtain ⟨target, ascending⟩ := element
  cases target with
  | field path =>
    simp only [orderTerm, bind_eq_ok] at run
    obtain ⟨⟨column, held⟩, p₁, found, run⟩ := run
    cases run
    exact .inl ⟨path, column, held, found, rfl⟩
  | count path =>
    simp only [orderTerm, bind_eq_ok] at run
    obtain ⟨select, p₁, counted, run⟩ := run
    cases run
    exact .inr ⟨path, select, counted, rfl⟩

/-- Without elements to sort by, the order is that of the primary key. -/
theorem order_run {sort : List Request.SortElement} {terms : List Sql.OrderTerm}
    (run : order c root sort p = .ok terms q) :
    (sort = [] ∧ (∃ resource primaryKey, c.metadata.findResource root.resource = .ok resource ∧
        resource.primaryKey = .ok primaryKey ∧
        terms = [.column (root.column primaryKey.column .scalar) true]) ∧ q = p) ∨
      sort ≠ [] ∧ forEach (orderTerm c root) sort p = .ok terms q := by
  unfold order at run
  split at run
  · next unsorted =>
    simp only [bind_eq_ok, ofExcept_eq_ok] at run
    obtain ⟨resource, _, ⟨found, rfl⟩, primaryKey, _, ⟨identified, rfl⟩, run⟩ := run
    cases run
    exact .inl ⟨by simpa using unsorted, ⟨resource, primaryKey, found, identified, rfl⟩, rfl⟩
  · next sorted => exact .inr ⟨by simpa using sorted, run⟩

/-! ## Queries -/

variable {r : Resource} {table : Sql.Table} {request : Request.Query} {select : Sql.Select}

theorem plainRows_run (run : plainRows c request r table p = .ok select q) :
    ∃ p₁ filter p₂ terms t columns,
      includePaths c (r.root table) request.includes { p with joins := [] } = .ok () p₁ ∧
      requestCondition c (r.root table) r request.id request.filter p₁ = .ok filter p₂ ∧
      order c (r.root table) request.sort p₂ = .ok terms t ∧
      columnsRead c request.fields (r.root table) t.joins = .ok columns ∧
      select = ⟨.columns columns, .table table, t.joins.map (·.join), filter, some terms,
        request.window, none⟩ ∧ q = { t with joins := p.joins } := by
  obtain ⟨own, t, inside, rfl, rfl⟩ := joining_ok run
  simp only [bind_eq_ok] at inside
  obtain ⟨_, p₁, includes, filter, p₂, first, terms, p₃, second, projection, p₄, read, inside⟩ :=
    inside
  cases inside
  obtain ⟨columns, selected, rfl, rfl⟩ := projection_ok read
  exact ⟨p₁, filter, p₂, terms, t, columns, includes, first, second, selected, rfl, rfl⟩

theorem page_run (run : page c request r table p = .ok select q) :
    ∃ filter p₁ terms t columns,
      requestCondition c (r.root table) r request.id request.filter { p with joins := [] } =
        .ok filter p₁ ∧
      order c (r.root table) request.sort p₁ = .ok terms t ∧ r.projectedColumns = .ok columns ∧
      select = ⟨.columns (subqueryColumns table columns), .table table, t.joins.map (·.join), filter,
        some terms, request.window, none⟩ ∧ q = { t with joins := p.joins } := by
  obtain ⟨own, t, inside, rfl, rfl⟩ := joining_ok run
  simp only [bind_eq_ok, ofExcept_eq_ok] at inside
  obtain ⟨filter, p₁, first, terms, p₂, second, columns, _, ⟨projected, rfl⟩, inside⟩ := inside
  cases inside
  exact ⟨filter, p₁, terms, t, columns, first, second, projected, rfl, rfl⟩

theorem pagedRows_run (run : pagedRows c request r table p = .ok select q) :
    ∃ inner p₁ a p₂ p₃ terms t columns, page c request r table p = .ok inner p₁ ∧
      freshAlias p₁ = .ok a p₂ ∧
      includePaths c ⟨r.name, .subquery table a⟩ request.includes { p₂ with joins := [] } =
        .ok () p₃ ∧
      order c ⟨r.name, .subquery table a⟩ request.sort p₃ = .ok terms t ∧
      columnsRead c request.fields ⟨r.name, .subquery table a⟩ t.joins = .ok columns ∧
      select = ⟨.columns columns, .select { inner with aliasName := some a }, t.joins.map (·.join),
        none, some terms, .all, none⟩ ∧ q = { t with joins := p₂.joins } := by
  simp only [pagedRows, bind_eq_ok] at run
  obtain ⟨inner, p₁, paged, a, p₂, fresh, run⟩ := run
  obtain ⟨own, t, inside, rfl, rfl⟩ := joining_ok run
  simp only [bind_eq_ok] at inside
  obtain ⟨_, p₃, includes, terms, p₄, second, projection, p₅, read, inside⟩ := inside
  cases inside
  obtain ⟨columns, selected, rfl, rfl⟩ := projection_ok read
  exact ⟨inner, p₁, a, p₂, p₃, terms, t, columns, paged, fresh, includes, second, selected, rfl, rfl⟩

theorem openTable_run {name : String} (run : openTable c name p = .ok (r, table) q) :
    ∃ a, c.metadata.findResource name = .ok r ∧ freshAlias p = .ok a q ∧
      table = r.table (some a) := by
  simp only [openTable, bind_eq_ok, ofExcept_eq_ok] at run
  obtain ⟨found, _, ⟨named, rfl⟩, a, p₁, fresh, run⟩ := run
  cases run
  exact ⟨a, named, fresh, rfl⟩

/-- The rows of a query are read at once, or around a page. -/
theorem rows_run (run : rows c request p = .ok select q) :
    ∃ r table p₁ p₂, openTable c request.resource p = .ok (r, table) p₁ ∧
      (p₂ = p₁ ∨ ∃ b, anyLeadsToMany c r request.includes p₁ = .ok b p₂) ∧
      (plainRows c request r table p₂ = .ok select q ∨
        request.window.isAll = false ∧ pagedRows c request r table p₂ = .ok select q) := by
  unfold rows at run
  obtain ⟨⟨r, table⟩, p₁, opened, run⟩ := bind_eq_ok.1 run
  cases windowed : request.window.isAll with
  | true =>
    simp only [windowed, if_true] at run
    exact ⟨r, table, p₁, p₁, opened, .inl rfl, .inl run⟩
  | false =>
    simp only [windowed] at run
    obtain ⟨paged, p₂, looked, run⟩ := bind_eq_ok.1 run
    refine ⟨r, table, p₁, p₂, opened, .inr ⟨paged, looked⟩, ?_⟩
    cases paged with
    | true => exact .inr ⟨rfl, run⟩
    | false => exact .inl run

theorem rowCount_run (run : rowCount c request p = .ok select q) :
    ∃ r table p₁ filter t, openTable c request.resource p = .ok (r, table) p₁ ∧
      requestCondition c (r.root table) r request.id request.filter { p₁ with joins := [] } =
        .ok filter t ∧
      select = ⟨.count, .table table, t.joins.map (·.join), filter, none, .all, none⟩ ∧
      q = { t with joins := p₁.joins } := by
  simp only [rowCount, bind_eq_ok] at run
  obtain ⟨⟨r, table⟩, p₁, opened, run⟩ := run
  obtain ⟨own, t, inside, rfl, rfl⟩ := joining_ok run
  simp only [bind_eq_ok] at inside
  obtain ⟨filter, p₂, first, inside⟩ := inside
  cases inside
  exact ⟨r, table, p₁, filter, t, opened, first, rfl, rfl⟩

end

end ResourceSql.Compile
