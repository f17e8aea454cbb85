/-
One request under two dialects. Compiling it looks at the dialect in one place
only, where a pattern is written, so that both runs come to the same progress,
fail with the same error, and make trees that differ in the values of patterns
at most (`Compile.alike_condition`). Whatever a dialect adds to a statement has no
parameters, and so the commands bind the same names to the same values, but for
the patterns (`Request.same_under_dialects`).
-/
import Mathlib.Data.List.Forall2
import ResourceSql.Proofs.Commands
import ResourceSql.Proofs.Patterns

namespace ResourceSql

/-! ## Steps that are alike -/

namespace Compile

section

variable {α β γ δ : Type} {seen : α → γ} {seen' : β → δ}

/-- Both steps come to the same progress, with results that look the same or with the same
error. -/
def Alike (seen : α → γ) (x y : Compile α) : Prop := seen <$> x = seen <$> y

theorem map_apply (f : α → β) (x : Compile α) (p : Progress) :
    (f <$> x) p =
      match x p with
      | .ok a q => .ok (f a) q
      | .error e q => .error e q := by
  show EStateM.map f x p = _
  unfold EStateM.map
  cases x p <;> rfl

namespace Alike

theorem of_eq {x y : Compile α} (same : x = y) : Alike seen x y := congrArg (seen <$> ·) same

theorem pure {a b : α} (same : seen a = seen b) : Alike seen (Pure.pure a) (Pure.pure b) := by
  funext p
  exact congrArg (EStateM.Result.ok · p) same

theorem cases_apply {x y : Compile α} (alike : Alike seen x y) (p : Progress) :
    (∃ a b q, x p = .ok a q ∧ y p = .ok b q ∧ seen a = seen b) ∨
      ∃ e q, x p = .error e q ∧ y p = .error e q := by
  have here : (seen <$> x) p = (seen <$> y) p := congrFun alike p
  rw [map_apply, map_apply] at here
  cases ran : x p with
  | ok a q =>
    cases other : y p with
    | ok b s =>
      rw [ran, other] at here
      obtain ⟨same, rfl⟩ := EStateM.Result.ok.inj here
      exact .inl ⟨a, b, q, rfl, rfl, same⟩
    | error e s =>
      rw [ran, other] at here
      cases here
  | error e q =>
    cases other : y p with
    | ok b s =>
      rw [ran, other] at here
      cases here
    | error e' s =>
      rw [ran, other] at here
      obtain ⟨rfl, rfl⟩ := EStateM.Result.error.inj here
      exact .inr ⟨e, q, rfl, rfl⟩

theorem bind {x y : Compile α} {f g : α → Compile β} (first : Alike seen x y)
    (next : ∀ a b, seen a = seen b → Alike seen' (f a) (g b)) :
    Alike seen' (x >>= f) (y >>= g) := by
  funext p
  show (seen' <$> EStateM.bind x f) p = (seen' <$> EStateM.bind y g) p
  rw [map_apply, map_apply]
  unfold EStateM.bind
  obtain ⟨a, b, q, ran, other, same⟩ | ⟨e, q, ran, other⟩ := first.cases_apply p
  · have rest := congrFun (next a b same) q
    rw [map_apply, map_apply] at rest
    rw [ran, other]
    exact rest
  · rw [ran, other]

/-- The same step, and steps that are alike after it. -/
theorem after {x : Compile α} {f g : α → Compile β} (next : ∀ a, Alike seen' (f a) (g a)) :
    Alike seen' (x >>= f) (x >>= g) := by
  have equal : Alike id x x := of_eq rfl
  refine equal.bind fun a b same => ?_
  cases same
  exact next a

theorem inOwnScope {x y : Compile α} (alike : Alike seen x y) :
    Alike (Prod.map seen id) (Compile.inOwnScope x) (Compile.inOwnScope y) := by
  funext p
  rw [map_apply, map_apply]
  unfold Compile.inOwnScope
  obtain ⟨a, b, q, ran, other, same⟩ | ⟨e, q, ran, other⟩ :=
    alike.cases_apply { p with joins := [] }
  · rw [ran, other]
    simp [same]
  · rw [ran, other]

end Alike

end

/-! ## Steps that do not look at the dialect -/

section

variable {c c' : Context} (same : c.metadata = c'.metadata) {root : Occurrence}

include same

theorem walkOn_eq_of_metadata (walk : Walk) (walked : List String) (here : Occurrence)
    (path : List String) : walkOn c walk walked here path = walkOn c' walk walked here path := by
  induction path generalizing walked here with
  | nil => rfl
  | cons relationship rest ih => simp only [walkOn, follow, same, ih]

theorem leadsToMany_eq_of_metadata (here : Resource) (path : List String) :
    leadsToMany c here path = leadsToMany c' here path := by
  induction path generalizing here with
  | nil => rfl
  | cons relationship rest ih => simp only [leadsToMany, same, ih]

theorem anyLeadsToMany_eq_of_metadata (here : Resource) (paths : List (List String)) :
    anyLeadsToMany c here paths = anyLeadsToMany c' here paths := by
  induction paths with
  | nil => rfl
  | cons path paths ih => simp only [anyLeadsToMany, leadsToMany_eq_of_metadata same, ih]

theorem includePaths_eq_of_metadata (paths : List (List String)) :
    includePaths c root paths = includePaths c' root paths := by
  induction paths with
  | nil => rfl
  | cons path paths ih => simp only [includePaths, walkPath, walkOn_eq_of_metadata same, ih]

theorem field_eq_of_metadata (path : List String) : field c root path = field c' root path := by
  simp only [field, walkPath, walkOn_eq_of_metadata same, same]

theorem related_eq_of_metadata (path : List String) :
    related c root path = related c' root path := by
  simp only [related, walkPath, walkOn_eq_of_metadata same, same]

theorem count_eq_of_metadata (path : List String) : count c root path = count c' root path := by
  simp only [count, related_eq_of_metadata same]

theorem side_eq_of_metadata (operand : Request.Operand) :
    side c root operand = side c' root operand := by
  cases operand with
  | field path => simp only [side, field_eq_of_metadata same]
  | count path => simp only [side, count_eq_of_metadata same]
  | value value => cases value <;> rfl
  | null => rfl

theorem bindSide_eq_of_metadata (typing : Option Attribute) (side : Side) :
    bindSide c typing side = bindSide c' typing side := by
  cases side <;> simp only [bindSide, same]

theorem comparison_eq_of_metadata (operator : Comparison) (left right : Request.Operand) :
    comparison c root operator left right = comparison c' root operator left right := by
  simp only [comparison, side_eq_of_metadata same, bindSide_eq_of_metadata same]

theorem anyOf_eq_of_metadata (path : List String) (values : List Json) :
    anyOf c root path values = anyOf c' root path values := by
  simp only [anyOf, field_eq_of_metadata same, same]

theorem bindId_eq_of_metadata (resource : Resource) (id : Json) :
    bindId c resource id = bindId c' resource id := by
  simp only [bindId, same]

theorem identity_eq_of_metadata (resource : Resource) (id : Json) :
    identity c root resource id = identity c' root resource id := by
  simp only [identity, bindId_eq_of_metadata same]

theorem order_eq_of_metadata (sort : List Request.SortElement) :
    order c root sort = order c' root sort := by
  have term : orderTerm c root = orderTerm c' root := by
    funext ⟨target, ascending⟩
    cases target with
    | field path => simp only [orderTerm, field_eq_of_metadata same]
    | count path => simp only [orderTerm, count_eq_of_metadata same]
  simp only [order, term, same]

theorem columnsOfAll_eq_of_metadata (fields : NameMap (List String)) (places : List Occurrence) :
    columnsOfAll c fields places = columnsOfAll c' fields places := by
  induction places with
  | nil => rfl
  | cons o rest ih => simp only [columnsOfAll, columnsOf, same, ih]

theorem projection_eq_of_metadata (fields : NameMap (List String)) :
    projection c root fields = projection c' root fields := by
  simp only [projection, columnsOfAll_eq_of_metadata same, same]

/-! ## Mutations -/

theorem rowIsAnyOf_eq_of_metadata (resource : Resource) (table : Sql.Table) (ids : List Json) :
    rowIsAnyOf c resource table ids = rowIsAnyOf c' resource table ids := by
  simp only [rowIsAnyOf, bindId_eq_of_metadata same]

theorem rowIs_eq_of_metadata (resource : Resource) (table : Sql.Table) (id : Json) :
    rowIs c resource table id = rowIs c' resource table id := by
  simp only [rowIs, bindId_eq_of_metadata same]

theorem assignKey_eq_of_metadata (table : Sql.Table) (key : ForeignKey)
    (data : Request.RelationshipData) :
    assignKey c table key data = assignKey c' table key data := by
  cases data with
  | many ids => rfl
  | one id => cases id <;> simp only [assignKey, bindId_eq_of_metadata same, same]

theorem detach_eq_of_metadata (resource : Resource) (key : ForeignKey) (behavior : DeleteBehavior)
    (id : Json) (selection : Selection) :
    detach c resource key behavior id selection = detach c' resource key behavior id selection := by
  have narrowed (target : Resource) (table : Sql.Table) (owned : Sql.Condition) :
      narrow c target table owned selection = narrow c' target table owned selection := by
    cases selection with
    | all => rfl
    | only ids => simp only [narrow, rowIsAnyOf_eq_of_metadata same]
    | allExcept ids => cases ids <;> simp only [narrow, rowIsAnyOf_eq_of_metadata same]
  simp only [detach, narrowed, bindId_eq_of_metadata same, same]

theorem attach_eq_of_metadata (resource : Resource) (key : ForeignKey) (id : Json)
    (ids : List Json) : attach c resource key id ids = attach c' resource key id ids := by
  simp only [attach, rowIsAnyOf_eq_of_metadata same, bindId_eq_of_metadata same, same]

theorem setRelationship_eq_of_metadata (resource : Resource) (id : Json) (relationship : String)
    (data : Request.RelationshipData) :
    setRelationship c resource id relationship data =
      setRelationship c' resource id relationship data := by
  simp only [setRelationship, assignKey_eq_of_metadata same, rowIs_eq_of_metadata same,
    detach_eq_of_metadata same, attach_eq_of_metadata same, same]

theorem assignHeldKeys_eq_of_metadata (resource : Resource) (table : Sql.Table)
    (given : List (String × Request.RelationshipData)) :
    assignHeldKeys c resource table given = assignHeldKeys c' resource table given := by
  induction given with
  | nil => rfl
  | cons entry rest ih => simp only [assignHeldKeys, assignKey_eq_of_metadata same, same, ih]

theorem clearReferences_eq_of_metadata (resource : Resource) (id : Json)
    (given : List (String × Relationship)) :
    clearReferences c resource id given = clearReferences c' resource id given := by
  induction given with
  | nil => rfl
  | cons entry rest ih => simp only [clearReferences, detach_eq_of_metadata same, same, ih]

/-- Nothing of a mutation depends on the dialect. -/
theorem mutation_eq_of_metadata (m : Request.Mutation) : mutation c m = mutation c' m := by
  have assigned (resource : Resource) (table : Sql.Table) (attributes : NameMap Json) :
      assignAttributes c resource table attributes =
        assignAttributes c' resource table attributes := by
    simp only [assignAttributes, assignAttribute, same]
  cases m with
  | insert name attributes relationships =>
    simp only [mutation, insert, assigned, assignNewKeys, assignKey_eq_of_metadata same, same]
  | update name id attributes relationships =>
    simp only [mutation, update, assigned, assignHeldKeys_eq_of_metadata same,
      rowIs_eq_of_metadata same, setRelationship_eq_of_metadata same, same]
  | delete name id =>
    simp only [mutation, delete, clearReferences_eq_of_metadata same, rowIs_eq_of_metadata same,
      same]
  | setRelationship name id relationship data =>
    simp only [mutation, setRelationship_eq_of_metadata same, same]
  | addToRelationship name id relationship ids =>
    simp only [mutation, addToRelationship, attach_eq_of_metadata same, same]
  | removeFromRelationship name id relationship ids =>
    simp only [mutation, removeFromRelationship, detach_eq_of_metadata same, same]

end

/-! ## Filters -/

open Sql

theorem alike_joined (connective : Connective) {conditions conditions' : List Condition}
    (alike : conditions.map Condition.unpatterned = conditions'.map Condition.unpatterned) :
    Alike Condition.unpatterned (joined connective conditions) (joined connective conditions') := by
  have made := map_combine keepsConjunctions_unpatterned connective conditions
  have made' := map_combine keepsConjunctions_unpatterned connective conditions'
  rw [alike, ← made'] at made
  unfold joined
  cases combined : Condition.combine connective conditions with
  | none =>
    cases combined' : Condition.combine connective conditions' with
    | none => exact .of_eq rfl
    | some condition' => simp [combined, combined'] at made
  | some condition =>
    cases combined' : Condition.combine connective conditions' with
    | none => simp [combined, combined'] at made
    | some condition' =>
      refine .pure ?_
      simpa [combined, combined'] using made

theorem unpatterned_select (opened : Related) (projection : Projection) (joins : List PathJoin)
    {inner inner' : List Condition}
    (alike : inner.map Condition.unpatterned = inner'.map Condition.unpatterned) :
    (opened.select projection joins inner).unpatterned =
      (opened.select projection joins inner').unpatterned := by
  simp only [Related.select, Select.simple, Select.unpatterned, unpatterned_conjunction?,
    List.map_cons, alike]

theorem alike_joining {x y : Compile Select} (alike : Alike Select.unpatterned x y) :
    Alike Select.unpatterned (joining x) (joining y) := by
  refine .bind alike.inOwnScope ?_
  rintro ⟨select, joins⟩ ⟨select', joins'⟩ made
  obtain ⟨same, rfl⟩ := Prod.mk.inj made
  refine .pure ?_
  cases select
  cases select'
  simp only [Select.unpatterned, Select.mk.injEq] at same ⊢
  simp [same]

section

variable {c c' : Context}

/-- The only step that asks the dialect for anything. -/
theorem alike_textMatch (same : c.metadata = c'.metadata) (root : Occurrence) (place : TextMatch)
    (path : List String) (text : String) :
    Alike Condition.unpatterned (textMatch c root place path text)
      (textMatch c' root place path text) := by
  unfold textMatch
  rw [field_eq_of_metadata same]
  refine .after fun (column, held) => ?_
  dsimp only
  split
  · exact .of_eq rfl
  · have pattern : Alike Parameter.visible (bindValue (.text (c.dialect.pattern place text)))
        (bindValue (.text (c'.dialect.pattern place text))) := by
      funext q
      rfl
    refine pattern.bind fun p p' alike => ?_
    exact .pure (by rw [Condition.unpatterned, Condition.unpatterned, alike])

mutual

theorem alike_condition (same : c.metadata = c'.metadata) (root : Occurrence) :
    (filter : Request.Filter) →
      Alike Condition.unpatterned (condition c root filter) (condition c' root filter)
  | .and terms => by
    rw [condition, condition]
    exact .bind (alike_conditions same root terms) fun _ _ => alike_joined .and
  | .or terms => by
    rw [condition, condition]
    exact .bind (alike_conditions same root terms) fun _ _ => alike_joined .or
  | .not filter => by
    rw [condition, condition]
    refine .bind (alike_condition same root filter) fun child child' alike => .pure ?_
    rw [Condition.unpatterned, Condition.unpatterned, alike]
  | .comparison operator left right => by
    rw [condition, condition]
    exact .of_eq (comparison_eq_of_metadata same operator left right)
  | .textMatch place path text => by
    rw [condition, condition]
    exact alike_textMatch same root place path text
  | .any path values => by
    rw [condition, condition]
    exact .of_eq (anyOf_eq_of_metadata same path values)
  | .has path filter => by
    rw [condition, condition]
    refine .bind (alike_relatedSelect same root path filter) fun select select' alike => .pure ?_
    rw [Condition.unpatterned, Condition.unpatterned, alike]

theorem alike_relatedSelect (same : c.metadata = c'.metadata) (root : Occurrence)
    (path : List String) : (filter : Option Request.Filter) →
      Alike Select.unpatterned (relatedSelect c root path .one filter)
        (relatedSelect c' root path .one filter)
  | none => by
    rw [relatedSelect, relatedSelect, related_eq_of_metadata same]
    exact .of_eq rfl
  | some filter => by
    rw [relatedSelect, relatedSelect, related_eq_of_metadata same]
    refine .after fun opened => .bind (alike_condition same opened.root filter).inOwnScope ?_
    rintro ⟨inner, joins⟩ ⟨inner', joins'⟩ alike
    obtain ⟨inside, rfl⟩ := Prod.mk.inj alike
    exact .pure (unpatterned_select opened .one joins (by simp [inside]))

theorem alike_conditions (same : c.metadata = c'.metadata) (root : Occurrence) :
    (filters : List Request.Filter) →
      Alike (List.map Condition.unpatterned) (conditions c root filters)
        (conditions c' root filters)
  | [] => .pure rfl
  | filter :: filters => by
    rw [conditions, conditions]
    refine .bind (alike_condition same root filter) fun first first' head => ?_
    refine .bind (alike_conditions same root filters) fun rest rest' tail => .pure ?_
    rw [List.map_cons, List.map_cons, head, tail]

end

variable (same : c.metadata = c'.metadata)

include same

theorem alike_requestCondition (root : Occurrence) (resource : Resource) (id : Option Json)
    (filter : Option Request.Filter) :
    Alike unpatternedFilter (requestCondition c root resource id filter)
      (requestCondition c' root resource id filter) := by
  unfold requestCondition
  have identities : optionally (identity c root resource) id =
      optionally (identity c' root resource) id := by
    cases id <;> simp only [optionally, identity_eq_of_metadata same]
  have filters : Alike (List.map Condition.unpatterned) (optionally (condition c root) filter)
      (optionally (condition c' root) filter) := by
    cases filter with
    | none => exact .of_eq rfl
    | some filter =>
      refine .bind (alike_condition same root filter) fun first first' alike => .pure ?_
      rw [List.map_singleton, List.map_singleton, alike]
  rw [identities]
  refine .after fun given => .bind filters fun made made' alike => .pure ?_
  rw [unpatterned_conjunction?, unpatterned_conjunction?, List.map_append, List.map_append, alike]

/-! ## Queries -/

theorem alike_plainRows (q : Request.Query) (resource : Resource) (table : Table) :
    Alike Select.unpatterned (plainRows c q resource table) (plainRows c' q resource table) := by
  refine alike_joining ?_
  dsimp only
  rw [includePaths_eq_of_metadata same]
  refine .after fun _ => .bind (alike_requestCondition same _ resource q.id q.filter) ?_
  intro filter filter' alike
  rw [order_eq_of_metadata same]
  refine .after fun order => ?_
  rw [projection_eq_of_metadata same]
  refine .after fun projection => .pure ?_
  simp only [Select.simple, Select.unpatterned, alike]

theorem alike_page (q : Request.Query) (resource : Resource) (table : Table) :
    Alike Select.unpatterned (page c q resource table) (page c' q resource table) := by
  refine alike_joining ?_
  dsimp only
  refine .bind (alike_requestCondition same _ resource q.id q.filter) fun filter filter' alike => ?_
  rw [order_eq_of_metadata same]
  refine .after fun order => .after fun columns => .pure ?_
  simp only [Select.simple, Select.unpatterned, alike]

theorem alike_pagedRows (q : Request.Query) (resource : Resource) (table : Table) :
    Alike Select.unpatterned (pagedRows c q resource table) (pagedRows c' q resource table) := by
  refine .bind (alike_page same q resource table) fun page page' alike => .after fun aliasName => ?_
  refine alike_joining ?_
  rw [includePaths_eq_of_metadata same]
  refine .after fun _ => ?_
  rw [order_eq_of_metadata same]
  refine .after fun order => ?_
  rw [projection_eq_of_metadata same]
  refine .after fun projection => .pure ?_
  cases page
  cases page'
  simp only [Select.unpatterned, Select.mk.injEq] at alike
  simp [Select.simple, Select.unpatterned, Source.unpatterned, alike]

theorem alike_rows (q : Request.Query) : Alike Select.unpatterned (rows c q) (rows c' q) := by
  unfold rows openTable
  rw [same]
  refine .after fun (resource, table) => ?_
  dsimp only
  cases q.window.isAll with
  | true => exact alike_plainRows same q resource table
  | false =>
    rw [anyLeadsToMany_eq_of_metadata same]
    refine .after fun paged => ?_
    cases paged with
    | true => exact alike_pagedRows same q resource table
    | false => exact alike_plainRows same q resource table

theorem alike_rowCount (q : Request.Query) :
    Alike Select.unpatterned (rowCount c q) (rowCount c' q) := by
  unfold rowCount openTable
  rw [same]
  refine .after fun (resource, table) => alike_joining ?_
  refine .bind (alike_requestCondition same _ resource q.id q.filter) fun filter filter' alike => ?_
  refine .pure ?_
  simp only [Select.simple, Select.unpatterned, alike]

end

end Compile

/-! ## Statements and their commands -/

namespace Sql.Statement

variable {d d' : Dialect} {s s' : Statement} {t t' : Progress}

/-- Numbered parameters are bound one by one, as they are used. -/
theorem Numbered.parameters_eq (numbered : s.Numbered d t) :
    (s.command d).parameters = s.uses.map Use.binding := by
  rw [numbered.parameters, s.parameters_eq d, List.map_map]
  rfl

/-- Two statements that differ in the values of patterns at most, and so do their commands. -/
structure SameButPatterns (d d' : Dialect) (s s' : Statement) : Prop where
  tree : s.unpatterned = s'.unpatterned
  names : (s.command d).parameters.map (·.1) = (s'.command d').parameters.map (·.1)
  values : ∀ (i : Nat) (binding : String × Value), (s.command d).parameters[i]? = some binding →
    (s'.command d').parameters[i]? = some binding ∨
      ∃ use : Use, s.uses[i]? = some use ∧ use.role.isMatched = true

theorem sameButPatterns (numbered : s.Numbered d t) (numbered' : s'.Numbered d' t')
    (tree : s.unpatterned = s'.unpatterned) : SameButPatterns d d' s s' := by
  have uses : s.uses.map Use.unpatterned = s'.uses.map Use.unpatterned := by
    rw [← uses_unpatterned, tree, uses_unpatterned]
  refine ⟨tree, ?_, fun i binding bound => ?_⟩
  · have names (s : Statement) : (s.uses.map Use.binding).map (·.1) =
        (s.uses.map Use.unpatterned).map (·.parameter.name) := by
      rw [List.map_map, List.map_map]
      exact congrArg s.uses.map (funext fun u => u.name_unpatterned.symm)
    rw [numbered.parameters_eq, numbered'.parameters_eq, names, names, uses]
  · rw [numbered.parameters_eq, List.getElem?_map] at bound
    obtain ⟨use, met, rfl⟩ := Option.map_eq_some_iff.1 bound
    by_cases matched : use.role.isMatched = true
    · exact .inr ⟨use, met, matched⟩
    · left
      have there := congrArg (·[i]?) uses
      simp only [List.getElem?_map, met, Option.map_some] at there
      obtain ⟨use', met', alike⟩ := Option.map_eq_some_iff.1 there.symm
      obtain rfl := Use.eq_of_unpatterned alike.symm (by simpa using matched)
      rw [numbered'.parameters_eq, List.getElem?_map, met', Option.map_some]

/-- Statements of the same trees, each numbered in its own dialect. -/
theorem forall₂_sameButPatterns {made made' : List Statement}
    (numbered : ∀ s ∈ made, ∃ t, s.Numbered d t) (numbered' : ∀ s ∈ made', ∃ t, s.Numbered d' t)
    (trees : made.map Statement.unpatterned = made'.map Statement.unpatterned) :
    List.Forall₂ (SameButPatterns d d') made made' := by
  induction made generalizing made' with
  | nil =>
    cases made' with
    | nil => exact .nil
    | cons s' made' => cases trees
  | cons s made ih =>
    cases made' with
    | nil => cases trees
    | cons s' made' =>
      obtain ⟨head, tail⟩ := List.cons.inj trees
      obtain ⟨⟨t, first⟩, rest⟩ := List.forall_mem_cons.1 numbered
      obtain ⟨t', first'⟩ := numbered' s' (List.mem_cons_self ..)
      have rest' := (List.forall_mem_cons.1 numbered').2
      exact .cons (sameButPatterns first first' head) (ih rest rest' tail)

end Sql.Statement

/-- Both fail with the same error, or both give results that are related. -/
inductive SameOutcome {α : Type} (related : α → α → Prop) :
    Except RequestError α → Except RequestError α → Prop
  | ok {a b : α} : related a b → SameOutcome related (.ok a) (.ok b)
  | error (e : RequestError) : SameOutcome related (.error e) (.error e)

namespace Request

theorem alike_compile {c c' : Context} (same : c.metadata = c'.metadata) (r : Request) :
    Compile.Alike (List.map Sql.Statement.unpatterned) (r.compile c) (r.compile c') := by
  cases r with
  | rows q =>
    refine .bind (Compile.alike_rows same q) fun select select' alike => .pure ?_
    simp [Sql.Statement.unpatterned, alike]
  | count q =>
    refine .bind (Compile.alike_rowCount same q) fun select select' alike => .pure ?_
    simp [Sql.Statement.unpatterned, alike]
  | mutation m => exact .of_eq (Compile.mutation_eq_of_metadata same m)

/-- The dialect decides how statements are written, and nothing else: under two dialects a request
fails with the same error, or it becomes statements that differ in the values of patterns at most,
and the commands are those statements as each dialect writes them. -/
theorem same_under_dialects (m : Metadata) (r : Request) (d d' : Dialect) :
    SameOutcome (List.Forall₂ (Sql.Statement.SameButPatterns d d'))
      (r.compile ⟨m, d⟩).result (r.compile ⟨m, d'⟩).result ∧
    ∀ d, r.commands ⟨m, d⟩ =
      (r.compile ⟨m, d⟩).result.map fun statements => statements.map (·.command d) := by
  refine ⟨?_, fun d => commands_eq ⟨m, d⟩ r⟩
  have same : (⟨m, d⟩ : Context).metadata = (⟨m, d'⟩ : Context).metadata := rfl
  have alike := alike_compile same r
  unfold Compile.result
  obtain ⟨made, made', q, ran, other, trees⟩ | ⟨e, q, ran, other⟩ := alike.cases_apply .start
  · rw [ran, other]
    refine .ok ?_
    have numbered := numbered_compile (d := d) ran
    have numbered' := numbered_compile (d := d') other
    exact Sql.Statement.forall₂_sameButPatterns numbered numbered' trees
  · rw [ran, other]
    exact .error e

end Request

end ResourceSql
