/-
Steps that do not depend on what is remembered. A foreign key that was looked up is
remembered as it was resolved, also when the function that looked it up fails later. So
a step ends in the same way, with the same value or error and the same counters and
joins, where nothing is remembered and every foreign key is resolved (`Oblivious`). This
composes over sequences of steps (`Oblivious.bind`), so that it holds of all of them: only
a look-up asks what is remembered (`oblivious_foreignKey`).
-/
import ResourceSql.Proofs.Commands
import ResourceSql.Proofs.Writes

namespace ResourceSql

/-- The same progress where nothing is remembered, nor ever will be. -/
def Progress.forget (p : Progress) : Progress := { p with memory := none }

theorem Progress.forget_eq_self {p : Progress} (without : p.memory = none) : p.forget = p := by
  cases p
  cases without
  rfl

theorem Progress.Remembers.of_none {m : Metadata} {p : Progress} (without : p.memory = none) :
    p.Remembers m := by
  intro memory remembered
  rw [without] at remembered
  cases remembered

namespace Compile

/-- The end of a step, without what was remembered. -/
def forgotten {α : Type} :
    EStateM.Result RequestError Progress α → EStateM.Result RequestError Progress α
  | .ok a p => .ok a p.forget
  | .error e p => .error e p.forget

/-- What a step gives, or why it fails. -/
def outcome {α : Type} : EStateM.Result RequestError Progress α → Except RequestError α
  | .ok a _ => .ok a
  | .error e _ => .error e

section

variable {α β : Type}

theorem outcome_forgotten (ended : EStateM.Result RequestError Progress α) :
    outcome (forgotten ended) = outcome ended := by
  cases ended <;> rfl

theorem after_forgotten (ended : EStateM.Result RequestError Progress α) :
    Progress.after (forgotten ended) = (Progress.after ended).forget := by
  cases ended <;> rfl

theorem result_eq_outcome (x : Compile α) : x.result = outcome (x .start) := by
  unfold result
  cases x .start <;> rfl

/-- From progress that remembers foreign keys as they are resolved, the step ends as it does where
nothing is remembered, and what is remembered afterwards is right again. -/
structure Oblivious (m : Metadata) (x : Compile α) : Prop where
  runs {p : Progress} (remembers : p.Remembers m) :
    forgotten (x p) = x p.forget ∧ (Progress.after (x p)).Remembers m

namespace Oblivious

variable {m : Metadata} {x : Compile α}

theorem cases_apply (h : Oblivious m x) {p : Progress} (remembers : p.Remembers m) :
    (∃ a q, x p = .ok a q ∧ x p.forget = .ok a q.forget ∧ q.Remembers m) ∨
      ∃ e q, x p = .error e q ∧ x p.forget = .error e q.forget ∧ q.Remembers m := by
  obtain ⟨same, kept⟩ := h.runs remembers
  cases run : x p with
  | ok a q =>
    rw [run] at same kept
    exact .inl ⟨a, q, rfl, same.symm, kept⟩
  | error e q =>
    rw [run] at same kept
    exact .inr ⟨e, q, rfl, same.symm, kept⟩

theorem pure (a : α) : Oblivious m (Pure.pure a) := ⟨fun remembers => ⟨rfl, remembers⟩⟩

theorem throw (e : RequestError) : Oblivious m (MonadExcept.throw e : Compile α) :=
  ⟨fun remembers => ⟨rfl, remembers⟩⟩

theorem ofExcept (e : Except RequestError α) : Oblivious m (Compile.ofExcept e) := by
  cases e with
  | ok a => exact pure a
  | error e => exact throw e

/-- A step that neither looks at what is remembered nor changes it. -/
theorem of_memory (same : ∀ p, forgotten (x p) = x p.forget)
    (memory : ∀ p, (Progress.after (x p)).memory = p.memory) : Oblivious m x :=
  ⟨fun remembers => ⟨same _, remembers.of_memory (memory _)⟩⟩

theorem bind {f : α → Compile β} (first : Oblivious m x) (next : ∀ a, Oblivious m (f a)) :
    Oblivious m (x >>= f) := by
  refine ⟨fun remembers => ?_⟩
  obtain ⟨a, q, run, run', kept⟩ | ⟨e, q, run, run', kept⟩ := first.cases_apply remembers
  · rw [bind_of_ok run, bind_of_ok run']
    exact (next a).runs kept
  · rw [bind_of_error run, bind_of_error run']
    exact ⟨rfl, kept⟩

/-- What was found is known to the steps behind it. -/
theorem found {e : Except RequestError α} {f : α → Compile β}
    (next : ∀ a, e = .ok a → Oblivious m (f a)) : Oblivious m (Compile.ofExcept e >>= f) := by
  cases e with
  | ok a => exact next a rfl
  | error e => exact throw e

/-- A look at the progress that does not show what is remembered. -/
theorem get {f : Progress → Compile β} (blind : ∀ p, f p.forget = f p)
    (next : ∀ p, Oblivious m (f p)) : Oblivious m (MonadState.get >>= f) := by
  refine ⟨fun {p} remembers => ?_⟩
  rw [get_bind, get_bind, blind]
  exact (next p).runs remembers

theorem ite {p : Prop} [Decidable p] {y : Compile α} (yes : Oblivious m x) (no : Oblivious m y) :
    Oblivious m (if p then x else y) := by
  split
  · exact yes
  · exact no

theorem guard {p : Prop} [Decidable p] {e : RequestError} (next : Oblivious m x) :
    Oblivious m (if p then (MonadExcept.throw e : Compile PUnit) >>= fun _ => x else x) :=
  .ite (.bind (.throw e) fun _ => next) next

theorem forEach {step : α → Compile β} (each : ∀ a, Oblivious m (step a)) (given : List α) :
    Oblivious m (Compile.forEach step given) := by
  induction given with
  | nil => exact pure []
  | cons a given ih => exact .bind (each a) fun b => .bind ih fun bs => .pure (b :: bs)

theorem optionally {step : α → Compile β} (each : ∀ a, Oblivious m (step a)) (given : Option α) :
    Oblivious m (Compile.optionally step given) := by
  cases given with
  | none => exact pure []
  | some a => exact .bind (each a) fun b => .pure [b]

theorem inOwnScope (inside : Oblivious m x) : Oblivious m (Compile.inOwnScope x) := by
  refine ⟨fun {p} remembers => ?_⟩
  have opened : Progress.Remembers m { p with joins := [] } := remembers
  unfold Compile.inOwnScope
  obtain ⟨a, q, run, run', kept⟩ | ⟨e, q, run, run', kept⟩ := inside.cases_apply opened
  · have run' : x { p.forget with joins := [] } = .ok a q.forget := run'
    rw [run, run']
    exact ⟨rfl, kept⟩
  · have run' : x { p.forget with joins := [] } = .error e q.forget := run'
    rw [run, run']
    exact ⟨rfl, kept⟩

end Oblivious

end

/-! ## The state and the joins -/

section

variable {m : Metadata}

theorem oblivious_freshAlias : Oblivious m freshAlias := .of_memory (fun _ => rfl) fun _ => rfl

theorem oblivious_bindValue (value : Value) : Oblivious m (bindValue value) :=
  .of_memory (fun _ => rfl) fun _ => rfl

theorem oblivious_startStatement : Oblivious m startStatement :=
  .of_memory (fun _ => rfl) fun _ => rfl

theorem oblivious_addJoin (join : PathJoin) : Oblivious m (addJoin join) :=
  .of_memory (fun _ => rfl) fun _ => rfl

theorem oblivious_includeJoin (path : List String) : Oblivious m (includeJoin path) :=
  .of_memory (fun _ => rfl) fun _ => rfl

/-- Where nothing is remembered, a foreign key is resolved. -/
theorem foreignKey_of_forgotten {declaring : Resource} {relationship : String} {p : Progress}
    (without : p.memory = none) : foreignKey m declaring relationship p =
      ofExcept (ForeignKey.resolve m declaring relationship) p := by
  rw [foreignKey_apply_of_not_remembered (by rw [without]; rfl)]
  cases ForeignKey.resolve m declaring relationship with
  | error e => rfl
  | ok key =>
    dsimp only [ofExcept_ok]
    rw [without]
    exact congrArg (EStateM.Result.ok key) (Progress.forget_eq_self without)

end

section

variable {c : Context}

/-- The only step that asks what is remembered. -/
theorem oblivious_foreignKey {declaring : Resource}
    (found : c.metadata.findResource declaring.name = .ok declaring) (relationship : String) :
    Oblivious c.metadata (foreignKey c.metadata declaring relationship) := by
  refine ⟨fun {p} remembers => ?_⟩
  obtain ⟨memory, remembers', looked⟩ := foreignKey_apply remembers found relationship
  rw [looked, foreignKey_of_forgotten rfl]
  cases ForeignKey.resolve c.metadata declaring relationship with
  | ok key => exact ⟨rfl, remembers'⟩
  | error e => exact ⟨rfl, remembers⟩

/-! ## Paths -/

theorem oblivious_follow (walk : Walk) (walked : List String) (here : Occurrence)
    (relationship : String) :
    Oblivious c.metadata (follow c walk walked here relationship) := by
  -- Keys are remembered by the names of types, so the parent has to be the type of its name.
  refine .found fun parent known => ?_
  refine .bind (oblivious_foreignKey (Metadata.findResource_self known) relationship) fun key => ?_
  refine .guard (.get (fun _ => rfl) fun p => ?_)
  split
  · exact .ite (.bind (oblivious_includeJoin _) fun _ => .pure _) (.pure _)
  · refine .bind (.ofExcept _) fun target => .bind oblivious_freshAlias fun aliasName => ?_
    refine .bind (.ofExcept _) fun (outer, inner) => .get (fun _ => rfl) fun p => ?_
    exact .bind (oblivious_addJoin _) fun _ => .pure _

theorem oblivious_walkOn (walk : Walk) (walked : List String) (here : Occurrence)
    (path : List String) : Oblivious c.metadata (walkOn c walk walked here path) := by
  induction path generalizing walked here with
  | nil => exact .pure here
  | cons relationship rest ih =>
    exact .bind (oblivious_follow walk walked here relationship) fun next => ih _ next

theorem oblivious_walkPath (walk : Walk) (root : Occurrence) (path : List String) :
    Oblivious c.metadata (walkPath c walk root path) := oblivious_walkOn walk [] root path

theorem oblivious_leadsToMany {here : Resource}
    (found : c.metadata.findResource here.name = .ok here) (path : List String) :
    Oblivious c.metadata (leadsToMany c here path) := by
  induction path generalizing here with
  | nil => exact .pure false
  | cons relationship rest ih =>
    refine .bind (oblivious_foreignKey found relationship) fun key => .ite (.pure true) ?_
    exact .found fun target known => ih (Metadata.findResource_self known)

theorem oblivious_anyLeadsToMany {here : Resource}
    (found : c.metadata.findResource here.name = .ok here) (paths : List (List String)) :
    Oblivious c.metadata (anyLeadsToMany c here paths) := by
  induction paths with
  | nil => exact .pure false
  | cons path paths ih =>
    exact .bind (oblivious_leadsToMany found path) fun toMany => .ite (.pure true) ih

theorem oblivious_field (root : Occurrence) (path : List String) :
    Oblivious c.metadata (field c root path) := by
  unfold field
  split
  · exact .throw _
  · refine .bind (oblivious_walkPath _ _ _) fun here => .bind (.ofExcept _) fun resource => ?_
    split
    · exact .pure _
    · refine .ite ?_ (.throw _)
      refine .bind (oblivious_walkPath _ _ _) fun related => .bind (.ofExcept _) fun target => ?_
      exact .bind (.ofExcept _) fun primaryKey => .pure _

theorem oblivious_bindId (resource : Resource) (id : Json) :
    Oblivious c.metadata (bindId c resource id) :=
  .bind (.ofExcept _) fun _ => .guard (.bind (.ofExcept _) fun _ => oblivious_bindValue _)

/-! ## Filters -/

theorem oblivious_related (root : Occurrence) (path : List String) :
    Oblivious c.metadata (related c root path) := by
  unfold related
  split
  · exact .throw _
  · next relationship _ =>
    refine .bind (oblivious_walkPath _ _ _) fun here => .found fun parent known => ?_
    have known := Metadata.findResource_self known
    refine .bind (oblivious_foreignKey known relationship) fun key => .guard ?_
    refine .bind (.ofExcept _) fun target => .bind oblivious_freshAlias fun aliasName => ?_
    exact .bind (.ofExcept _) fun (outer, inner) => .pure _

theorem oblivious_count (root : Occurrence) (path : List String) :
    Oblivious c.metadata (count c root path) :=
  .bind (oblivious_related root path) fun _ => .pure _

theorem oblivious_side (root : Occurrence) (operand : Request.Operand) :
    Oblivious c.metadata (side c root operand) := by
  cases operand with
  | field path => exact .bind (oblivious_field root path) fun (column, held) => .pure _
  | count path => exact .bind (oblivious_count root path) fun _ => .pure _
  | value value => cases value <;> exact .pure _
  | null => exact .pure _

theorem oblivious_bindSide (typing : Option Attribute) (side : Side) :
    Oblivious c.metadata (bindSide c typing side) := by
  cases side with
  | value value =>
    refine .bind (.ofExcept _) fun bound => ?_
    exact .bind (oblivious_bindValue bound) fun _ => .pure _
  | column column held => exact .pure _
  | count select => exact .pure _
  | null => exact .pure _

theorem oblivious_comparison (root : Occurrence) (operator : Comparison)
    (left right : Request.Operand) :
    Oblivious c.metadata (comparison c root operator left right) := by
  refine .bind (oblivious_side root left) fun left => ?_
  refine .bind (oblivious_side root right) fun right => ?_
  refine .bind (.ofExcept _) fun typing => .bind (.ofExcept _) fun _ => ?_
  refine .bind (oblivious_bindSide typing left) fun left => ?_
  exact .bind (oblivious_bindSide typing right) fun right => .pure _

theorem oblivious_textMatch (root : Occurrence) (place : TextMatch) (path : List String)
    (text : String) : Oblivious c.metadata (textMatch c root place path text) :=
  .bind (oblivious_field root path) fun (_, _) =>
    .guard (.bind (oblivious_bindValue _) fun _ => .pure _)

theorem oblivious_anyOf (root : Occurrence) (path : List String) (values : List Json) :
    Oblivious c.metadata (anyOf c root path values) := by
  refine .guard (.bind (oblivious_field root path) fun (column, held) => ?_)
  refine .bind (.forEach (fun value => ?_) values) fun bound => .pure _
  exact .bind (.ofExcept _) fun literal => .bind (oblivious_bindValue literal) fun _ => .pure _

theorem oblivious_joined (connective : Connective) (conditions : List Sql.Condition) :
    Oblivious c.metadata (joined connective conditions) := by
  unfold joined
  split
  · exact .pure _
  · exact .throw _

mutual

theorem oblivious_condition (root : Occurrence) : (filter : Request.Filter) →
    Oblivious c.metadata (condition c root filter)
  | .and terms => by
    rw [condition]
    exact .bind (oblivious_conditions root terms) (oblivious_joined .and)
  | .or terms => by
    rw [condition]
    exact .bind (oblivious_conditions root terms) (oblivious_joined .or)
  | .not filter => by
    rw [condition]
    exact .bind (oblivious_condition root filter) fun _ => .pure _
  | .comparison operator left right => by
    rw [condition]
    exact oblivious_comparison root operator left right
  | .textMatch place path text => by
    rw [condition]
    exact oblivious_textMatch root place path text
  | .any path values => by
    rw [condition]
    exact oblivious_anyOf root path values
  | .has path filter => by
    rw [condition]
    exact .bind (oblivious_relatedSelect root path .one filter) fun _ => .pure _

theorem oblivious_relatedSelect (root : Occurrence) (path : List String)
    (projection : Sql.Projection) : (filter : Option Request.Filter) →
      Oblivious c.metadata (relatedSelect c root path projection filter)
  | none => by
    rw [relatedSelect]
    exact .bind (oblivious_related root path) fun _ => .pure _
  | some filter => by
    rw [relatedSelect]
    refine .bind (oblivious_related root path) fun opened => ?_
    exact .bind (.inOwnScope (oblivious_condition opened.root filter)) fun (_, _) => .pure _

theorem oblivious_conditions (root : Occurrence) : (filters : List Request.Filter) →
    Oblivious c.metadata (conditions c root filters)
  | [] => by
    rw [conditions]
    exact .pure []
  | filter :: filters => by
    rw [conditions]
    refine .bind (oblivious_condition root filter) fun first => ?_
    exact .bind (oblivious_conditions root filters) fun rest => .pure _

end

theorem oblivious_identity (root : Occurrence) (resource : Resource) (id : Json) :
    Oblivious c.metadata (identity c root resource id) :=
  .bind (.ofExcept _) fun _ => .bind (oblivious_bindId resource id) fun _ => .pure _

theorem oblivious_requestCondition (root : Occurrence) (resource : Resource) (id : Option Json)
    (filter : Option Request.Filter) :
    Oblivious c.metadata (requestCondition c root resource id filter) := by
  refine .bind (.optionally (oblivious_identity root resource) id) fun identities => ?_
  exact .bind (.optionally (oblivious_condition root) filter) fun filters => .pure _

/-! ## Queries -/

theorem oblivious_orderTerm (root : Occurrence) (element : Request.SortElement) :
    Oblivious c.metadata (orderTerm c root element) := by
  unfold orderTerm
  split
  · exact .bind (oblivious_field root _) fun (_, _) => .pure _
  · exact .bind (oblivious_count root _) fun _ => .pure _

theorem oblivious_order (root : Occurrence) (sort : List Request.SortElement) :
    Oblivious c.metadata (order c root sort) :=
  .ite (.bind (.ofExcept _) fun _ => .bind (.ofExcept _) fun _ => .pure _)
    (.forEach (oblivious_orderTerm root) sort)

theorem oblivious_projection (root : Occurrence) (fields : NameMap (List String)) :
    Oblivious c.metadata (projection c root fields) :=
  .bind (.ofExcept _) fun _ => .get (fun _ => rfl) fun _ => .bind (.ofExcept _) fun _ => .pure _

theorem oblivious_includePaths (root : Occurrence) (paths : List (List String)) :
    Oblivious c.metadata (includePaths c root paths) := by
  induction paths with
  | nil => exact .pure ()
  | cons path paths ih => exact .bind (oblivious_walkPath _ root path) fun _ => ih

theorem oblivious_joining {m : Metadata} {step : Compile Sql.Select} (inside : Oblivious m step) :
    Oblivious m (joining step) :=
  .bind (.inOwnScope inside) fun (_, _) => .pure _

theorem oblivious_plainRows (q : Request.Query) (resource : Resource) (table : Sql.Table) :
    Oblivious c.metadata (plainRows c q resource table) := by
  refine oblivious_joining (.bind (oblivious_includePaths _ q.includes) fun _ => ?_)
  refine .bind (oblivious_requestCondition _ resource q.id q.filter) fun filter => ?_
  refine .bind (oblivious_order _ q.sort) fun order => ?_
  exact .bind (oblivious_projection _ q.fields) fun projection => .pure _

theorem oblivious_page (q : Request.Query) (resource : Resource) (table : Sql.Table) :
    Oblivious c.metadata (page c q resource table) := by
  refine oblivious_joining ?_
  refine .bind (oblivious_requestCondition _ resource q.id q.filter) fun filter => ?_
  exact .bind (oblivious_order _ q.sort) fun order => .bind (.ofExcept _) fun columns => .pure _

theorem oblivious_pagedRows (q : Request.Query) (resource : Resource) (table : Sql.Table) :
    Oblivious c.metadata (pagedRows c q resource table) := by
  refine .bind (oblivious_page q resource table) fun page => ?_
  refine .bind oblivious_freshAlias fun aliasName => oblivious_joining ?_
  refine .bind (oblivious_includePaths _ q.includes) fun _ => ?_
  refine .bind (oblivious_order _ q.sort) fun order => ?_
  exact .bind (oblivious_projection _ q.fields) fun projection => .pure _

theorem oblivious_rows (q : Request.Query) : Oblivious c.metadata (rows c q) := by
  unfold rows openTable
  rw [bind_assoc]
  refine .found fun resource known => ?_
  simp only [bind_assoc, pure_bind]
  refine .bind oblivious_freshAlias fun aliasName => ?_
  have made (paged : Bool) (table : Sql.Table) : Oblivious c.metadata
      (if paged = true then pagedRows c q resource table else plainRows c q resource table) :=
    .ite (oblivious_pagedRows q resource table) (oblivious_plainRows q resource table)
  refine .ite (made false _) (.bind ?_ fun paged => made paged _)
  exact oblivious_anyLeadsToMany (Metadata.findResource_self known) q.includes

theorem oblivious_rowCount (q : Request.Query) : Oblivious c.metadata (rowCount c q) := by
  refine .bind ?_ fun (resource, table) => oblivious_joining ?_
  · exact .bind (.ofExcept _) fun _ => .bind oblivious_freshAlias fun _ => .pure _
  · exact .bind (oblivious_requestCondition _ resource q.id q.filter) fun filter => .pure _

/-! ## Mutations -/

theorem oblivious_rowIs (resource : Resource) (table : Sql.Table) (id : Json) :
    Oblivious c.metadata (rowIs c resource table id) :=
  .bind (.ofExcept _) fun _ => .bind (oblivious_bindId resource id) fun _ => .pure _

theorem oblivious_rowIsAnyOf (resource : Resource) (table : Sql.Table) (ids : List Json) :
    Oblivious c.metadata (rowIsAnyOf c resource table ids) := by
  refine .bind (.ofExcept _) fun primaryKey => .bind (.forEach (fun id => ?_) ids) fun _ => .pure _
  exact .bind (oblivious_bindId resource id) fun _ => .pure _

theorem oblivious_assignKey (table : Sql.Table) (key : ForeignKey)
    (data : Request.RelationshipData) : Oblivious c.metadata (assignKey c table key data) := by
  unfold assignKey
  split
  · exact .throw _
  · exact .ite (.pure _) (.throw _)
  · exact .bind (.ofExcept _) fun target => .bind (oblivious_bindId target _) fun _ => .pure _

theorem oblivious_narrow (target : Resource) (table : Sql.Table) (owned : Sql.Condition)
    (selection : Selection) : Oblivious c.metadata (narrow c target table owned selection) := by
  unfold narrow
  split
  · exact .pure _
  · exact .pure _
  · exact .bind (oblivious_rowIsAnyOf target table _) fun _ => .pure _
  · exact .bind (oblivious_rowIsAnyOf target table _) fun _ => .pure _

theorem oblivious_detach (resource : Resource) (key : ForeignKey) (behavior : DeleteBehavior)
    (id : Json) (selection : Selection) :
    Oblivious c.metadata (detach c resource key behavior id selection) := by
  refine .bind oblivious_startStatement fun _ => .bind (.ofExcept _) fun target => ?_
  refine .bind (oblivious_bindId resource id) fun owner => ?_
  refine .bind (oblivious_narrow target _ _ selection) fun filter => ?_
  exact .ite (.pure _) (.ite (.pure _) (.throw _))

theorem oblivious_attach (resource : Resource) (key : ForeignKey) (id : Json) (ids : List Json) :
    Oblivious c.metadata (attach c resource key id ids) := by
  refine .bind oblivious_startStatement fun _ => .bind (.ofExcept _) fun target => ?_
  refine .bind (oblivious_bindId resource id) fun owner => ?_
  exact .bind (oblivious_rowIsAnyOf target _ ids) fun filter => .pure _

theorem oblivious_assignAttribute (resource : Resource) (table : Sql.Table) (name : String)
    (value : Json) : Oblivious c.metadata (assignAttribute c resource table name value) := by
  refine .bind (.ofExcept _) fun found => .ite (.pure _) ?_
  exact .bind (.ofExcept _) fun literal => .bind (oblivious_bindValue literal) fun _ => .pure _

theorem oblivious_assignAttributes (resource : Resource) (table : Sql.Table)
    (attributes : NameMap Json) :
    Oblivious c.metadata (assignAttributes c resource table attributes) :=
  .forEach (fun (name, value) => oblivious_assignAttribute resource table name value) _

section

variable {resource : Resource} (known : c.metadata.findResource resource.name = .ok resource)

include known

theorem oblivious_setRelationship (id : Json) (relationship : String)
    (data : Request.RelationshipData) :
    Oblivious c.metadata (setRelationship c resource id relationship data) := by
  refine .bind (oblivious_foreignKey known relationship) fun key => .ite ?_ ?_
  · refine .bind oblivious_startStatement fun _ => ?_
    refine .bind (oblivious_assignKey _ key data) fun assignment => ?_
    exact .bind (oblivious_rowIs resource _ id) fun filter => .pure _
  · refine .bind (.ofExcept _) fun ids => .bind (.ofExcept _) fun declared => ?_
    refine .bind (oblivious_detach resource key _ id _) fun detached => .ite (.pure _) ?_
    exact .bind (oblivious_attach resource key id ids) fun attached => .pure _

theorem oblivious_addToRelationship (id : Json) (relationship : String) (ids : List Json) :
    Oblivious c.metadata (addToRelationship c resource id relationship ids) := by
  refine .bind (oblivious_foreignKey known relationship) fun key => .guard (.ite (.pure _) ?_)
  exact .bind (oblivious_attach resource key id ids) fun attached => .pure _

theorem oblivious_removeFromRelationship (id : Json) (relationship : String) (ids : List Json) :
    Oblivious c.metadata (removeFromRelationship c resource id relationship ids) := by
  refine .bind (oblivious_foreignKey known relationship) fun key => .guard (.ite (.pure _) ?_)
  refine .bind (.ofExcept _) fun declared => ?_
  exact .bind (oblivious_detach resource key _ id _) fun detached => .pure _

theorem oblivious_assignNewKeys (table : Sql.Table)
    (relationships : NameMap Request.RelationshipData) :
    Oblivious c.metadata (assignNewKeys c resource table relationships) := by
  refine .forEach (fun (name, data) => ?_) _
  refine .bind (oblivious_foreignKey known name) fun key => .guard (.guard ?_)
  exact oblivious_assignKey table key data

theorem oblivious_assignHeldKeys (table : Sql.Table)
    (given : List (String × Request.RelationshipData)) :
    Oblivious c.metadata (assignHeldKeys c resource table given) := by
  induction given with
  | nil => exact .pure _
  | cons entry rest ih =>
    refine .bind (oblivious_foreignKey known entry.1) fun key => .ite ?_ ?_
    · refine .bind (oblivious_assignKey table key entry.2) fun assignment => ?_
      exact .bind ih fun (_, _) => .pure _
    · exact .bind ih fun (_, _) => .pure _

theorem oblivious_clearReferences (id : Json) (given : List (String × Relationship)) :
    Oblivious c.metadata (clearReferences c resource id given) := by
  induction given with
  | nil => exact .pure _
  | cons entry rest ih =>
    refine .ite ?_ ih
    refine .bind (oblivious_foreignKey known entry.1) fun key => ?_
    refine .bind (oblivious_detach resource key _ id .all) fun statement => ?_
    exact .bind ih fun statements => .pure _

end

theorem oblivious_insert (name : String) (attributes : NameMap Json)
    (relationships : NameMap Request.RelationshipData) :
    Oblivious c.metadata (insert c name attributes relationships) := by
  refine .found fun resource known => .bind oblivious_startStatement fun _ => ?_
  have known := Metadata.findResource_self known
  refine .bind (oblivious_assignAttributes resource _ attributes) fun values => ?_
  refine .bind (oblivious_assignNewKeys known _ relationships) fun keys => ?_
  exact .bind (.ofExcept _) fun primaryKey => .pure _

theorem oblivious_update (name : String) (id : Json) (attributes : NameMap Json)
    (relationships : NameMap Request.RelationshipData) :
    Oblivious c.metadata (update c name id attributes relationships) := by
  refine .found fun resource known => .bind oblivious_startStatement fun _ => ?_
  have known := Metadata.findResource_self known
  refine .bind (oblivious_assignAttributes resource _ attributes) fun values => ?_
  refine .bind (oblivious_assignHeldKeys known _ _) fun parted => ?_
  obtain ⟨keys, others⟩ := parted
  -- Whether or not there is a statement for the row itself, the other relationships follow.
  have linked (own : List Sql.Statement) : Oblivious c.metadata
      (forEach (fun given => setRelationship c resource id given.1 given.2) others >>= fun linked =>
        pure (own ++ linked.flatten)) :=
    .bind (.forEach (fun given => oblivious_setRelationship known id given.1 given.2) others)
      fun linked => .pure _
  refine .ite (.bind (.pure []) linked) ?_
  exact .bind (oblivious_rowIs resource _ id) fun filter => .bind (.pure _) linked

theorem oblivious_delete (name : String) (id : Json) :
    Oblivious c.metadata (delete c name id) := by
  refine .found fun resource known => ?_
  refine .bind (oblivious_clearReferences (Metadata.findResource_self known) id _) fun cleared => ?_
  refine .bind oblivious_startStatement fun _ => ?_
  exact .bind (oblivious_rowIs resource _ id) fun filter => .pure _

theorem oblivious_mutation (m : Request.Mutation) : Oblivious c.metadata (mutation c m) := by
  cases m with
  | insert name attributes relationships => exact oblivious_insert name attributes relationships
  | update name id attributes relationships =>
    exact oblivious_update name id attributes relationships
  | delete name id => exact oblivious_delete name id
  | setRelationship name id relationship data =>
    refine .found fun resource known => ?_
    exact oblivious_setRelationship (Metadata.findResource_self known) id relationship data
  | addToRelationship name id relationship ids =>
    refine .found fun resource known => ?_
    exact oblivious_addToRelationship (Metadata.findResource_self known) id relationship ids
  | removeFromRelationship name id relationship ids =>
    refine .found fun resource known => ?_
    exact oblivious_removeFromRelationship (Metadata.findResource_self known) id relationship ids

theorem oblivious_compile (r : Request) : Oblivious c.metadata (r.compile c) := by
  cases r with
  | rows q => exact .bind (oblivious_rows q) fun _ => .pure _
  | count q => exact .bind (oblivious_rowCount q) fun _ => .pure _
  | mutation m => exact oblivious_mutation m

end

end Compile

end ResourceSql
