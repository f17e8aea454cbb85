/-
Faults of queries. Whatever a filter, an order or a path asks for, a step that
compiles it fails only for what it names itself: every resource on the way is
known, because it was named by metadata that pass their check (`blames_condition`,
by induction on the filter).
-/
import ResourceSql.Proofs.Blame

namespace ResourceSql

variable {c : Context} {names : Request.Names}

namespace Compile

section

variable {root here : Occurrence} {r : Resource}

/-! ## Looking things up -/

theorem blames_freshAlias : Blames c names (fun _ => True) freshAlias := fun _ grounded =>
  ⟨⟨grounded.remembers, grounded.joined⟩, trivial⟩

theorem blames_bindValue (value : Value) : Blames c names (fun _ => True) (bindValue value) :=
  fun _ grounded => ⟨⟨grounded.remembers, grounded.joined⟩, trivial⟩

theorem blames_startStatement : Blames c names (fun _ => True) startStatement := fun _ grounded =>
  ⟨⟨grounded.remembers, grounded.joined⟩, trivial⟩

theorem blames_includeJoin (path : List String) :
    Blames c names (fun _ => True) (includeJoin path) := by
  intro p grounded
  refine ⟨⟨grounded.remembers, fun j member => ?_⟩, trivial⟩
  obtain ⟨i, given, rfl⟩ := List.mem_map.1 member
  split
  · exact grounded.joined i given
  · exact grounded.joined i given

theorem blames_addJoin {join : PathJoin} (known : c.metadata.Knows join.resource) :
    Blames c names (fun _ => True) (addJoin join) := by
  intro p grounded
  refine ⟨⟨grounded.remembers, fun j member => ?_⟩, trivial⟩
  rcases List.mem_append.1 member with member | member
  · exact grounded.joined j member
  · obtain rfl := List.mem_singleton.1 member
    exact known

/-- Only a resource that the request names may be unknown. -/
theorem blames_findResource {name : String}
    (named : c.metadata.Knows name ∨ name ∈ names.resources) :
    Blames c names (fun r => c.metadata.findResource r.name = .ok r ∧ r.name = name)
      (ofExcept (c.metadata.findResource name)) := by
  refine .ofExcept (fun r found => ?_) fun e failed => ?_
  · exact ⟨Metadata.findResource_self found, Metadata.findResource_name found⟩
  · rcases named with ⟨r, known⟩ | named
    · rw [known] at failed
      cases failed
    · unfold Metadata.findResource at failed
      split at failed
      · cases failed
      · cases failed
        exact named

theorem blames_primaryKey (checked : c.metadata.check = .ok ())
    (found : c.metadata.findResource r.name = .ok r) :
    Blames c names c.metadata.Types (ofExcept r.primaryKey) := by
  obtain ⟨a, identified, typed⟩ := Metadata.primaryKey_of_check checked found
  rw [identified]
  exact .pure typed

theorem blames_literal {a : Attribute} (typed : c.metadata.Types a) (value : Json) :
    Blames c names (fun _ => True) (ofExcept (a.literal c.metadata value)) :=
  .check fun _ failed => Attribute.literal_concerns typed failed

/-- Only a relationship that the request names may be undeclared. -/
theorem blames_foreignKey (checked : c.metadata.check = .ok ())
    (found : c.metadata.findResource r.name = .ok r) {relationship : String}
    (named : r.type.relationships.contains relationship = true ∨ relationship ∈ names.relationships) :
    Blames c names (fun key => ForeignKey.resolve c.metadata r relationship = .ok key)
      (foreignKey c.metadata r relationship) := by
  intro p grounded
  obtain ⟨memory, remembers, same⟩ := foreignKey_apply grounded.remembers found relationship
  rw [same]
  rcases Metadata.resolve_of_check checked found relationship with
    ⟨undeclared, failed⟩ | ⟨key, resolved⟩
  · rw [failed]
    rcases named with declared | named
    · rw [undeclared] at declared
      cases declared
    · exact named
  · rw [resolved]
    exact ⟨⟨remembers, grounded.joined⟩, rfl⟩

theorem blames_joinColumns (checked : c.metadata.check = .ok ()) {parent target : Resource}
    (parented : c.metadata.findResource parent.name = .ok parent)
    (targeted : c.metadata.findResource target.name = .ok target) (key : ForeignKey)
    (table : Sql.Table) :
    Blames c names (fun _ => True) (ofExcept (joinColumns parent here key target table)) := by
  obtain ⟨columns, known⟩ := joinColumns_of_check checked parented targeted here key table
  refine .check fun e failed => ?_
  rw [known] at failed
  cases failed

/-! ## Paths and fields -/

theorem blames_follow (checked : c.metadata.check = .ok ()) {walk : Walk} {walked : List String}
    {relationship : String} (known : c.metadata.Knows here.resource)
    (named : relationship ∈ names.relationships) :
    Blames c names (fun next => c.metadata.Knows next.resource)
      (follow c walk walked here relationship) := by
  unfold follow
  refine .bind (blames_findResource (.inl known)) ?_
  rintro parent ⟨found, -⟩
  refine .bind (blames_foreignKey checked found (.inr named)) fun key resolved => ?_
  have named : key.relationship ∈ names.relationships :=
    (ForeignKey.relationship_of_resolve resolved).symm ▸ named
  refine .guard named fun _ => ?_
  refine .get fun p grounded => ?_
  cases joined : p.joinAt (walked ++ [relationship]) with
  | some j =>
    have known := grounded.joined j (List.mem_of_find?_eq_some joined)
    dsimp only
    refine .ite (fun _ => ?_) fun _ => .pure known
    exact .bind (blames_includeJoin _) fun _ _ => .pure known
  | none =>
    refine .bind (blames_findResource (.inl (Metadata.knows_target resolved))) ?_
    rintro target ⟨found', -⟩
    refine .bind blames_freshAlias fun a _ => ?_
    refine .bind (blames_joinColumns checked found found' key _) ?_
    rintro ⟨outer, inner⟩ -
    refine .get fun p' _ => ?_
    exact .bind (blames_addJoin ⟨target, found'⟩) fun _ _ => .pure ⟨target, found'⟩

theorem blames_walkOn (checked : c.metadata.check = .ok ()) {walk : Walk} {walked path : List String}
    (known : c.metadata.Knows here.resource) (named : path ⊆ names.relationships) :
    Blames c names (fun next => c.metadata.Knows next.resource) (walkOn c walk walked here path) := by
  induction path generalizing walked here with
  | nil => exact .pure known
  | cons relationship path ih =>
    obtain ⟨first, rest⟩ := List.cons_subset.1 named
    exact .bind (blames_follow checked known first) fun next known => ih known rest

theorem blames_walkPath (checked : c.metadata.check = .ok ()) {walk : Walk} {path : List String}
    (known : c.metadata.Knows root.resource) (named : path ⊆ names.relationships) :
    Blames c names (fun next => c.metadata.Knows next.resource) (walkPath c walk root path) :=
  blames_walkOn checked known named

theorem blames_leadsToMany (checked : c.metadata.check = .ok ()) {path : List String}
    (found : c.metadata.findResource r.name = .ok r) (named : path ⊆ names.relationships) :
    Blames c names (fun _ => True) (leadsToMany c r path) := by
  induction path generalizing r with
  | nil => exact .pure trivial
  | cons relationship path ih =>
    obtain ⟨first, rest⟩ := List.cons_subset.1 named
    refine .bind (blames_foreignKey checked found (.inr first)) fun key resolved => ?_
    refine .ite (fun _ => .pure trivial) fun _ => ?_
    refine .bind (blames_findResource (.inl (Metadata.knows_target resolved))) ?_
    rintro target ⟨found, -⟩
    exact ih found rest

theorem blames_anyLeadsToMany (checked : c.metadata.check = .ok ()) {paths : List (List String)}
    (found : c.metadata.findResource r.name = .ok r) (named : paths.flatten ⊆ names.relationships) :
    Blames c names (fun _ => True) (anyLeadsToMany c r paths) := by
  induction paths with
  | nil => exact .pure trivial
  | cons path paths ih =>
    obtain ⟨first, rest⟩ := List.append_subset.1 named
    refine .bind (blames_leadsToMany checked found first) fun many _ => ?_
    exact .ite (fun _ => .pure trivial) fun _ => ih rest

/-- A field holds values of its attribute; only its last element may be no attribute. -/
theorem blames_field (checked : c.metadata.check = .ok ()) {path : List String}
    (known : c.metadata.Knows root.resource) (named : (Request.Names.ofField path).Within names) :
    Blames c names (fun found => c.metadata.Types found.2) (field c root path) := by
  unfold field
  cases last : path.getLast? with
  | none => exact .throw trivial
  | some name =>
    have final : name ∈ names.attributes := named.attributes (by simp [Request.Names.ofField, last])
    have before : path.dropLast ⊆ names.relationships := fun _ member =>
      named.relationships (List.dropLast_subset path member)
    refine .bind (blames_walkPath checked known before) fun there known' => ?_
    refine .bind (blames_findResource (.inl known')) ?_
    rintro resource ⟨found, -⟩
    cases held : resource.type.attributes.get? name with
    | some a => exact .pure (Metadata.types_of_check checked found held)
    | none =>
      refine .ite (fun _ => ?_) fun _ => .throw final
      refine .bind (blames_walkPath checked known named.relationships) fun related known => ?_
      refine .bind (blames_findResource (.inl known)) ?_
      rintro target ⟨found, -⟩
      exact .bind (blames_primaryKey checked found) fun a typed => .pure typed

theorem blames_bindId (checked : c.metadata.check = .ok ())
    (found : c.metadata.findResource r.name = .ok r) (id : Json) :
    Blames c names (fun _ => True) (bindId c r id) := by
  refine .bind (blames_primaryKey checked found) fun a typed => ?_
  refine .guard trivial fun _ => ?_
  exact .bind (blames_literal typed id) fun value _ => blames_bindValue value

/-! ## Conditions -/

theorem blames_related (checked : c.metadata.check = .ok ()) {path : List String}
    (known : c.metadata.Knows root.resource) (named : path ⊆ names.relationships) :
    Blames c names (fun opened => c.metadata.Knows opened.root.resource) (related c root path) := by
  unfold related
  cases last : path.getLast? with
  | none => exact .throw trivial
  | some relationship =>
    have final := named (List.mem_of_getLast? last)
    have before : path.dropLast ⊆ names.relationships := fun _ member =>
      named (List.dropLast_subset path member)
    refine .bind (blames_walkPath checked known before) fun there known => ?_
    refine .bind (blames_findResource (.inl known)) ?_
    rintro parent ⟨found, -⟩
    refine .bind (blames_foreignKey checked found (.inr final)) fun key resolved => ?_
    have final : key.relationship ∈ names.relationships :=
      (ForeignKey.relationship_of_resolve resolved).symm ▸ final
    refine .guard final fun _ => ?_
    refine .bind (blames_findResource (.inl (Metadata.knows_target resolved))) ?_
    rintro target ⟨found', -⟩
    refine .bind blames_freshAlias fun a _ => ?_
    refine .bind (blames_joinColumns checked found found' key _) ?_
    rintro ⟨outer, inner⟩ -
    exact .pure ⟨target, found'⟩

theorem blames_count (checked : c.metadata.check = .ok ()) {path : List String}
    (known : c.metadata.Knows root.resource) (named : path ⊆ names.relationships) :
    Blames c names (fun _ => True) (count c root path) :=
  .bind (blames_related checked known named) fun _ _ => .pure trivial

/-- The attribute of a side is one whose values can be read. -/
def SideTyped (c : Context) : Side → Prop
  | .column _ held => c.metadata.Types held
  | _ => True

theorem blames_side (checked : c.metadata.check = .ok ()) (known : c.metadata.Knows root.resource)
    (operand : Request.Operand) (named : operand.names.Within names) :
    Blames c names (SideTyped c) (side c root operand) := by
  cases operand with
  | field path =>
    refine .bind (blames_field checked known named) ?_
    rintro ⟨column, held⟩ typed
    exact .pure typed
  | count path =>
    exact .bind (blames_count checked known named.relationships) fun _ _ => .pure trivial
  | null => exact .pure trivial
  | value v =>
    cases v with
    | null => exact .pure trivial
    | _ => exact .pure trivial

theorem blames_typing {left right : Side} (typed : SideTyped c left) (typed' : SideTyped c right) :
    Blames c names (fun typing => ∀ held ∈ typing, c.metadata.Types held)
      (ofExcept (Known.typing left.known right.known)) := by
  refine .ofExcept (fun typing given held told => ?_) fun e failed => ?_
  · obtain rfl : typing = some held := told
    cases left with
    | column =>
      cases given
      exact typed
    | _ =>
      cases right with
      | column =>
        cases given
        exact typed'
      | _ => cases given
  · cases left <;> cases right <;> cases failed <;> trivial

theorem blames_check (operator : Comparison) (type : ScalarType) (left right : Known) :
    Blames c names (fun _ => True) (ofExcept (Known.check operator type left right)) := by
  refine .check fun e failed => ?_
  unfold Known.check at failed
  split at failed
  · split at failed
    · cases failed
    · cases failed
      trivial
  · split at failed
    · cases failed
    · cases failed
      trivial

theorem blames_bindSide {typing : Option Attribute} (typed : ∀ held ∈ typing, c.metadata.Types held)
    (s : Side) : Blames c names (fun _ => True) (bindSide c typing s) := by
  cases s with
  | value v =>
    refine .bind (?_ : Blames c names (fun _ => True) _) fun bound _ =>
      .bind (blames_bindValue bound) fun _ _ => .pure trivial
    cases typing with
    | none =>
      refine .check fun e failed => ?_
      have failed : ScalarType.bigint.literal v = .error e := failed
      exact ScalarType.literal_concerns failed
    | some held => exact blames_literal (typed held rfl) v
  | _ => exact .pure trivial

theorem blames_comparison (checked : c.metadata.check = .ok ())
    (known : c.metadata.Knows root.resource) (operator : Comparison) (left right : Request.Operand)
    (named : (left.names.append right.names).Within names) :
    Blames c names (fun _ => True) (comparison c root operator left right) := by
  refine .bind (blames_side checked known left named.left) fun a typed => ?_
  refine .bind (blames_side checked known right named.right) fun b typed' => ?_
  refine .bind (blames_typing typed typed') fun typing typed => ?_
  refine .bind (blames_check operator _ a.known b.known) fun _ _ => ?_
  refine .bind (blames_bindSide typed a) fun x _ => ?_
  exact .bind (blames_bindSide typed b) fun y _ => .pure trivial

theorem blames_textMatch (checked : c.metadata.check = .ok ())
    (known : c.metadata.Knows root.resource) (place : TextMatch) (path : List String) (text : String)
    (named : (Request.Names.ofField path).Within names) :
    Blames c names (fun _ => True) (textMatch c root place path text) := by
  refine .bind (blames_field checked known named) ?_
  rintro ⟨column, held⟩ -
  refine .guard trivial fun _ => ?_
  exact .bind (blames_bindValue _) fun _ _ => .pure trivial

theorem blames_anyOf (checked : c.metadata.check = .ok ()) (known : c.metadata.Knows root.resource)
    (path : List String) (values : List Json) (named : (Request.Names.ofField path).Within names) :
    Blames c names (fun _ => True) (anyOf c root path values) := by
  refine .guard trivial fun _ => ?_
  refine .bind (blames_field checked known named) ?_
  rintro ⟨column, held⟩ typed
  refine .bind (.forEach fun value _ => ?_) fun _ _ => .pure trivial
  exact .bind (blames_literal typed value) fun bound _ =>
    .bind (blames_bindValue bound) fun _ _ => .pure trivial

theorem blames_joined (connective : Connective) (conditions : List Sql.Condition) :
    Blames c names (fun _ => True) (joined connective conditions) := by
  unfold joined
  cases Sql.Condition.combine connective conditions with
  | none => exact .throw trivial
  | some condition => exact .pure trivial

mutual

theorem blames_condition (checked : c.metadata.check = .ok ()) {root : Occurrence}
    (known : c.metadata.Knows root.resource) : (filter : Request.Filter) →
    filter.names.Within names → Blames c names (fun _ => True) (condition c root filter)
  | .and terms, named => by
    rw [condition]
    exact .bind (blames_conditions checked known terms named) fun made _ => blames_joined .and made
  | .or terms, named => by
    rw [condition]
    exact .bind (blames_conditions checked known terms named) fun made _ => blames_joined .or made
  | .not filter, named => by
    rw [condition]
    exact .bind (blames_condition checked known filter named) fun _ _ => .pure trivial
  | .comparison operator left right, named => by
    rw [condition]
    exact blames_comparison checked known operator left right named
  | .textMatch place path text, named => by
    rw [condition]
    exact blames_textMatch checked known place path text named
  | .any path values, named => by
    rw [condition]
    exact blames_anyOf checked known path values named
  | .has path filter, named => by
    rw [condition]
    have inside := blames_relatedSelect checked known named.left.relationships .one filter named.right
    exact .bind inside fun _ _ => .pure trivial

theorem blames_relatedSelect (checked : c.metadata.check = .ok ()) {root : Occurrence}
    (known : c.metadata.Knows root.resource) {path : List String}
    (along : path ⊆ names.relationships) (projection : Sql.Projection) :
    (filter : Option Request.Filter) → (Request.optionalNames filter).Within names →
    Blames c names (fun _ => True) (relatedSelect c root path projection filter)
  | none, _ => by
    rw [relatedSelect]
    exact .bind (blames_related checked known along) fun _ _ => .pure trivial
  | some filter, named => by
    rw [relatedSelect]
    refine .bind (blames_related checked known along) fun opened known => ?_
    refine .bind (.inOwnScope (blames_condition checked known filter named)) ?_
    rintro ⟨inner, joins⟩ -
    exact .pure trivial

theorem blames_conditions (checked : c.metadata.check = .ok ()) {root : Occurrence}
    (known : c.metadata.Knows root.resource) : (filters : List Request.Filter) →
    (Request.namesOfAll filters).Within names →
    Blames c names (fun _ => True) (conditions c root filters)
  | [], _ => by
    rw [conditions]
    exact .pure trivial
  | filter :: filters, named => by
    rw [conditions]
    refine .bind (blames_condition checked known filter named.left) fun first _ => ?_
    exact .bind (blames_conditions checked known filters named.right) fun rest _ => .pure trivial

end

/-! ## Queries -/

theorem blames_identity (checked : c.metadata.check = .ok ())
    (found : c.metadata.findResource r.name = .ok r) (id : Json) :
    Blames c names (fun _ => True) (identity c root r id) := by
  refine .bind (blames_primaryKey checked found) fun a _ => ?_
  exact .bind (blames_bindId checked found id) fun _ _ => .pure trivial

theorem blames_requestCondition (checked : c.metadata.check = .ok ())
    (known : c.metadata.Knows root.resource) (found : c.metadata.findResource r.name = .ok r)
    (id : Option Json) {filter : Option Request.Filter}
    (named : (Request.optionalNames filter).Within names) :
    Blames c names (fun _ => True) (requestCondition c root r id filter) := by
  refine .bind (.optionally fun id _ => blames_identity checked found id) fun _ _ => ?_
  refine .bind (.optionally fun given same => ?_) fun _ _ => .pure trivial
  cases same
  exact blames_condition checked known given named

theorem blames_orderTerm (checked : c.metadata.check = .ok ())
    (known : c.metadata.Knows root.resource) {element : Request.SortElement}
    (named : element.names.Within names) :
    Blames c names (fun _ => True) (orderTerm c root element) := by
  obtain ⟨target, ascending⟩ := element
  cases target with
  | field path =>
    refine .bind (blames_field checked known named) ?_
    rintro ⟨column, held⟩ -
    exact .pure trivial
  | count path =>
    exact .bind (blames_count checked known named.relationships) fun _ _ => .pure trivial

theorem blames_order (checked : c.metadata.check = .ok ()) (known : c.metadata.Knows root.resource)
    {sort : List Request.SortElement}
    (named : (Request.Names.ofAll Request.SortElement.names sort).Within names) :
    Blames c names (fun _ => True) (order c root sort) := by
  refine .ite (fun _ => ?_) fun _ => ?_
  · refine .bind (blames_findResource (.inl known)) ?_
    rintro resource ⟨found, -⟩
    exact .bind (blames_primaryKey checked found) fun _ _ => .pure trivial
  · exact .forEach fun element member => blames_orderTerm checked known (named.of_mem member)

theorem blames_includePaths (checked : c.metadata.check = .ok ())
    (known : c.metadata.Knows root.resource) {paths : List (List String)}
    (named : paths.flatten ⊆ names.relationships) :
    Blames c names (fun _ => True) (includePaths c root paths) := by
  induction paths with
  | nil => exact .pure trivial
  | cons path paths ih =>
    obtain ⟨first, rest⟩ := List.append_subset.1 named
    exact .bind (blames_walkPath checked known first) fun _ _ => ih rest

end

/-! ## Columns -/

theorem addAttributes_concerns {r : Resource} {asked : List String} {selected : List Attribute}
    {e : RequestError} (named : asked ⊆ names.attributes)
    (failed : r.addAttributes selected asked = .error e) : e.Concerns names := by
  induction asked generalizing selected with
  | nil => cases failed
  | cons name asked ih =>
    obtain ⟨first, rest⟩ := List.cons_subset.1 named
    unfold Resource.addAttributes Resource.findAttribute at failed
    cases held : r.type.attributes.get? name with
    | none =>
      rw [held] at failed
      cases failed
      exact first
    | some a =>
      rw [held] at failed
      exact ih rest failed

theorem selectedAttributes_concerns (checked : c.metadata.check = .ok ()) {r : Resource}
    (found : c.metadata.findResource r.name = .ok r) {asked : Option (List String)}
    {e : RequestError} (named : ∀ list ∈ asked, list ⊆ names.attributes)
    (failed : r.selectedAttributes asked = .error e) : e.Concerns names := by
  obtain ⟨a, identified, -⟩ := Metadata.primaryKey_of_check checked found
  unfold Resource.selectedAttributes at failed
  rw [identified] at failed
  cases asked with
  | none => cases failed
  | some list => exact addAttributes_concerns (named list rfl) failed

theorem columnsOf_concerns (checked : c.metadata.check = .ok ()) {fields : NameMap (List String)}
    {o : Occurrence} {e : RequestError} (known : c.metadata.Knows o.resource)
    (named : fields.values.flatten ⊆ names.attributes) (failed : columnsOf c fields o = .error e) :
    e.Concerns names := by
  obtain ⟨r, found⟩ := known
  unfold columnsOf at failed
  rw [found] at failed
  change ((r.selectedAttributes (fields.get? r.name)).bind fun attributes => _) = _ at failed
  cases selected : r.selectedAttributes (fields.get? r.name) with
  | ok attributes =>
    rw [selected] at failed
    cases failed
  | error e =>
    rw [selected] at failed
    cases failed
    refine selectedAttributes_concerns checked (Metadata.findResource_self found) ?_ selected
    intro list asked name member
    have given := List.mem_map_of_mem (f := (·.2)) (NameMap.mem_of_get? asked)
    exact named (List.mem_flatten.2 ⟨list, given, member⟩)

theorem columnsOfAll_concerns (checked : c.metadata.check = .ok ()) {fields : NameMap (List String)}
    {places : List Occurrence} {e : RequestError} (known : ∀ o ∈ places, c.metadata.Knows o.resource)
    (named : fields.values.flatten ⊆ names.attributes)
    (failed : columnsOfAll c fields places = .error e) : e.Concerns names := by
  induction places with
  | nil => cases failed
  | cons o places ih =>
    obtain ⟨here, rest⟩ := List.forall_mem_cons.1 known
    unfold columnsOfAll at failed
    cases own : columnsOf c fields o with
    | error e =>
      rw [own] at failed
      cases failed
      exact columnsOf_concerns checked here named own
    | ok columns =>
      rw [own] at failed
      cases others : columnsOfAll c fields places with
      | error e =>
        rw [others] at failed
        cases failed
        exact ih rest others
      | ok more =>
        rw [others] at failed
        cases failed

theorem checkResources_concerns {asked : List String} {e : RequestError}
    (named : asked ⊆ names.resources) (failed : checkResources c.metadata asked = .error e) :
    e.Concerns names := by
  induction asked with
  | nil => cases failed
  | cons name asked ih =>
    obtain ⟨first, rest⟩ := List.cons_subset.1 named
    unfold checkResources Metadata.findResource at failed
    cases looked : c.metadata.resources.get? name with
    | none =>
      rw [looked] at failed
      cases failed
      exact first
    | some type =>
      rw [looked] at failed
      exact ih rest failed

section

variable {root : Occurrence} {r : Resource} {table : Sql.Table} {q : Request.Query}

theorem blames_projection (checked : c.metadata.check = .ok ())
    (known : c.metadata.Knows root.resource) {fields : NameMap (List String)}
    (resources : fields.names ⊆ names.resources)
    (attributes : fields.values.flatten ⊆ names.attributes) :
    Blames c names (fun _ => True) (projection c root fields) := by
  refine .bind (.check fun e failed => checkResources_concerns resources failed) fun _ _ => ?_
  refine .get fun p grounded => ?_
  refine .bind (.check fun e failed => columnsOfAll_concerns checked ?_ attributes failed)
    fun _ _ => .pure trivial
  refine List.forall_mem_cons.2 ⟨known, fun o member => ?_⟩
  obtain ⟨j, included, rfl⟩ := List.mem_map.1 member
  exact grounded.joined j (List.mem_filter.1 included).1

theorem blames_joining {step : Compile Sql.Select} (h : Blames c names (fun _ => True) step) :
    Blames c names (fun _ => True) (joining step) := by
  refine .bind (.inOwnScope h) ?_
  rintro ⟨select, joins⟩ -
  exact .pure trivial

theorem blames_plainRows (checked : c.metadata.check = .ok ())
    (found : c.metadata.findResource r.name = .ok r) (named : q.names.Within names) :
    Blames c names (fun _ => True) (plainRows c q r table) := by
  have known : c.metadata.Knows r.name := ⟨r, found⟩
  refine blames_joining (.bind (blames_includePaths checked known named.left.relationships) ?_)
  intro _ _
  refine .bind (blames_requestCondition checked known found q.id named.right.left) fun _ _ => ?_
  refine .bind (blames_order checked known named.right.right) fun _ _ => ?_
  exact .bind (blames_projection checked known (List.cons_subset.1 named.left.resources).2
    named.left.attributes) fun _ _ => .pure trivial

theorem blames_page (checked : c.metadata.check = .ok ())
    (found : c.metadata.findResource r.name = .ok r) (named : q.names.Within names) :
    Blames c names (fun _ => True) (page c q r table) := by
  have known : c.metadata.Knows r.name := ⟨r, found⟩
  refine blames_joining (.bind
    (blames_requestCondition checked known found q.id named.right.left) fun _ _ => ?_)
  refine .bind (blames_order checked known named.right.right) fun _ _ => ?_
  refine .bind (.check fun e failed => ?_) fun _ _ => .pure trivial
  unfold Resource.projectedColumns at failed
  cases selected : r.selectedAttributes none with
  | ok attributes =>
    rw [selected] at failed
    cases failed
  | error e =>
    rw [selected] at failed
    cases failed
    exact selectedAttributes_concerns checked found (by simp) selected

theorem blames_pagedRows (checked : c.metadata.check = .ok ())
    (found : c.metadata.findResource r.name = .ok r) (named : q.names.Within names) :
    Blames c names (fun _ => True) (pagedRows c q r table) := by
  have known : c.metadata.Knows r.name := ⟨r, found⟩
  refine .bind (blames_page checked found named) fun inner _ => ?_
  refine .bind blames_freshAlias fun a _ => ?_
  refine blames_joining (.bind (blames_includePaths checked known named.left.relationships) ?_)
  intro _ _
  refine .bind (blames_order checked known named.right.right) fun _ _ => ?_
  exact .bind (blames_projection checked known (List.cons_subset.1 named.left.resources).2
    named.left.attributes) fun _ _ => .pure trivial

theorem blames_openTable {name : String} (named : name ∈ names.resources) :
    Blames c names (fun opened => c.metadata.findResource opened.1.name = .ok opened.1)
      (openTable c name) := by
  refine .bind (blames_findResource (.inr named)) ?_
  rintro r ⟨found, -⟩
  exact .bind blames_freshAlias fun _ _ => .pure found

theorem blames_rows (checked : c.metadata.check = .ok ()) (named : q.names.Within names) :
    Blames c names (fun _ => True) (rows c q) := by
  refine .bind (blames_openTable (List.cons_subset.1 named.left.resources).1) ?_
  rintro ⟨r, table⟩ found
  have next : ∀ paged, Blames c names (fun _ => True)
      (if paged = true then pagedRows c q r table else plainRows c q r table) := fun paged =>
    .ite (fun _ => blames_pagedRows checked found named) fun _ =>
      blames_plainRows checked found named
  have looks := blames_anyLeadsToMany checked found named.left.relationships
  exact .ite (fun _ => next false) fun _ => .bind looks fun paged _ => next paged

theorem blames_rowCount (checked : c.metadata.check = .ok ()) (named : q.names.Within names) :
    Blames c names (fun _ => True) (rowCount c q) := by
  refine .bind (blames_openTable (List.cons_subset.1 named.left.resources).1) ?_
  rintro ⟨r, table⟩ found
  exact blames_joining (.bind
    (blames_requestCondition checked ⟨r, found⟩ found q.id named.right.left) fun _ _ => .pure trivial)

end

end Compile

end ResourceSql
