/-
The parts of a query: which resources are asked for, in which order, and what is
read along. Each part is compiled exactly if the metadata allow it, and says of
every joined row of a row what the request says of the row on the graph. So what
is asked for, and its order, is the same in all selects that are made of one
request, whatever tables they join.
-/
import ResourceSql.Proofs.FilterMeaning

namespace ResourceSql

namespace Metadata

variable (m : Metadata)

/-- Whether a resource can be asked for by an identifier. -/
def checkIdentity (r : Resource) : Option Json → Except RequestError Unit
  | none => pure ()
  | some id => do
    let primaryKey ← r.primaryKey
    if id.isNull then throw (.typeMismatch id primaryKey.type)
    let _ ← primaryKey.literal m id

/-- Whether resources can be asked for by an identifier and a filter. -/
def checkAsked (r : Resource) (id : Option Json) (filter : Option Request.Filter) :
    Except RequestError Unit := do
  m.checkIdentity r id
  m.checkRelated r filter

def checkTarget (r : Resource) : Request.SortTarget → Except RequestError Unit
  | .field path => do
    let _ ← m.fieldOf r path
  | .count path => do
    let _ ← m.relatedOf r path

def checkTargets (r : Resource) : List Request.SortElement → Except RequestError Unit
  | [] => pure ()
  | element :: elements => do
    m.checkTarget r element.target
    checkTargets r elements

/-- Whether resources can be sorted. -/
def checkOrder (r : Resource) (sort : List Request.SortElement) : Except RequestError Unit :=
  if sort.isEmpty then do
    let _ ← r.primaryKey
  else m.checkTargets r sort

/-- Whether resources can be read along. -/
def checkIncludes (r : Resource) : List (List String) → Except RequestError Unit
  | [] => pure ()
  | path :: paths => do
    let _ ← m.walk true r path
    checkIncludes r paths

/-- Whether any path leads along a to-many relationship; the names have to be found as far as that
can be told from them. -/
def checkAnyToMany (r : Resource) : List (List String) → Except RequestError Bool
  | [] => pure false
  | path :: paths => do
    if ← m.checkToMany r path then return true
    checkAnyToMany r paths

end Metadata

namespace Graph

variable (g : Engine) (db : Database) (c : Context)

/-- Whether a row is the resource of an identifier. -/
def identified (r : Resource) (row : Row) (id : Json) : Truth :=
  let literal := r.primaryKey >>= fun primaryKey => primaryKey.literal c.metadata id
  g.compare .equals (keyValue r row) (literal.toOption.getD .null)

/-- Whether a row is asked for. -/
def asked (r : Resource) (id : Option Json) (filter : Option Request.Filter) (row : Row) : Truth :=
  .all ((id.map (identified g c r row)).toList ++
    (filter.map fun filter => meaning g db c r filter row).toList)

def targetValue (r : Resource) (row : Row) : Request.SortTarget → Value
  | .field path => fieldValue g db c r row path
  | .count path => g.number (related g db c r row path).length

/-- What a row is sorted by: its primary key, if nothing is said. -/
def sortKeys (r : Resource) (sort : List Request.SortElement) (row : Row) : List Value :=
  if sort.isEmpty then [keyValue r row]
  else sort.map fun element => targetValue g db c r row element.target

def directions (sort : List Request.SortElement) : List Bool :=
  if sort.isEmpty then [true] else sort.map (·.ascending)

/-- Whether a row may stand before another one. -/
def before (r : Resource) (sort : List Request.SortElement) (a b : Row) : Bool :=
  g.sorted (directions sort) (sortKeys g db c r sort a) (sortKeys g db c r sort b)

/-- The rows that a query asks for. -/
def askedRows (r : Resource) (q : Request.Query) : List Row :=
  (db.rowsOf r).filter fun row => asked g db c r q.id q.filter row = .true

/-- The window of a query on the rows that it asks for, in their order. -/
def page (r : Resource) (q : Request.Query) : List Row :=
  q.window.of ((askedRows g db c r q).mergeSort (before g db c r q.sort))

end Graph

section

variable {g : Engine} {db : Database} {c : Context} {root : Occurrence} {r : Resource}
  {fits : List String → Bool → Prop} {p q : Progress}

/-- The root shows its row. -/
theorem OnRows.shows_root (honoured : db.Honours g c.metadata) (sound : Sound c root r p) :
    OnRows g db c root r p fun row e => r.Shows (e root.aliasName) row := by
  refine (OnRows.of_leadsTo honoured sound .root sound.named rfl).imp ?_
  rintro row e ⟨held, shows, reached⟩
  cases held with
  | none => cases reached
  | some other =>
    obtain rfl := (Prod.mk.inj (Option.some.inj reached)).2
    exact shows

theorem OnRows.column_root {primaryKey : Attribute} (honoured : db.Honours g c.metadata)
    (sound : Sound c root r p) (identified : r.primaryKey = .ok primaryKey) :
    OnRows g db c root r p fun row e =>
      e.column (root.column primaryKey.column .scalar) = Graph.keyValue r row := by
  refine (OnRows.shows_root honoured sound).imp fun row e shows => ?_
  rw [Bound.column_occurrence, shows _ (Resource.holds_of_primaryKey identified), Graph.keyValue,
    identified]

namespace Compile

/-! ## What is asked for -/

theorem keeps_bindId (sound : Sound c root r p) (id : Json) :
    Keeps c root r fits p (c.metadata.checkIdentity r (some id))
      (fun _ parameter _ => ∃ primaryKey, r.primaryKey = .ok primaryKey ∧
        primaryKey.literal c.metadata id = .ok parameter.value)
      (bindId c r id p) := by
  unfold Metadata.checkIdentity bindId
  cases identified : r.primaryKey with
  | error e => exact ⟨sound, .refl fits p, rfl⟩
  | ok primaryKey =>
    rw [bind_ofExcept]
    refine Keeps.guard sound fun _ => ?_
    cases literal : primaryKey.literal c.metadata id with
    | error e => exact ⟨sound, .refl fits p, rfl⟩
    | ok value =>
      rw [bind_ofExcept]
      refine (keeps_bindValue sound value).imp fun _ parameter q _ _ bound => ?_
      exact ⟨primaryKey, rfl, bound ▸ literal⟩

theorem keeps_identity (honoured : db.Honours g c.metadata) (sound : Sound c root r p) (id : Json) :
    Keeps c root r fits p (c.metadata.checkIdentity r (some id))
      (fun _ condition q => OnRows g db c root r q fun row e =>
        condition.truth g db e = Graph.identified g c r row id)
      (identity c root r id p) := by
  unfold identity
  cases identified : r.primaryKey with
  | error e =>
    have refused : c.metadata.checkIdentity r (some id) = .error e := by
      simp only [Metadata.checkIdentity, identified]
      rfl
    rw [refused]
    exact ⟨sound, .refl fits p, rfl⟩
  | ok primaryKey =>
    rw [bind_ofExcept]
    have bound : Keeps c root r fits p (c.metadata.checkIdentity r (some id))
        (fun _ parameter q => Sound c root r q ∧
          primaryKey.literal c.metadata id = .ok parameter.value)
        (bindId c r id p) := by
      refine (keeps_bindId sound id).imp ?_
      rintro _ parameter q sound _ ⟨other, same, literal⟩
      obtain rfl : other = primaryKey := Except.ok.inj (same.symm.trans identified)
      exact ⟨sound, literal⟩
    · refine Keeps.map bound ?_
      rintro _ parameter q _ ⟨sound, literal⟩
      refine (OnRows.column_root honoured sound identified).imp fun row e same => ?_
      show g.compare .equals (e.column _) parameter.value = _
      rw [same, Graph.identified, identified]
      show _ = g.compare .equals _ ((primaryKey.literal c.metadata id).toOption.getD .null)
      rw [literal]
      rfl

/-- On all rows, the condition of a request is true if the row is asked for. -/
theorem keeps_requestCondition (honoured : db.Honours g c.metadata) (sound : Sound c root r p)
    (fit : FitsFields c r fits) (id : Option Json) (filter : Option Request.Filter) :
    Keeps c root r fits p (c.metadata.checkAsked r id filter)
      (fun _ condition q => OnRows g db c root r q fun row e =>
        Sql.filterTruth g db condition e = Graph.asked g db c r id filter row)
      (requestCondition c root r id filter p) := by
  have identities : Keeps c root r fits p (c.metadata.checkIdentity r id)
      (fun _ conditions q => OnRows g db c root r q fun row e =>
        Sql.truths g db conditions e = (id.map (Graph.identified g c r row)).toList)
      (optionally (identity c root r) id p) := by
    cases id with
    | none => exact Keeps.pure sound (.of_forall fun _ _ => rfl)
    | some id =>
      refine Keeps.map (keeps_identity honoured sound id) ?_
      intro _ condition q _ means
      refine means.imp fun row e same => ?_
      rw [Sql.truths, same]
      rfl
  refine Keeps.bind identities ?_
  intro _ first q sound _ _ means
  have filters : Keeps c root r fits q (c.metadata.checkRelated r filter)
      (fun _ conditions s => OnRows g db c root r s fun row e =>
        Sql.truths g db conditions e =
          (filter.map fun filter => Graph.meaning g db c r filter row).toList)
      (optionally (condition c root) filter q) := by
    cases filter with
    | none =>
      rw [Metadata.checkRelated]
      exact Keeps.pure sound (.of_forall fun _ _ => rfl)
    | some filter =>
      rw [Metadata.checkRelated]
      refine Keeps.map (keeps_condition honoured sound fit filter) ?_
      intro _ condition s _ means
      refine means.imp fun row e same => ?_
      rw [Sql.truths, same]
      rfl
  refine Keeps.map filters ?_
  intro _ second s later means'
  refine ((means.later later).and means').imp ?_
  rintro row e ⟨same, same'⟩
  rw [Sql.filterTruth_conjunction?, Sql.truths_append, same, same', Graph.asked]

/-! ## Order -/

theorem keeps_orderTerm (honoured : db.Honours g c.metadata) (sound : Sound c root r p)
    (fit : FitsFields c r fits) (element : Request.SortElement) :
    Keeps c root r fits p (c.metadata.checkTarget r element.target)
      (fun _ term q => term.ascending = element.ascending ∧ OnRows g db c root r q fun row e =>
        term.key g db e = Graph.targetValue g db c r row element.target)
      (orderTerm c root element p) := by
  obtain ⟨target, ascending⟩ := element
  cases target with
  | field path =>
    have kept : Keeps c root r fits p (c.metadata.fieldOf r path)
        (fun _ term q => term.ascending = ascending ∧ OnRows g db c root r q fun row e =>
          term.key g db e = Graph.fieldValue g db c r row path)
        (orderTerm c root ⟨.field path, ascending⟩ p) := by
      refine Keeps.map (keeps_field honoured sound fit path) ?_
      rintro held ⟨column, _⟩ q _ ⟨-, means⟩
      exact ⟨rfl, means.imp fun row e same => by rw [Sql.OrderTerm.key, same]⟩
    exact Keeps.map_expected kept fun _ _ _ _ fine => fine
  | count path =>
    have kept : Keeps c root r fits p (c.metadata.relatedOf r path)
        (fun _ term q => term.ascending = ascending ∧ OnRows g db c root r q fun row e =>
          term.key g db e = g.number (Graph.related g db c r row path).length)
        (orderTerm c root ⟨.count path, ascending⟩ p) := by
      refine Keeps.map (keeps_count honoured sound fit path) ?_
      intro l select q _ means
      refine ⟨rfl, means.imp fun row e same => ?_⟩
      rw [Sql.OrderTerm.key, same]
      rfl
    exact Keeps.map_expected kept fun _ _ _ _ fine => fine

theorem keeps_order (honoured : db.Honours g c.metadata) (sound : Sound c root r p)
    (fit : FitsFields c r fits) (sort : List Request.SortElement) :
    Keeps c root r fits p (c.metadata.checkOrder r sort)
      (fun _ terms q => terms.map Sql.OrderTerm.ascending = Graph.directions sort ∧
        OnRows g db c root r q fun row e =>
          Sql.sortKeys g db terms e = Graph.sortKeys g db c r sort row)
      (order c root sort p) := by
  unfold order Metadata.checkOrder
  cases empty : sort.isEmpty with
  | true =>
    have named := sound.named
    obtain rfl := List.isEmpty_iff.1 empty
    simp only [if_true, named]
    rw [bind_ofExcept]
    cases identified : r.primaryKey with
    | error e => exact ⟨sound, .refl fits p, rfl⟩
    | ok primaryKey =>
      refine Keeps.pure sound ⟨rfl, (OnRows.column_root honoured sound identified).imp ?_⟩
      intro row e same
      rw [Sql.sortKeys, Sql.sortKeys, Sql.OrderTerm.key, same]
      rfl
  | false =>
    have terms : Keeps c root r fits p (c.metadata.checkTargets r sort)
        (fun _ terms q => terms.map Sql.OrderTerm.ascending = sort.map (·.ascending) ∧
          OnRows g db c root r q fun row e => Sql.sortKeys g db terms e =
            sort.map fun element => Graph.targetValue g db c r row element.target)
        (forEach (orderTerm c root) sort p) := by
      clear empty
      induction sort generalizing p with
      | nil => exact Keeps.pure sound ⟨rfl, .of_forall fun _ _ => rfl⟩
      | cons element elements ih =>
        refine Keeps.bind (keeps_orderTerm honoured sound fit element) ?_
        rintro _ term q sound _ _ ⟨up, means⟩
        refine Keeps.map (ih sound) ?_
        rintro _ terms s later ⟨ups, means'⟩
        refine ⟨by rw [List.map_cons, List.map_cons, up, ups], ((means.later later).and means').imp ?_⟩
        rintro row e ⟨first, rest⟩
        rw [Sql.sortKeys, first, rest, List.map_cons]
    refine terms.imp ?_
    rintro _ terms q _ _ ⟨ups, means⟩
    refine ⟨by simp [ups, Graph.directions, empty], means.imp fun row e same => ?_⟩
    simp [same, Graph.sortKeys, empty]

/-! ## What is read along -/

theorem keeps_includePaths (paths : List (List String)) (sound : Sound c root r p)
    (fit : ∀ path ∈ paths, ∀ start there, start <+: path →
      c.metadata.walk true r start = .ok there → fits start true) :
    Keeps c root r fits p (c.metadata.checkIncludes r paths) (fun _ _ _ => True)
      (includePaths c root paths p) := by
  induction paths generalizing p with
  | nil => exact Keeps.pure sound trivial
  | cons path paths ih =>
    have start : ∀ start there, start <+: path →
        c.metadata.walk Walk.toIncluded.toMany r start = .ok there →
        fits start Walk.toIncluded.included := fit path (List.mem_cons_self ..)
    refine Keeps.bind (keeps_walkPath sound start) ?_
    intro _ _ q sound _ _ _
    exact ih sound fun other member => fit other (List.mem_cons_of_mem _ member)

theorem keeps_anyLeadsToMany (paths : List (List String)) (sound : Sound c root r p) :
    Keeps c root r fits p (c.metadata.checkAnyToMany r paths)
      (fun b a q => a = b ∧ q.joins = p.joins) (anyLeadsToMany c r paths p) := by
  induction paths generalizing p with
  | nil => exact Keeps.pure sound ⟨rfl, rfl⟩
  | cons path paths ih =>
    refine Keeps.bind (keeps_leadsToMany sound (Metadata.findResource_self sound.named)) ?_
    rintro _ b q sound _ _ ⟨rfl, same⟩
    cases b with
    | true => exact Keeps.pure sound ⟨rfl, same⟩
    | false =>
      refine (ih sound).imp ?_
      rintro _ _ s _ _ ⟨rfl, same'⟩
      exact ⟨rfl, same'.trans same⟩

end Compile

end

end ResourceSql
