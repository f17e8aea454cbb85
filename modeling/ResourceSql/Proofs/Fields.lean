/-
Paths that are walked while compiling, and the fields at their ends. A walk
fails exactly if the metadata do not have the path. What a field is compiled to
has, on every joined row, the value that the field has on the graph
(`keeps_field`), whatever else is joined before or later: `OnRows` says what
holds on the joined rows of a scope for good.
-/
import ResourceSql.Proofs.Steps

namespace ResourceSql

/-- Whether a path leads along a to-many relationship; the names have to be found as far as that
can be told from them. -/
def Metadata.checkToMany (m : Metadata) : Resource → List String → Except RequestError Bool
  | _, [] => pure false
  | here, relationship :: rest => do
    let key ← ForeignKey.resolve m here relationship
    if !key.isToOne then return true
    let target ← m.findResource key.target
    checkToMany m target rest

theorem Metadata.leadsToMany_of_check {m : Metadata} {here : Resource} {path : List String}
    {b : Bool} (h : m.checkToMany here path = .ok b) : m.leadsToMany here path = b := by
  induction path generalizing here with
  | nil => exact Except.ok.inj h
  | cons relationship rest ih =>
    obtain ⟨key, resolved, h⟩ := Except.bind_eq_ok.1 h
    simp only [leadsToMany, resolved]
    cases toOne : key.isToOne with
    | false =>
      rw [toOne] at h
      exact Except.ok.inj h
    | true =>
      rw [toOne] at h
      obtain ⟨target, found, h⟩ := Except.bind_eq_ok.1 h
      simp only [found]
      exact ih h

/-- What holds on every joined row of a row of the root, also when more tables are joined. -/
def OnRows (g : Engine) (db : Database) (c : Context) (root : Occurrence) (r : Resource)
    (p : Progress) (fact : Row → Bound → Prop) : Prop :=
  ∀ n joins, Linked c.metadata root n joins → (∀ j ∈ p.joins, ∃ i ∈ joins, i.core = j.core) →
    ∀ row ∈ db.rowsOf r, ∀ e₀ : Bound, r.Shows (e₀ root.aliasName) row →
      ∀ e ∈ Sql.joinAll g db (joins.map (·.join)) e₀, fact row e

section

variable {g : Engine} {db : Database} {c : Context} {root : Occurrence} {r : Resource}
  {fits : List String → Bool → Prop} {p q : Progress}

namespace OnRows

variable {fact fact' : Row → Bound → Prop}

theorem later (h : OnRows g db c root r p fact) (later : Later fits p q) :
    OnRows g db c root r q fact := by
  intro n joins linked kept
  refine h n joins linked fun j member => ?_
  obtain ⟨i, hi, same⟩ := later.kept j member
  obtain ⟨k, hk, same'⟩ := kept i hi
  exact ⟨k, hk, same'.trans same⟩

theorem imp (h : OnRows g db c root r p fact) (next : ∀ row e, fact row e → fact' row e) :
    OnRows g db c root r p fact' :=
  fun n joins linked kept row stored e₀ shows e member =>
    next row e (h n joins linked kept row stored e₀ shows e member)

theorem and (h : OnRows g db c root r p fact) (h' : OnRows g db c root r p fact') :
    OnRows g db c root r p fun row e => fact row e ∧ fact' row e :=
  fun n joins linked kept row stored e₀ shows e member =>
    ⟨h n joins linked kept row stored e₀ shows e member,
      h' n joins linked kept row stored e₀ shows e member⟩

theorem of_forall (h : ∀ row e, fact row e) : OnRows g db c root r p fact :=
  fun _ _ _ _ row _ _ _ e _ => h row e

/-- What holds on the rows of a scope as it is. -/
theorem here (h : OnRows g db c root r p fact) (sound : Sound c root r p) {row : Row}
    (stored : row ∈ db.rowsOf r) {e₀ e : Bound} (shows : r.Shows (e₀ root.aliasName) row)
    (member : e ∈ Sql.joinAll g db (p.joins.map (·.join)) e₀) : fact row e :=
  h p.tables p.joins sound.linked (fun j hj => ⟨j, hj, rfl⟩) row stored e₀ shows e member

/-- The end of a path of to-one relationships shows the row that the path leads to. -/
theorem of_leadsTo {walked : List String} {here : Occurrence} {b : Bool} {type : Resource}
    (honoured : db.Honours g c.metadata) (sound : Sound c root r p)
    (place : LeadsTo root p.joins walked here b)
    (found : c.metadata.findResource here.resource = .ok type)
    (toOne : c.metadata.leadsToMany r walked = false) :
    OnRows g db c root r p fun row e => ∃ held : Option Row,
      type.Shows (e here.aliasName) (held.getD .null) ∧
        Graph.reach g db c r row walked = held.map (type, ·) := by
  intro n joins linked kept row stored e₀ shows e member
  obtain ⟨other, held, stand⟩ :=
    linked.stands honoured sound.named stored shows (place.of_core kept) e member
  obtain rfl : other = type := Except.ok.inj (stand.named.symm.trans found)
  exact ⟨held, stand.shows, stand.reached toOne⟩

end OnRows

namespace Compile

/-! ## Walks -/

theorem keeps_walkOn {walk : Walk} {walked rest : List String} {here : Occurrence} {b : Bool}
    {type : Resource} (sound : Sound c root r p) (place : LeadsTo root p.joins walked here b)
    (found : c.metadata.findResource here.resource = .ok type)
    (reached : c.metadata.walk walk.toMany r walked = .ok type)
    (fit : ∀ path there, path <+: walked ++ rest → c.metadata.walk walk.toMany r path = .ok there →
      fits path walk.included) :
    Keeps c root r fits p (c.metadata.walk walk.toMany type rest)
      (fun there next q => c.metadata.findResource next.resource = .ok there ∧
        ∃ b, LeadsTo root q.joins (walked ++ rest) next b)
      (walkOn c walk walked here rest p) := by
  induction rest generalizing walked here b type p with
  | nil =>
    refine Keeps.pure sound ⟨found, b, ?_⟩
    rw [List.append_nil]
    exact place
  | cons relationship rest ih =>
    have split : walked ++ relationship :: rest = walked ++ [relationship] ++ rest := by simp
    have step : ∀ l, c.metadata.hop walk.toMany type relationship = .ok l →
        c.metadata.walk walk.toMany r (walked ++ [relationship]) = .ok l.target := by
      intro l hopped
      rw [Metadata.walk_append, reached]
      exact Metadata.walk_singleton hopped
    refine Keeps.bind (keeps_follow sound place found fun l hopped => ?_) ?_
    · exact fit _ _ ⟨rest, split.symm⟩ (step l hopped)
    · intro l next q sound _ hopped good
      obtain ⟨named, b', place⟩ := good
      rw [split]
      exact ih sound place named (step l hopped) fun path there isPrefix =>
        fit path there (split ▸ isPrefix)

/-- Walking a path from the root leads to its end, and fails if the metadata do not have it. -/
theorem keeps_walkPath {walk : Walk} {path : List String} (sound : Sound c root r p)
    (fit : ∀ start there, start <+: path → c.metadata.walk walk.toMany r start = .ok there →
      fits start walk.included) :
    Keeps c root r fits p (c.metadata.walk walk.toMany r path)
      (fun there next q => c.metadata.findResource next.resource = .ok there ∧
        ∃ b, LeadsTo root q.joins path next b)
      (walkPath c walk root path p) :=
  keeps_walkOn sound .root sound.named rfl fit

theorem keeps_leadsToMany {here : Resource} {path : List String} (sound : Sound c root r p)
    (found : c.metadata.findResource here.name = .ok here) :
    Keeps c root r fits p (c.metadata.checkToMany here path) (fun b a q => a = b ∧ q.joins = p.joins)
      (leadsToMany c here path p) := by
  induction path generalizing here p with
  | nil => exact Keeps.pure sound ⟨rfl, rfl⟩
  | cons relationship rest ih =>
    refine Keeps.bind (keeps_foreignKey sound found relationship) ?_
    rintro _ key q sound _ resolved ⟨rfl, same⟩
    cases toOne : key.isToOne with
    | false => exact Keeps.pure sound ⟨rfl, same⟩
    | true =>
      refine Keeps.bind (Keeps.ofExcept sound _) ?_
      rintro _ target _ _ _ named ⟨rfl, rfl⟩
      refine (ih sound (Metadata.findResource_self named)).imp ?_
      rintro _ _ s _ _ ⟨rfl, same'⟩
      exact ⟨rfl, same'.trans same⟩

/-! ## Fields -/

/-- All joins will do. -/
def AnyFits : List String → Bool → Prop := fun _ _ => True

/-- Steps that only walk along to-one relationships, and include nothing, may take a scope to such
joins. -/
def FitsFields (c : Context) (r : Resource) (fits : List String → Bool → Prop) : Prop :=
  ∀ path there, c.metadata.walk false r path = .ok there → fits path false

/-- The path meets no to-many relationship, whatever it is joined for. -/
def FitsToOne (c : Context) (r : Resource) (path : List String) (_ : Bool) : Prop :=
  c.metadata.leadsToMany r path = false

theorem FitsFields.toOne (sound : Sound c root r p) : FitsFields c r (FitsToOne c r) :=
  fun _ _ walked => Metadata.leadsToMany_of_walk (Metadata.findResource_self sound.named) walked

theorem FitsFields.any (c : Context) (r : Resource) : FitsFields c r AnyFits := fun _ _ _ => trivial

/-- On all rows, the column of a field has the value of the field. -/
theorem keeps_field (honoured : db.Honours g c.metadata) (sound : Sound c root r p)
    (fit : FitsFields c r fits) (path : List String) :
    Keeps c root r fits p (c.metadata.fieldOf r path)
      (fun held found q => found.2 = held ∧ OnRows g db c root r q fun row e =>
        e.column found.1 = Graph.fieldValue g db c r row path)
      (field c root path p) := by
  have known := Metadata.findResource_self sound.named
  unfold field Metadata.fieldOf
  cases last : path.getLast? with
  | none => exact Keeps.throw sound
  | some name =>
    refine Keeps.bind (keeps_walkPath sound fun start there _ => fit start there) ?_
    rintro type here q sound _ walked ⟨named, b, place⟩
    have toOne := Metadata.leadsToMany_of_walk known walked
    have there := OnRows.of_leadsTo honoured sound place named toOne
    rw [named, bind_ofExcept]
    cases looked : type.type.attributes.get? name with
    | some held =>
      refine Keeps.pure sound ⟨rfl, there.imp ?_⟩
      rintro row e ⟨found, shows, reached⟩
      have holds : type.Holds held.column := .inl ⟨name, held, looked, rfl⟩
      rw [Bound.column_occurrence, shows _ holds]
      simp only [Graph.fieldValue, last, reached]
      cases found with
      | none => rfl
      | some other => simp only [Option.map_some, Option.getD_some, looked]
    | none =>
      cases declared : type.type.relationships.contains name with
      | false => exact Keeps.throw sound
      | true =>
        refine Keeps.bind (keeps_walkPath sound fun start there _ => fit start there) ?_
        rintro target related q sound later walked ⟨named, b, place⟩
        have there' := OnRows.of_leadsTo honoured sound place named
          (Metadata.leadsToMany_of_walk known walked)
        rw [named, bind_ofExcept]
        show Keeps c root r fits q target.primaryKey _ _
        cases identified : target.primaryKey with
        | error e => exact ⟨sound, .refl fits q, rfl⟩
        | ok primaryKey =>
          refine Keeps.pure sound ⟨rfl, ((there.later later).and there').imp ?_⟩
          rintro row e ⟨⟨found, -, reached⟩, held, shows, reached'⟩
          rw [Bound.column_occurrence, shows _ (Resource.holds_of_primaryKey identified)]
          obtain ⟨before, rfl⟩ := List.getLast?_eq_some_iff.1 last
          rw [List.dropLast_concat] at reached
          rw [Graph.reach_append, reached] at reached'
          simp only [Graph.fieldValue, last, List.dropLast_concat, reached]
          cases found with
          | none =>
            obtain rfl : held = none := by simpa using reached'.symm
            rfl
          | some other =>
            simp only [Option.map_some, Option.bind_some] at reached' ⊢
            rw [looked, reached']
            cases held with
            | none => rfl
            | some last => simp only [Option.map_some, Graph.keyValue, identified, Option.getD_some]

end Compile

end

end ResourceSql
