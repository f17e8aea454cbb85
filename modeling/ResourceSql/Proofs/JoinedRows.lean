/-
The rows that the joins of a scope make of a row of its root. In a database that
honours the metadata, none of the joins loses the row (`joinAll_ne_nil`), and
joins along to-one relationships do not multiply it (`joinAll_toOne`). On every
joined row, the table at the end of a path of to-one relationships holds the row
that the path leads to on the graph, or a missing row (`stands`).
-/
import ResourceSql.Proofs.Scope

namespace ResourceSql

open Sql (joinAll)

theorem joinAll_append (g : Engine) (db : Database) (first second : List Sql.Join) (e : Bound) :
    joinAll g db (first ++ second) e = (joinAll g db first e).flatMap (joinAll g db second) := by
  induction first generalizing e with
  | nil => simp [joinAll]
  | cons j js ih =>
    have rest : joinAll g db (js ++ second) = fun e =>
        (joinAll g db js e).flatMap (joinAll g db second) := funext ih
    simp only [List.cons_append, joinAll, rest, List.flatMap_assoc]

theorem joinAll_singleton (g : Engine) (db : Database) (j : Sql.Join) :
    joinAll g db [j] = j.extend g db := by
  funext e
  simp [joinAll]

/-- Rows that are bound to other aliases stay as they are. -/
theorem joinAll_other {g : Engine} {db : Database} {joins : List Sql.Join} {a : Option String}
    (other : ∀ j ∈ joins, j.table.aliasName ≠ a) {e₀ e : Bound} (h : e ∈ joinAll g db joins e₀) :
    e a = e₀ a := by
  induction joins generalizing e₀ with
  | nil => rw [List.mem_singleton.1 h]
  | cons j joins ih =>
    obtain ⟨e₁, extended, h⟩ := List.mem_flatMap.1 h
    rw [ih (fun i hi => other i (List.mem_cons_of_mem _ hi)) h]
    have single : ∀ row, (e₀.bind j.table.aliasName row) a = e₀ a := fun row =>
      Bound.bind_other (other j (List.mem_cons_self ..)).symm
    unfold Sql.Join.extend at extended
    dsimp only at extended
    split at extended
    · rw [List.mem_singleton.1 extended]
      exact single _
    · obtain ⟨row, -, rfl⟩ := List.mem_map.1 extended
      exact single row

/-- A join adds the rows of its link, or a missing row if there are none and it is a left join. -/
theorem Link.extend_join {g : Engine} {db : Database} {l : Link} {here : Occurrence} {b : Bool}
    {number : Nat} {e : Bound} (fresh : here.aliasName ≠ some (tableAlias number)) :
    (l.join here b number).extend g db e =
      if (b || l.key.joinKind = .left) && (l.rows g db (e here.aliasName)).isEmpty then
        [e.bind (some (tableAlias number)) .null]
      else (l.rows g db (e here.aliasName)).map (e.bind (some (tableAlias number))) := by
  have rows : ((db.rows (l.join here b number).table.schema (l.join here b number).table.name).filter
      fun row =>
        let e := e.bind (l.join here b number).table.aliasName row
        g.compare .equals (e.column (l.join here b number).outer)
          (e.column (.ofTable (l.join here b number).inner)) = .true) =
      l.rows g db (e here.aliasName) := by
    refine List.filter_congr fun row _ => ?_
    have outer : (e.bind (some (tableAlias number)) row).column (l.join here b number).outer =
        e here.aliasName l.outer := by
      rw [Link.join, Bound.column_occurrence, Bound.bind_other fresh]
    have inner : (e.bind (some (tableAlias number)) row).column
        (.ofTable (l.join here b number).inner) = row l.inner := by
      show e.bind (some (tableAlias number)) row (some (tableAlias number)) l.inner = row l.inner
      rw [Bound.bind_self]
    refine decide_eq_decide.2 ?_
    show g.compare .equals ((e.bind (some (tableAlias number)) row).column (l.join here b number).outer)
      ((e.bind (some (tableAlias number)) row).column (.ofTable (l.join here b number).inner)) =
        .true ↔ _
    rw [outer, inner]
  simp only [Sql.Join.extend, rows]
  have aliasName : (l.join here b number).table.aliasName = some (tableAlias number) := rfl
  rw [aliasName]
  cases shape : l.rows g db (e here.aliasName) with
  | nil =>
    cases b <;> cases kind : l.key.joinKind <;> simp [Link.join, kind]
  | cons row rows =>
    cases b <;> cases kind : l.key.joinKind <;> simp [Link.join, kind]

section

variable {g : Engine} {db : Database} {c : Context} {root : Occurrence} {r : Resource} {row : Row}

/-- What holds of a place on a joined row: it shows the row that its path leads to, which may be
missing behind a left join. -/
structure Stands (g : Engine) (db : Database) (c : Context) (r : Resource) (row : Row) (e : Bound)
    (walked : List String) (here : Occurrence) (behindLeft : Bool) (type : Resource)
    (found : Option Row) : Prop where
  named : c.metadata.findResource here.resource = .ok type
  walk : c.metadata.walk true r walked = .ok type
  shows : type.Shows (e here.aliasName) (found.getD .null)
  stored : ∀ held, found = some held → held ∈ db.rowsOf type
  present : behindLeft = false → found.isSome = true
  reached : c.metadata.leadsToMany r walked = false →
    Graph.reach g db c r row walked = found.map (type, ·)

namespace Stands

variable {e : Bound} {walked : List String} {here : Occurrence} {b : Bool} {type : Resource}
  {found : Option Row} {relationship : String} {l : Link} {number : Nat}

theorem rows_eq (h : Stands g db c r row e walked here b type found)
    (declared : c.metadata.Declares type relationship l) :
    l.rows g db (e here.aliasName) = (found.map (l.rows g db)).getD [] := by
  rw [Link.rows_of_shows declared h.shows]
  cases found with
  | none => exact l.rows_null
  | some held => rfl

/-- A join that is not a left join finds a row. -/
theorem rows_ne_nil (h : Stands g db c r row e walked here b type found)
    (honoured : db.Honours g c.metadata) (declared : c.metadata.Declares type relationship l)
    (inner : (b || decide (l.key.joinKind = .left)) = false) :
    l.rows g db (e here.aliasName) ≠ [] := by
  simp only [Bool.or_eq_false_iff, decide_eq_false_iff_not] at inner
  obtain ⟨held, rfl⟩ := Option.isSome_iff_exists.1 (h.present inner.1)
  rw [h.rows_eq declared]
  have kind := inner.2
  simp only [ForeignKey.joinKind] at kind
  split at kind
  · next required =>
    simp only [Bool.and_eq_true, Bool.not_eq_true'] at required
    exact honoured.complete declared required.1 required.2 (h.stored held rfl)
  · exact absurd rfl kind

theorem extend_ne_nil (h : Stands g db c r row e walked here b type found)
    (honoured : db.Honours g c.metadata) (declared : c.metadata.Declares type relationship l)
    (fresh : here.aliasName ≠ some (tableAlias number)) :
    (l.join here b number).extend g db e ≠ [] := by
  rw [Link.extend_join fresh]
  split
  · simp
  · next some =>
    rw [ne_eq, List.map_eq_nil_iff]
    intro none
    refine h.rows_ne_nil honoured declared ?_ none
    simpa [none] using some

theorem rows_length (h : Stands g db c r row e walked here b type found)
    (honoured : db.Honours g c.metadata) (declared : c.metadata.Declares type relationship l)
    (toOne : l.key.isToOne = true) : (l.rows g db (e here.aliasName)).length ≤ 1 := by
  rw [h.rows_eq declared]
  cases found with
  | none => simp
  | some held => exact honoured.single declared toOne (h.stored held rfl)

/-- A join along a to-one relationship makes one row of a row. -/
theorem extend_toOne (h : Stands g db c r row e walked here b type found)
    (honoured : db.Honours g c.metadata) (declared : c.metadata.Declares type relationship l)
    (fresh : here.aliasName ≠ some (tableAlias number)) (toOne : l.key.isToOne = true) :
    ∃ e', (l.join here b number).extend g db e = [e'] := by
  have some := h.extend_ne_nil honoured declared fresh
  have length := h.rows_length honoured declared toOne
  rw [Link.extend_join fresh] at some ⊢
  split
  · exact ⟨_, rfl⟩
  · next inner =>
    rw [if_neg inner] at some
    match rows : l.rows g db (e here.aliasName) with
    | [] => simp [rows] at some
    | [other] => exact ⟨_, rfl⟩
    | _ :: _ :: _ => simp [rows] at length

/-- The joined table stands at the end of the longer path. -/
theorem follow (h : Stands g db c r row e walked here b type found)
    (honoured : db.Honours g c.metadata) (known : c.metadata.findResource r.name = .ok r)
    (declared : c.metadata.Declares type relationship l)
    (fresh : here.aliasName ≠ some (tableAlias number)) {e' : Bound}
    (extended : e' ∈ (l.join here b number).extend g db e) :
    ∃ found', Stands g db c r row e' (walked ++ [relationship])
      ⟨l.target.name, .table (l.table number)⟩ (b || decide (l.key.joinKind = .left)) l.target found' := by
  have toOne_of (toOne : c.metadata.leadsToMany r (walked ++ [relationship]) = false) :
      c.metadata.leadsToMany r walked = false ∧ l.key.isToOne = true := by
    rw [Metadata.leadsToMany_append known h.walk, Metadata.leadsToMany_cons declared] at toOne
    simpa [Metadata.leadsToMany] using toOne
  have reach_of (toOne : c.metadata.leadsToMany r (walked ++ [relationship]) = false) :
      Graph.reach g db c r row (walked ++ [relationship]) =
        (l.rows g db (e here.aliasName)).head?.map (l.target, ·) := by
    obtain ⟨before, single⟩ := toOne_of toOne
    rw [Graph.reach_append, h.reached before, h.rows_eq declared]
    cases found with
    | none => rfl
    | some held =>
      exact Graph.reach_singleton ((Metadata.hop_eq_ok_iff declared.found).2 ⟨declared, .inr single⟩)
  have walk : c.metadata.walk true r (walked ++ [relationship]) = .ok l.target := by
    rw [Metadata.walk_append, h.walk]
    exact Metadata.walk_singleton ((Metadata.hop_eq_ok_iff declared.found).2 ⟨declared, .inl rfl⟩)
  rw [Link.extend_join fresh] at extended
  split at extended
  · next missing =>
    simp only [Bool.and_eq_true, List.isEmpty_iff] at missing
    obtain rfl := List.mem_singleton.1 extended
    refine ⟨none, declared.target_found, walk, ?_, by simp, ?_, fun toOne => ?_⟩
    · intro column _
      show (e.bind (some (tableAlias number)) Row.null) (some (tableAlias number)) column = _
      rw [Bound.bind_self]
      rfl
    · rw [missing.1]
      simp
    · rw [reach_of toOne, missing.2]
      rfl
  · obtain ⟨held, member, rfl⟩ := List.mem_map.1 extended
    refine ⟨some held, declared.target_found, walk, ?_, ?_, fun _ => rfl, fun toOne => ?_⟩
    · intro column _
      show (e.bind (some (tableAlias number)) held) (some (tableAlias number)) column = _
      rw [Bound.bind_self]
      rfl
    · rintro _ ⟨⟩
      exact (List.mem_filter.1 member).1
    · rw [reach_of toOne]
      have length := h.rows_length honoured declared (toOne_of toOne).2
      cases rows : l.rows g db (e here.aliasName) with
      | nil => simp [rows] at member
      | cons other rest =>
        cases rest with
        | nil =>
          rw [rows] at member
          obtain rfl := List.mem_singleton.1 member
          rfl
        | cons => simp [rows] at length

/-- Rows that are bound to other aliases do not matter. -/
theorem of_eq {e' : Bound} (h : Stands g db c r row e walked here b type found)
    (same : e' here.aliasName = e here.aliasName) :
    Stands g db c r row e' walked here b type found :=
  { h with shows := by rw [same]; exact h.shows }

end Stands

namespace Linked

variable {n : Nat} {joins : List PathJoin}

theorem aliasName_ne (h : Linked c.metadata root n joins) {walked : List String} {here : Occurrence}
    {b : Bool} (place : LeadsTo root joins walked here b) {number : Nat} (above : n < number) :
    here.aliasName ≠ some (tableAlias number) := by
  obtain ⟨k, named, le⟩ := h.numbered_place place
  intro same
  have := tableAlias_inj (Option.some.inj (named.symm.trans same))
  omega

theorem kind_join (l : Link) (here : Occurrence) (b : Bool) (number : Nat) :
    decide ((l.join here b number).kind = .left) = (b || decide (l.key.joinKind = .left)) := by
  cases b <;> simp [Link.join]

/-- The places of a scope on its joined rows. -/
theorem stands (h : Linked c.metadata root n joins) (honoured : db.Honours g c.metadata)
    (named : c.metadata.findResource root.resource = .ok r) (stored : row ∈ db.rowsOf r)
    {e₀ : Bound} (shows : r.Shows (e₀ root.aliasName) row) {walked : List String}
    {here : Occurrence} {b : Bool} (place : LeadsTo root joins walked here b) :
    ∀ e ∈ joinAll g db (joins.map (·.join)) e₀,
      ∃ type found, Stands g db c r row e walked here b type found := by
  have known := Metadata.findResource_self named
  induction h generalizing walked here b with
  | nil =>
    intro e member
    obtain rfl := List.mem_singleton.1 member
    cases place with
    | root =>
      exact ⟨r, some row, named, rfl, shows, by rintro _ ⟨⟩; exact stored, fun _ => rfl, fun _ => rfl⟩
    | join member => cases member
  | @snoc n joins walked' here' b' parent relationship l number _ _ linked before found declared _
      above _ ih =>
    intro e member
    rw [List.map_append, joinAll_append, List.mem_flatMap] at member
    obtain ⟨e₁, joined, member⟩ := member
    rw [List.map_singleton, joinAll_singleton] at member
    have fresh := linked.aliasName_ne before above
    rcases place.of_concat with old | ⟨rfl, rfl, rfl⟩
    · obtain ⟨type, held, stand⟩ := ih old e₁ joined
      refine ⟨type, held, stand.of_eq (joinAll_other ?_ (joinAll_singleton g db _ ▸ member))⟩
      intro j hj
      rw [List.mem_singleton.1 hj]
      exact (linked.aliasName_ne old above).symm
    · obtain ⟨type, held, stand⟩ := ih before e₁ joined
      obtain rfl : type = parent := Except.ok.inj (stand.named.symm.trans found)
      obtain ⟨held', stand'⟩ := stand.follow honoured known declared fresh member
      exact ⟨l.target, held', by rw [kind_join]; exact stand'⟩

/-- No join loses a row of the root. -/
theorem joinAll_ne_nil (h : Linked c.metadata root n joins) (honoured : db.Honours g c.metadata)
    (named : c.metadata.findResource root.resource = .ok r) (stored : row ∈ db.rowsOf r)
    {e₀ : Bound} (shows : r.Shows (e₀ root.aliasName) row) :
    joinAll g db (joins.map (·.join)) e₀ ≠ [] := by
  induction h with
  | nil => simp [joinAll]
  | @snoc n joins walked here b parent relationship l number _ _ linked place found declared _ above _
      ih =>
    obtain ⟨e, member⟩ := List.exists_mem_of_ne_nil _ ih
    obtain ⟨type, held, stand⟩ := linked.stands honoured named stored shows place e member
    obtain rfl : type = parent := Except.ok.inj (stand.named.symm.trans found)
    have next := stand.extend_ne_nil honoured declared (linked.aliasName_ne place above)
    rw [List.map_append, joinAll_append, List.map_singleton, joinAll_singleton]
    intro none
    exact next (List.flatMap_eq_nil_iff.1 none e member)

/-- Joins along to-one relationships make one row of a row of the root. -/
theorem joinAll_toOne (h : Linked c.metadata root n joins) (honoured : db.Honours g c.metadata)
    (named : c.metadata.findResource root.resource = .ok r) (stored : row ∈ db.rowsOf r)
    {e₀ : Bound} (shows : r.Shows (e₀ root.aliasName) row)
    (toOne : ∀ j ∈ joins, c.metadata.leadsToMany r j.path = false) :
    ∃ e, joinAll g db (joins.map (·.join)) e₀ = [e] := by
  have known := Metadata.findResource_self named
  induction h with
  | nil => exact ⟨e₀, rfl⟩
  | @snoc n joins walked here b parent relationship l number _ _ linked place found declared _ above _
      ih =>
    obtain ⟨e, single⟩ := ih fun j hj => toOne j (List.mem_append_left _ hj)
    obtain ⟨type, held, stand⟩ :=
      linked.stands honoured named stored shows place e (by simp [single])
    obtain rfl : type = parent := Except.ok.inj (stand.named.symm.trans found)
    have last := toOne _ (List.mem_append_right _ (List.mem_singleton_self _))
    rw [Metadata.leadsToMany_append known stand.walk, Metadata.leadsToMany_cons declared] at last
    rw [List.map_append, joinAll_append, single, List.map_singleton, joinAll_singleton,
      List.flatMap_singleton]
    exact stand.extend_toOne honoured declared (linked.aliasName_ne place above)
      (by simpa [Metadata.leadsToMany] using (Bool.or_eq_false_iff.1 last).2)

end Linked

end

end ResourceSql
