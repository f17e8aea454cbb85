/-
Selects over the resources of a to-many relationship, as conditions and counts
use them. Such a select refers to the row that it belongs to through the alias
of its table; since all aliases inside were given out later, that row is the one
bound around the select (`Opened.mem_matched_iff`). The conditions inside are
joined to one and flattened, which does not change their truth
(`filterTruth_conjunction?`).
-/
import ResourceSql.Proofs.Fields
import ResourceSql.Proofs.Flattening

namespace ResourceSql

namespace Sql

variable {g : Engine} {db : Database} {e : Bound}

/-! ## Conjunctions -/

theorem truths_append (cs ds : List Condition) :
    truths g db (cs ++ ds) e = truths g db cs e ++ truths g db ds e := by
  simp [truths_eq_map]

theorem Condition.combine_eq_none_iff {connective : Connective} {cs : List Condition} :
    combine connective cs = none ↔ cs = [] := by
  match cs with
  | [] | [_] | _ :: _ :: _ => simp [combine]

theorem Condition.truth_combine {connective : Connective} {cs : List Condition} {c : Condition}
    (h : combine connective cs = some c) :
    c.truth g db e = Truth.joined connective (truths g db cs e) := by
  match cs with
  | [] => cases h
  | [term] =>
    obtain rfl := Option.some.inj h
    cases connective <;> simp [truths, Truth.joined, Truth.all, Truth.any]
  | first :: second :: rest =>
    obtain rfl := Option.some.inj h
    cases connective <;> simp [truths, Truth.joined, Condition.truth]

theorem filterTruth_conjunction? (cs : List Condition) :
    filterTruth g db (conjunction? cs) e = .all (truths g db cs e) := by
  unfold conjunction?
  cases combined : Condition.combine .and cs with
  | none =>
    match cs with
    | [] => rfl
    | [_] | _ :: _ :: _ => simp [Condition.combine] at combined
  | some c =>
    simp only [Option.map_some, filterTruth, Condition.truth_flatten]
    exact Condition.truth_combine combined

/-! ## Results of selects -/

theorem Select.result_count {s : Select} (counts : s.projection = .count)
    (all : s.window.isAll = true) : s.result g db e = [[g.number (s.matched g db e).length]] := by
  obtain ⟨projection, source, joins, filter, order, window, aliasName⟩ := s
  obtain rfl := counts
  simp only [Select.result]
  exact Window.of_isAll all _

theorem Select.result_columns {s : Select} {columns : List Column}
    (selects : s.projection = .columns columns) :
    s.result g db e =
      (s.window.of (arrange g db s.order (s.matched g db e))).map fun e => columns.map e.column := by
  obtain ⟨projection, source, joins, filter, order, window, aliasName⟩ := s
  obtain rfl := selects
  cases order with
  | none => rfl
  | some terms => rfl

/-- A select of ones is empty if nothing matches. -/
theorem Select.result_one {s : Select} (one : s.projection = .one) (unordered : s.order = none)
    (all : s.window.isAll = true) : s.result g db e = (s.matched g db e).map fun _ => [g.number 1] := by
  obtain ⟨projection, source, joins, filter, order, window, aliasName⟩ := s
  obtain rfl := one
  obtain rfl := unordered
  simp only [Select.result]
  rw [Window.of_isAll all]
  rfl

end Sql

/-! ## Related rows -/

/-- The select that is opened by following a link from an occurrence. -/
def Link.opened (l : Link) (here : Occurrence) (number : Nat) : Related :=
  ⟨l.target.name, l.table number, .equals (.column (here.column l.outer l.outerRole))
    (.column (.ofTable ((l.table number).column l.inner l.innerRole)))⟩

/-- A select over the resources at the end of a path: on all rows, the rows of its link are those
that the path leads to. -/
structure Opened (g : Engine) (db : Database) (c : Context) (root : Occurrence) (r : Resource)
    (path : List String) (l : Link) (q : Progress) (here : Occurrence) (number : Nat) : Prop where
  found : c.metadata.findResource l.target.name = .ok l.target
  above : ∃ k, here.aliasName = some (tableAlias k) ∧ k < number
  below : number ≤ q.tables
  rows : OnRows g db c root r q fun row e =>
    (l.rows g db (e here.aliasName)).map (l.target, ·) = Graph.related g db c r row path

section

variable {g : Engine} {db : Database} {c : Context} {root : Occurrence} {r : Resource}
  {fits : List String → Bool → Prop} {p q : Progress}

theorem Link.truth_opened (l : Link) (here : Occurrence) (number : Nat) (e : Bound) :
    (l.opened here number).link.truth g db e =
      g.compare .equals (e here.aliasName l.outer) (e (some (tableAlias number)) l.inner) := by
  show g.compare .equals (e.column (here.column l.outer l.outerRole))
    (e (some (tableAlias number)) l.inner) = _
  rw [Bound.column_occurrence]

namespace Opened

variable {path : List String} {l : Link} {here : Occurrence} {number n : Nat}
  {joins : List PathJoin} {conditions : List Sql.Condition} {projection : Sql.Projection}

theorem fresh (h : Opened g db c root r path l q here number) :
    here.aliasName ≠ some (tableAlias number) := by
  obtain ⟨k, named, above⟩ := h.above
  intro same
  have := tableAlias_inj (Option.some.inj (named.symm.trans same))
  omega

/-- The aliases inside are neither that of the row around the select nor that of its table. -/
theorem outside (h : Opened g db c root r path l q here number)
    (linked : Linked c.metadata (l.opened here number).root n joins) :
    ∀ j ∈ joins.map (·.join), j.table.aliasName ≠ here.aliasName ∧
      j.table.aliasName ≠ some (tableAlias number) := by
  intro j member
  obtain ⟨k, named, above⟩ := h.above
  obtain ⟨i, hi, rfl⟩ := List.mem_map.1 member
  obtain ⟨first, root, -, each⟩ := linked.numbered
  obtain ⟨other, numbered, greater, -⟩ := each i hi
  obtain rfl : number = first := tableAlias_inj (Option.some.inj root)
  constructor
  · intro same
    have := tableAlias_inj (Option.some.inj (numbered.symm.trans (same.trans named)))
    omega
  · intro same
    have := tableAlias_inj (Option.some.inj (numbered.symm.trans same))
    omega

/-- What a select over related rows matches: the joined rows, on which the conditions hold, of the
rows of its link. -/
theorem mem_matched_iff (h : Opened g db c root r path l q here number)
    (linked : Linked c.metadata (l.opened here number).root n joins) {e e' : Bound} :
    e' ∈ ((l.opened here number).select projection joins conditions).matched g db e ↔
      ∃ row ∈ l.rows g db (e here.aliasName),
        e' ∈ Sql.joinAll g db (joins.map (·.join)) (e.bind (some (tableAlias number)) row) ∧
          Truth.all (Sql.truths g db conditions e') = .true := by
  have link : ∀ row, e' ∈ Sql.joinAll g db (joins.map (·.join))
      (e.bind (some (tableAlias number)) row) →
      (l.opened here number).link.truth g db e' =
        g.compare .equals (e here.aliasName l.outer) (row l.inner) := by
    intro row member
    have outer := joinAll_other (fun j hj => (h.outside linked j hj).1) member
    have inner := joinAll_other (fun j hj => (h.outside linked j hj).2) member
    rw [Link.truth_opened, outer, inner, Bound.bind_other h.fresh, Bound.bind_self]
  simp only [Sql.Select.matched, List.mem_filter, List.mem_flatMap, decide_eq_true_eq]
  show (∃ e₀ ∈ (db.rowsOf l.target).map (e.bind (some (tableAlias number))), _) ∧
    Sql.filterTruth g db (Sql.conjunction? ((l.opened here number).link :: conditions)) e' = .true ↔ _
  rw [Sql.filterTruth_conjunction?]
  simp only [Sql.truths, Truth.all, Truth.and_eq_true_iff, List.mem_map]
  constructor
  · rintro ⟨⟨_, ⟨row, stored, rfl⟩, member⟩, linked, holds⟩
    rw [link row member] at linked
    exact ⟨row, List.mem_filter.2 ⟨stored, by simpa using linked⟩, member, holds⟩
  · rintro ⟨row, related, member, holds⟩
    obtain ⟨stored, linked⟩ := List.mem_filter.1 related
    refine ⟨⟨_, ⟨row, stored, rfl⟩, member⟩, ?_, holds⟩
    rw [link row member]
    simpa using linked

/-- Without joins and conditions, the rows of the link are matched one by one. -/
theorem matched_rows (h : Opened g db c root r path l q here number) (e : Bound) :
    ((l.opened here number).select projection [] []).matched g db e =
      (l.rows g db (e here.aliasName)).map (e.bind (some (tableAlias number))) := by
  have single : Sql.joinAll g db [] = fun e => [e] := rfl
  show ((((db.rowsOf l.target).map (e.bind (some (tableAlias number)))).flatMap
    (Sql.joinAll g db [])).filter fun e' =>
      Sql.filterTruth g db (Sql.conjunction? [(l.opened here number).link]) e' = .true) = _
  rw [single, List.flatMap_singleton', List.filter_map, Link.rows]
  congr 1
  refine List.filter_congr fun row _ => decide_eq_decide.2 ?_
  rw [Sql.filterTruth_conjunction?]
  simp only [Sql.truths, Truth.all, Truth.and_true]
  rw [Link.truth_opened, Bound.bind_other h.fresh, Bound.bind_self]

end Opened

namespace Compile

/-- A select over related resources is opened if the metadata have the path. -/
theorem keeps_related (honoured : db.Honours g c.metadata) (sound : Sound c root r p)
    (fit : FitsFields c r fits) (path : List String) :
    Keeps c root r fits p (c.metadata.relatedOf r path)
      (fun l opened q => ∃ here number, opened = l.opened here number ∧
        Opened g db c root r path l q here number)
      (related c root path p) := by
  have known := Metadata.findResource_self sound.named
  unfold related Metadata.relatedOf
  cases last : path.getLast? with
  | none => exact Keeps.throw sound
  | some relationship =>
    refine Keeps.bind (keeps_walkPath sound fun start there _ => fit start there) ?_
    rintro type here q sound _ walked ⟨named, b, place⟩
    have known' := Metadata.findResource_self named
    have there := OnRows.of_leadsTo honoured sound place named
      (Metadata.leadsToMany_of_walk known walked)
    rw [named, bind_ofExcept]
    refine Keeps.bind (keeps_foreignKey sound known' relationship) ?_
    rintro _ key s sound later resolved ⟨rfl, same⟩
    refine Keeps.guard sound fun allowed => ?_
    have there := there.later later
    rw [← same] at place
    cases found : c.metadata.findResource key.target with
    | error e =>
      rw [Metadata.link_eq_error found]
      exact ⟨sound, .refl fits s, rfl⟩
    | ok target =>
      rw [bind_ofExcept]
      refine Keeps.bind_silent (keeps_freshAlias sound) ?_
      rintro _ t sound' later' ⟨rfl, rfl⟩
      dsimp only
      rw [Metadata.joinColumns_eq found]
      cases linked : c.metadata.link type key with
      | error e => exact ⟨sound', .refl fits _, rfl⟩
      | ok l =>
        have declared := Metadata.declares_of_link known' resolved linked
        obtain rfl := Metadata.target_of_link found linked
        obtain ⟨k, numbered, le⟩ := sound.linked.numbered_place place
        refine Keeps.pure sound' ⟨here, s.tables + 1, rfl, declared.target_found,
          ⟨k, numbered, Nat.lt_succ_of_le le⟩, Nat.le_refl _, (there.later later').imp ?_⟩
        rintro row e ⟨held, shows, reached⟩
        rw [Link.rows_of_shows declared shows]
        simp only [Graph.related, last, reached]
        cases held with
        | none => simp [Link.rows_null]
        | some found => simp [resolved, linked]

end Compile

end

end ResourceSql
