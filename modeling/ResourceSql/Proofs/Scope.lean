/-
The scope of a select while it is compiled: its root, and the tables joined
because paths led to them. Every join follows one relationship on from the root
or from a table that was joined before (`Chained`), under an alias with a number
of its own; in a scope that is opened for a table, the root has such an alias too
(`Linked`). A path leads to one place only (`Chained.leadsTo_unique`), so that walking
it again finds the table that it was joined as.
-/
import ResourceSql.Proofs.Graph

namespace ResourceSql

/-- The alias with a number. -/
def tableAlias (n : Nat) : String := String.ofList ('t' :: Digits.ofNat n)

theorem tableAlias_inj {n k : Nat} (h : tableAlias n = tableAlias k) : n = k := by
  have digits := String.ofList_injective h
  simp only [List.cons.injEq, true_and] at digits
  rw [← Digits.toNat_ofNat n, digits, Digits.toNat_ofNat]

namespace Occurrence

/-- The alias through which the columns are addressed. -/
def aliasName (o : Occurrence) : Option String :=
  match o.address with
  | .table t => t.aliasName
  | .subquery _ aliasName => some aliasName

@[simp] theorem aliasName_column (o : Occurrence) (name : String) (role : Sql.ColumnRole) :
    (o.column name role).aliasName = o.aliasName := by
  obtain ⟨_, _ | _⟩ := o <;> rfl

@[simp] theorem name_column (o : Occurrence) (name : String) (role : Sql.ColumnRole) :
    (o.column name role).name = name := by
  obtain ⟨_, _ | _⟩ := o <;> rfl

end Occurrence

theorem Bound.column_occurrence (e : Bound) (o : Occurrence) (name : String)
    (role : Sql.ColumnRole) : e.column (o.column name role) = e o.aliasName name := by
  simp [Bound.column]

namespace Link

def outerRole (l : Link) : Sql.ColumnRole := if l.key.atLeftSide then .foreignKey else .scalar

def innerRole (l : Link) : Sql.ColumnRole := if l.key.atLeftSide then .scalar else .foreignKey

/-- The table of the target under a numbered alias. -/
def table (l : Link) (number : Nat) : Sql.Table := l.target.table (some (tableAlias number))

/-- The join that follows a link from an occurrence of the declaring type. -/
def join (l : Link) (here : Occurrence) (behindLeft : Bool) (number : Nat) : Sql.Join :=
  ⟨if behindLeft then .left else l.key.joinKind, l.table number, here.column l.outer l.outerRole,
    (l.table number).column l.inner l.innerRole⟩

end Link

/-- The columns of a join are those of the link. -/
theorem Metadata.joinColumns_eq {m : Metadata} {parent target : Resource} {key : ForeignKey}
    (h : m.findResource key.target = .ok target) (here : Occurrence) (number : Nat) :
    Compile.joinColumns parent here key target (target.table (some (tableAlias number))) =
      (m.link parent key).map fun l =>
        ((l.join here false number).outer, (l.join here false number).inner) := by
  have bound : m.link parent key = (Except.ok target >>= fun target =>
      if key.atLeftSide then do
        let primaryKey ← target.primaryKey
        return ⟨key, target, key.column, primaryKey.column⟩
      else do
        let primaryKey ← parent.primaryKey
        return ⟨key, target, primaryKey.column, key.column⟩) := by rw [link, h]
  rw [bound]
  simp only [Compile.joinColumns]
  cases left : key.atLeftSide with
  | true =>
    cases primaryKey : target.primaryKey with
    | error e => simp [primaryKey, bind, Except.bind, Except.map]
    | ok a =>
      simp [left, primaryKey, bind, Except.bind, Except.map, pure, Except.pure, Link.join,
        Link.outerRole, Link.innerRole, Link.table]
  | false =>
    cases parent.primaryKey with
    | error e => simp [bind, Except.bind, Except.map]
    | ok a =>
      simp [left, bind, Except.bind, Except.map, pure, Except.pure, Link.join, Link.outerRole,
        Link.innerRole, Link.table]

namespace PathJoin

/-- A join without the mark whether it is included. -/
def core (j : PathJoin) : PathJoin := { j with included := false }

/-- The alias of the joined table. -/
def aliasName (j : PathJoin) : Option String := j.join.table.aliasName

theorem eq_of_core {i j : PathJoin} (h : i.core = j.core) :
    i = { j with included := i.included } := by
  cases i
  cases j
  simp_all [core]

theorem path_eq {i j : PathJoin} (h : i.core = j.core) : i.path = j.path :=
  (PathJoin.mk.inj h).1

theorem resource_eq {i j : PathJoin} (h : i.core = j.core) : i.resource = j.resource :=
  (PathJoin.mk.inj h).2.1

theorem join_eq {i j : PathJoin} (h : i.core = j.core) : i.join = j.join :=
  (PathJoin.mk.inj h).2.2.1

theorem occurrence_eq {i j : PathJoin} (h : i.core = j.core) : i.occurrence = j.occurrence := by
  simp only [PathJoin.occurrence, resource_eq h, join_eq h]

end PathJoin

/-! ## Places -/

/-- Where a path leads in a scope: to an occurrence, which may be behind a left join. -/
inductive LeadsTo (root : Occurrence) (joins : List PathJoin) : List String → Occurrence → Bool → Prop
  | root : LeadsTo root joins [] root false
  | join {j : PathJoin} : j ∈ joins →
    LeadsTo root joins j.path j.occurrence (decide (j.join.kind = .left))

/-- Joins in the order of joining, each of which follows a relationship on from the root or from a
table that was joined before. The numbers of their aliases grow, above that of the start and up to
a bound. -/
inductive Chained (m : Metadata) (root : Occurrence) (start : Nat) : Nat → List PathJoin → Prop
  | nil {bound : Nat} : start ≤ bound → Chained m root start bound []
  | snoc {n : Nat} {joins : List PathJoin} {walked : List String} {here : Occurrence}
    {behindLeft : Bool} {parent : Resource} {relationship : String} {l : Link}
    {number bound : Nat} {included : Bool} :
    Chained m root start n joins → LeadsTo root joins walked here behindLeft →
    m.findResource here.resource = .ok parent → m.Declares parent relationship l →
    (∀ j ∈ joins, j.path ≠ walked ++ [relationship]) → n < number → number ≤ bound →
    Chained m root start bound (joins ++
      [⟨walked ++ [relationship], l.target.name, l.join here behindLeft number, included⟩])

/-- The joins of a scope, in the order of joining; no alias has a number above the bound. -/
inductive Linked (m : Metadata) (root : Occurrence) : Nat → List PathJoin → Prop
  | nil {number bound : Nat} : root.aliasName = some (tableAlias number) → number ≤ bound →
    Linked m root bound []
  | snoc {n : Nat} {joins : List PathJoin} {walked : List String} {here : Occurrence}
    {behindLeft : Bool} {parent : Resource} {relationship : String} {l : Link}
    {number bound : Nat} {included : Bool} :
    Linked m root n joins → LeadsTo root joins walked here behindLeft →
    m.findResource here.resource = .ok parent → m.Declares parent relationship l →
    (∀ j ∈ joins, j.path ≠ walked ++ [relationship]) → n < number → number ≤ bound →
    Linked m root bound (joins ++
      [⟨walked ++ [relationship], l.target.name, l.join here behindLeft number, included⟩])

namespace LeadsTo

variable {root : Occurrence} {joins : List PathJoin}

/-- What was joined stays where it is. -/
theorem of_core {others : List PathJoin} {walked : List String} {here : Occurrence} {b : Bool}
    (h : LeadsTo root joins walked here b) (kept : ∀ j ∈ joins, ∃ i ∈ others, i.core = j.core) :
    LeadsTo root others walked here b := by
  cases h with
  | root => exact .root
  | @join j member =>
    obtain ⟨i, hi, same⟩ := kept j member
    rw [← PathJoin.path_eq same, ← PathJoin.occurrence_eq same, ← PathJoin.join_eq same]
    exact .join hi

theorem append {walked : List String} {here : Occurrence} {b : Bool}
    (h : LeadsTo root joins walked here b) (more : List PathJoin) :
    LeadsTo root (joins ++ more) walked here b :=
  h.of_core fun j member => ⟨j, List.mem_append_left _ member, rfl⟩

/-- A place in a scope is one of before, or that of the last join. -/
theorem of_concat {j : PathJoin} {walked : List String} {here : Occurrence} {b : Bool}
    (place : LeadsTo root (joins ++ [j]) walked here b) :
    LeadsTo root joins walked here b ∨
      walked = j.path ∧ here = j.occurrence ∧ b = decide (j.join.kind = .left) := by
  cases place with
  | root => exact .inl .root
  | join member =>
    rcases List.mem_append.1 member with member | member
    · exact .inl (.join member)
    · obtain rfl := List.mem_singleton.1 member
      exact .inr ⟨rfl, rfl, rfl⟩

end LeadsTo

namespace Chained

variable {m : Metadata} {root : Occurrence} {start n : Nat} {joins : List PathJoin}

theorem mono (h : Chained m root start n joins) {bound : Nat} (le : n ≤ bound) :
    Chained m root start bound joins := by
  cases h with
  | nil below => exact .nil (Nat.le_trans below le)
  | snoc chained place found declared new above below =>
    exact .snoc chained place found declared new above (Nat.le_trans below le)

theorem of_start_le (h : Chained m root start n joins) {first : Nat} (le : first ≤ start) :
    Chained m root first n joins := by
  induction h with
  | nil below => exact .nil (Nat.le_trans le below)
  | snoc _ place found declared new above below ih =>
    exact .snoc ih place found declared new above below

theorem start_le (h : Chained m root start n joins) : start ≤ n := by
  induction h with
  | nil below => exact below
  | snoc _ _ _ _ _ above below ih => omega

/-- The aliases have numbers behind that of the start. -/
theorem numbered (h : Chained m root start n joins) :
    ∀ j ∈ joins, ∃ i, j.aliasName = some (tableAlias i) ∧ start < i ∧ i ≤ n := by
  induction h with
  | nil => simp
  | @snoc n joins _ _ _ _ _ _ number bound _ chained _ _ _ _ above below ih =>
    have le := chained.start_le
    intro j member
    rcases List.mem_append.1 member with member | member
    · obtain ⟨i, named, lower, upper⟩ := ih j member
      exact ⟨i, named, lower, by omega⟩
    · obtain rfl := List.mem_singleton.1 member
      exact ⟨number, rfl, by omega, below⟩

theorem path_ne_nil (h : Chained m root start n joins) : ∀ j ∈ joins, j.path ≠ [] := by
  induction h with
  | nil => simp
  | snoc _ _ _ _ _ _ _ ih =>
    intro j member
    rcases List.mem_append.1 member with member | member
    · exact ih j member
    · obtain rfl := List.mem_singleton.1 member
      simp

/-- A path is joined at most once. -/
theorem eq_of_path (h : Chained m root start n joins) :
    ∀ i ∈ joins, ∀ j ∈ joins, i.path = j.path → i = j := by
  induction h with
  | nil => simp
  | snoc _ _ _ _ new _ _ ih =>
    intro i hi j hj same
    rcases List.mem_append.1 hi with hi | hi <;> rcases List.mem_append.1 hj with hj | hj
    · exact ih i hi j hj same
    · obtain rfl := List.mem_singleton.1 hj
      exact absurd same (new i hi)
    · obtain rfl := List.mem_singleton.1 hi
      exact absurd same.symm (new j hj)
    · rw [List.mem_singleton.1 hi, List.mem_singleton.1 hj]

theorem joinAt_eq_some_iff {p : Progress} (h : Chained m root start n p.joins) {path : List String}
    {j : PathJoin} : p.joinAt path = some j ↔ j ∈ p.joins ∧ j.path = path := by
  constructor
  · intro found
    exact ⟨List.mem_of_find?_eq_some found, by simpa using List.find?_some found⟩
  · rintro ⟨member, rfl⟩
    cases found : p.joinAt j.path with
    | none => exact absurd (List.find?_eq_none.1 found j member) (by simp)
    | some i =>
      rw [h.eq_of_path i (List.mem_of_find?_eq_some found) j member
        (by simpa using List.find?_some found)]

/-- A path leads to one place. -/
theorem leadsTo_unique (h : Chained m root start n joins) {walked : List String}
    {here other : Occurrence} {b b' : Bool} (first : LeadsTo root joins walked here b)
    (second : LeadsTo root joins walked other b') : here = other ∧ b = b' := by
  cases first with
  | root =>
    generalize same : ([] : List String) = path at second
    cases second with
    | root => exact ⟨rfl, rfl⟩
    | join member => exact absurd same.symm (h.path_ne_nil _ member)
  | @join i hi =>
    generalize same : i.path = path at second
    cases second with
    | root => exact absurd same (h.path_ne_nil _ hi)
    | @join j hj =>
      obtain rfl := h.eq_of_path i hi j hj same
      exact ⟨rfl, rfl⟩

/-- Whether a place is behind a left join shows in the join at the end of its path. -/
theorem behindLeft_eq {p : Progress} (h : Chained m root start n p.joins) {walked : List String}
    {here : Occurrence} {b : Bool} (place : LeadsTo root p.joins walked here b) :
    (p.joinAt walked).any (fun j => decide (j.join.kind = .left)) = b := by
  cases place with
  | root =>
    cases found : p.joinAt [] with
    | none => rfl
    | some j =>
      have ⟨member, empty⟩ := h.joinAt_eq_some_iff.1 found
      exact absurd empty (h.path_ne_nil j member)
  | join member => rw [h.joinAt_eq_some_iff.2 ⟨member, rfl⟩]; rfl

/-- Every join follows a relationship on from a place. -/
theorem followed (h : Chained m root start n joins) : ∀ j ∈ joins,
    ∃ walked here b parent relationship l number, LeadsTo root joins walked here b ∧
      m.findResource here.resource = .ok parent ∧ m.Declares parent relationship l ∧
      j.path = walked ++ [relationship] ∧ j.resource = l.target.name ∧
      j.join = l.join here b number := by
  induction h with
  | nil => simp
  | @snoc _ joins walked here b parent relationship l number _ _ _ place found declared _ _ _ ih =>
    intro j member
    rcases List.mem_append.1 member with member | member
    · obtain ⟨walked, here, b, parent, relationship, l, number, place, rest⟩ := ih j member
      exact ⟨walked, here, b, parent, relationship, l, number, place.append _, rest⟩
    · obtain rfl := List.mem_singleton.1 member
      exact ⟨walked, here, b, parent, relationship, l, number, place.append _, found, declared,
        rfl, rfl, rfl⟩

/-- What was joined at the end of a path is the target of its last relationship. -/
theorem link_of_joinAt {p : Progress} (h : Chained m root start n p.joins) {walked : List String}
    {here : Occurrence} {b : Bool} {type : Resource} {relationship : String} {j : PathJoin}
    (place : LeadsTo root p.joins walked here b) (found : m.findResource here.resource = .ok type)
    (joined : p.joinAt (walked ++ [relationship]) = some j) :
    ∃ l, m.Declares type relationship l ∧ j.resource = l.target.name := by
  obtain ⟨member, path⟩ := h.joinAt_eq_some_iff.1 joined
  obtain ⟨_, _, _, _, _, l, _, other, named, declared, path', resource, -⟩ := h.followed j member
  obtain ⟨rfl, last⟩ := List.append_inj' (path.symm.trans path') rfl
  obtain rfl := List.singleton_inj.1 last
  obtain ⟨rfl, -⟩ := h.leadsTo_unique place other
  obtain rfl := Except.ok.inj (found.symm.trans named)
  exact ⟨l, declared, resource⟩

/-- The type of the resources at a place is found by walking there. -/
theorem walk_place (h : Chained m root start n joins) {r : Resource}
    (named : m.findResource root.resource = .ok r) {walked : List String} {here : Occurrence}
    {b : Bool} (place : LeadsTo root joins walked here b) :
    ∃ there, m.walk true r walked = .ok there ∧ m.findResource here.resource = .ok there := by
  induction h generalizing walked here b with
  | nil =>
    cases place with
    | root => exact ⟨r, rfl, named⟩
    | join member => cases member
  | snoc _ before found declared _ _ _ ih =>
    rcases place.of_concat with old | ⟨rfl, rfl, rfl⟩
    · exact ih old
    · obtain ⟨there, walk, known⟩ := ih before
      obtain rfl := Except.ok.inj (found.symm.trans known)
      refine ⟨_, ?_, declared.target_found⟩
      rw [Metadata.walk_append, walk]
      exact Metadata.walk_singleton ((Metadata.hop_eq_ok_iff declared.found).2 ⟨declared, .inl rfl⟩)

/-- No path is joined twice. -/
theorem nodup_paths (h : Chained m root start n joins) : (joins.map (·.path)).Nodup := by
  induction h with
  | nil => exact List.nodup_nil
  | snoc _ _ _ _ new _ _ ih =>
    rw [List.map_append]
    refine List.nodup_append.2 ⟨ih, by simp, ?_⟩
    intro path member other last same
    obtain ⟨j, joined, rfl⟩ := List.mem_map.1 member
    rw [List.map_singleton] at last
    exact new j joined (same.trans (List.mem_singleton.1 last))

/-- Whether joins are included does not matter. -/
theorem map_marks {f : PathJoin → PathJoin} (same : ∀ j, (f j).core = j.core)
    (h : Chained m root start n joins) : Chained m root start n (joins.map f) := by
  induction h with
  | nil below => exact .nil below
  | @snoc _ joins walked here b _ relationship l number _ included _ place found declared new
      above below ih =>
    rw [List.map_append]
    have place : LeadsTo root (joins.map f) walked here b := place.of_core fun j member =>
      ⟨f j, List.mem_map_of_mem member, same j⟩
    have entry := PathJoin.eq_of_core
      (same ⟨walked ++ [relationship], l.target.name, l.join here b number, included⟩)
    rw [List.map_singleton, entry]
    refine .snoc ih place found declared (fun j member => ?_) above below
    obtain ⟨i, hi, rfl⟩ := List.mem_map.1 member
    rw [PathJoin.path_eq (same i)]
    exact new i hi

end Chained

/-- The joins of a scope are chained, and the root has the alias with a number below theirs. -/
theorem linked_iff {m : Metadata} {root : Occurrence} {n : Nat} {joins : List PathJoin} :
    Linked m root n joins ↔
      ∃ start, root.aliasName = some (tableAlias start) ∧ Chained m root start n joins := by
  constructor
  · intro h
    induction h with
    | nil named below => exact ⟨_, named, .nil below⟩
    | snoc _ place found declared new above below ih =>
      obtain ⟨start, named, chained⟩ := ih
      exact ⟨start, named, .snoc chained place found declared new above below⟩
  · rintro ⟨start, named, h⟩
    induction h with
    | nil below => exact .nil named below
    | snoc _ place found declared new above below ih =>
      exact .snoc ih place found declared new above below

namespace Linked

variable {m : Metadata} {root : Occurrence} {n : Nat} {joins : List PathJoin}

theorem chained (h : Linked m root n joins) : Chained m root 0 n joins := by
  obtain ⟨start, -, chained⟩ := linked_iff.1 h
  exact chained.of_start_le (Nat.zero_le _)

theorem mono (h : Linked m root n joins) {bound : Nat} (le : n ≤ bound) :
    Linked m root bound joins := by
  obtain ⟨start, named, chained⟩ := linked_iff.1 h
  exact linked_iff.2 ⟨start, named, chained.mono le⟩

/-- The number of the root is below those of all joins. -/
theorem numbered (h : Linked m root n joins) :
    ∃ k, root.aliasName = some (tableAlias k) ∧ k ≤ n ∧
      ∀ j ∈ joins, ∃ i, j.aliasName = some (tableAlias i) ∧ k < i ∧ i ≤ n := by
  obtain ⟨start, named, chained⟩ := linked_iff.1 h
  exact ⟨start, named, chained.start_le, chained.numbered⟩

theorem numbered_place (h : Linked m root n joins) {walked : List String} {here : Occurrence}
    {b : Bool} (place : LeadsTo root joins walked here b) :
    ∃ k, here.aliasName = some (tableAlias k) ∧ k ≤ n := by
  obtain ⟨k, named, le, each⟩ := h.numbered
  cases place with
  | root => exact ⟨k, named, le⟩
  | join member =>
    obtain ⟨i, named, -, le⟩ := each _ member
    exact ⟨i, named, le⟩

/-- Whether joins are included does not matter. -/
theorem map_marks {f : PathJoin → PathJoin} (same : ∀ j, (f j).core = j.core)
    (h : Linked m root n joins) : Linked m root n (joins.map f) := by
  obtain ⟨start, named, chained⟩ := linked_iff.1 h
  exact linked_iff.2 ⟨start, named, chained.map_marks same⟩

end Linked

end ResourceSql
