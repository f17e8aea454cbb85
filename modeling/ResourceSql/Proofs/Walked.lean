/-
The joins of a scope in closed form. Whatever calls are made in a scope, its joins are
those of the places that were visited: the table of a path is joined when it is first
visited, behind those of the shorter paths, on the columns of the last relationship of
the path, and it is read along if a visit said so (`Call.joins_makeAll`). So the joins
do not depend on which of the calls came to a place first, or on what for.
-/
import ResourceSql.Proofs.Calls

namespace ResourceSql

/-- Every relationship on a path has a foreign key at its left side that is not nullable. -/
def Metadata.Required (m : Metadata) (r : Resource) (path : List String) : Prop :=
  ∀ walked relationship parent, walked ++ [relationship] <+: path →
    m.walk true r walked = .ok parent → ∃ d, parent.type.relationships.get? relationship = some d ∧
      d.foreignKey.atLeftSide = true ∧ d.foreignKey.nullable = false

/-- A join follows the last relationship of its path. The table of the resources at the end of the
path is joined to that of the place before, on the columns of the relationship, and by an inner join
if no row on the path can be missing. -/
structure PathJoin.Follows (m : Metadata) (root : Occurrence) (r : Resource) (joins : List PathJoin)
    (j : PathJoin) (walked : List String) (relationship : String) (here : Occurrence) (l : Link) :
    Prop where
  path : j.path = walked ++ [relationship]
  place : ∃ behindLeft, LeadsTo root joins walked here behindLeft
  declared : ∃ parent, m.walk true r walked = .ok parent ∧ m.Declares parent relationship l
  reached : m.walk true r j.path = .ok l.target
  resource : j.resource = l.target.name
  table : j.join.table = l.target.table j.aliasName
  outer : j.join.outer = here.column l.outer l.outerRole
  inner : j.join.inner = j.join.table.column l.inner l.innerRole
  kind : j.join.kind = .inner ↔ m.Required r j.path

/-- What the joins of a scope are after visits, if the aliases between two numbers were given out
meanwhile. -/
structure Walked (m : Metadata) (root : Occurrence) (first last : Nat) (visits : List Visit)
    (joins : List PathJoin) : Prop where
  /-- The visited paths are joined, in the order of the first visits. -/
  paths : joins.map (·.path) = (visits.map Visit.path).eraseDups
  nonempty : ∀ j ∈ joins, j.path ≠ []
  distinct : (joins.map (·.path)).Nodup
  /-- Shorter paths are joined before. -/
  closed : ∀ before path after, joins.map (·.path) = before ++ path :: after →
    ∀ shorter, shorter ≠ [] → shorter <+: path → shorter ≠ path → shorter ∈ before
  /-- No alias was given out before, or is given twice. -/
  aliases : ∃ numbers : List Nat, joins.map (·.aliasName) = numbers.map (some ∘ tableAlias) ∧
    numbers.Pairwise (· < ·) ∧ ∀ n ∈ numbers, first < n ∧ n ≤ last
  follows : ∀ j ∈ joins, ∃ r walked relationship here l, m.findResource root.resource = .ok r ∧
    j.Follows m root r joins walked relationship here l
  included : ∀ j ∈ joins, j.included = true ↔ ⟨j.path, true⟩ ∈ visits

section

variable {m : Metadata} {root : Occurrence} {r : Resource} {start n : Nat} {joins : List PathJoin}

namespace Metadata

theorem required_nil : m.Required r [] := by
  intro walked relationship _ isPrefix
  simp at isPrefix

theorem required_concat {walked : List String} {relationship : String} {parent : Resource}
    {l : Link} (walk : m.walk true r walked = .ok parent)
    (declared : m.Declares parent relationship l) :
    m.Required r (walked ++ [relationship]) ↔
      m.Required r walked ∧ l.key.joinKind = .inner := by
  obtain ⟨d, target, found, -, key⟩ := ForeignKey.resolve_eq_ok.1 declared.key
  have kind : l.key.joinKind = .inner ↔
      d.foreignKey.atLeftSide = true ∧ d.foreignKey.nullable = false := by
    rw [key]
    simp [ForeignKey.joinKind]
  constructor
  · intro required
    refine ⟨fun shorter next there isPrefix => ?_, kind.2 ?_⟩
    · exact required shorter next there (isPrefix.trans (List.prefix_append _ _))
    · obtain ⟨other, same, fine⟩ := required walked relationship parent (List.prefix_refl _) walk
      obtain rfl := Option.some.inj (found.symm.trans same)
      exact fine
  · rintro ⟨required, inner⟩ shorter next there isPrefix walk'
    rcases List.prefix_concat_iff.1 isPrefix with same | isPrefix
    · obtain ⟨rfl, last⟩ := List.append_inj' same rfl
      obtain rfl := List.singleton_inj.1 last
      obtain rfl := Except.ok.inj (walk.symm.trans walk')
      exact ⟨d, found, kind.1 inner⟩
    · exact required shorter next there isPrefix walk'

end Metadata

namespace Chained

theorem closed (h : Chained m root start n joins) :
    ∀ before path after, joins.map (·.path) = before ++ path :: after →
      ∀ shorter, shorter ≠ [] → shorter <+: path → shorter ≠ path → shorter ∈ before := by
  induction h with
  | nil => simp
  | @snoc _ joins walked _ _ _ relationship _ _ _ _ _ place _ _ _ _ _ ih =>
    intro before path after split shorter some isPrefix proper
    rw [List.map_append, List.map_singleton] at split
    rcases List.eq_nil_or_concat after with rfl | ⟨after, last, rfl⟩
    · obtain ⟨rfl, here⟩ := List.append_inj' split rfl
      obtain rfl := List.singleton_inj.1 here
      rcases List.prefix_concat_iff.1 isPrefix with same | short
      · exact absurd same proper
      · cases place with
        | root => exact absurd (List.prefix_nil.1 short) some
        | @join i member =>
          have joined : i.path ∈ joins.map (·.path) := List.mem_map_of_mem member
          by_cases same : shorter = i.path
          · exact same ▸ joined
          · obtain ⟨before, after, split⟩ := List.append_of_mem joined
            rw [split]
            exact List.mem_append_left _ (ih before i.path after split shorter some short same)
    · rw [List.concat_eq_append, ← List.cons_append, ← List.append_assoc] at split
      obtain ⟨split, -⟩ := List.append_inj' split rfl
      exact ih before path after split shorter some isPrefix proper

theorem aliases (h : Chained m root start n joins) :
    ∃ numbers : List Nat, joins.map (·.aliasName) = numbers.map (some ∘ tableAlias) ∧
      numbers.Pairwise (· < ·) ∧ ∀ i ∈ numbers, start < i ∧ i ≤ n := by
  induction h with
  | nil => exact ⟨[], rfl, .nil, by simp⟩
  | @snoc n _ _ _ _ _ _ _ number bound _ chained _ _ _ _ above below ih =>
    obtain ⟨numbers, same, increasing, between⟩ := ih
    have le := chained.start_le
    refine ⟨numbers ++ [number], ?_, ?_, fun i member => ?_⟩
    · rw [List.map_append, same, List.map_append]
      rfl
    · refine List.pairwise_append.2 ⟨increasing, List.pairwise_singleton _ _, ?_⟩
      intro i member j last
      obtain rfl := List.mem_singleton.1 last
      have := (between i member).2
      omega
    · rcases List.mem_append.1 member with member | member
      · have := between i member
        omega
      · obtain rfl := List.mem_singleton.1 member
        omega

/-- A table is joined by an inner join if none of the rows on its path can be missing. -/
theorem kind (h : Chained m root start n joins) (named : m.findResource root.resource = .ok r) :
    ∀ j ∈ joins, j.join.kind = .inner ↔ m.Required r j.path := by
  induction h with
  | nil => simp
  | @snoc _ joins walked here b parent relationship l number _ _ chained place found declared _ _ _
      ih =>
    intro j member
    rcases List.mem_append.1 member with member | member
    · exact ih j member
    · obtain rfl := List.mem_singleton.1 member
      obtain ⟨there, walk, known⟩ := chained.walk_place named place
      obtain rfl := Except.ok.inj (found.symm.trans known)
      have before : b = false ↔ m.Required r walked := by
        cases place with
        | root => exact iff_of_true rfl Metadata.required_nil
        | @join i joined =>
          rw [← ih i joined]
          cases i.join.kind <;> simp
      rw [Metadata.required_concat walk declared, ← before]
      cases b <;> simp [Link.join]

theorem follows (h : Chained m root start n joins)
    (named : m.findResource root.resource = .ok r) : ∀ j ∈ joins,
      ∃ walked relationship here l, j.Follows m root r joins walked relationship here l := by
  intro j member
  obtain ⟨walked, here, b, parent, relationship, l, number, place, found, declared, path, resource,
    join⟩ := h.followed j member
  obtain ⟨there, walk, known⟩ := h.walk_place named place
  obtain rfl := Except.ok.inj (found.symm.trans known)
  obtain ⟨target, reached, known⟩ := h.walk_place named (.join member)
  rw [PathJoin.occurrence, resource, declared.target_found] at known
  obtain rfl := Except.ok.inj known
  refine ⟨walked, relationship, here, l, path, ⟨b, place⟩, ⟨parent, walk, declared⟩, reached,
    resource, ?_, ?_, ?_, h.kind named j member⟩
  · rw [PathJoin.aliasName, join]
    rfl
  · rw [join]
    rfl
  · rw [join]
    rfl

end Chained

end

/-- **The joins of a scope are the walked paths.** -/
theorem Call.joins_makeAll (c : Context) (root : Occurrence) (calls : List Call) {p : Progress}
    (remembers : p.Remembers c.metadata) :
    let q := Call.makeAll c root { p with joins := [] } calls
    Walked c.metadata root p.tables q.tables (c.metadata.visitsOf root.resource calls) q.joins := by
  have opened : Toured c.metadata ⟨root, p.tables, p.tables, []⟩ { p with joins := [] } :=
    .opened remembers (Nat.le_refl _) (Nat.le_refl _)
  have toured := toured_makeAll opened calls
  have chained := toured.chained
  refine ⟨toured.paths, chained.path_ne_nil, chained.nodup_paths, chained.closed, chained.aliases,
    fun j member => ?_, toured.included⟩
  cases named : c.metadata.findResource root.resource with
  | ok r =>
    obtain ⟨walked, relationship, here, l, follows⟩ := chained.follows named j member
    exact ⟨r, walked, relationship, here, l, rfl, follows⟩
  | error e =>
    have path : j.path ∈ Progress.paths (makeAll c root { p with joins := [] } calls) :=
      List.mem_map_of_mem member
    rw [toured.paths, Metadata.visitsOf, named] at path
    cases path

namespace Sample

/-- Calls about books, of which the first one fails behind its first hop. -/
def calls : List Call :=
  [.field ["sequel", "prequels", "title"], .walk .toIncluded ["sequel", "prequels"], .filter filter]

theorem visitsOf_calls : context.metadata.visitsOf "book" calls =
    [⟨["sequel"], false⟩, ⟨["sequel"], true⟩, ⟨["sequel", "prequels"], true⟩,
      ⟨["sequel"], false⟩] :=
  rfl

end Sample

/-- The sequels are joined for the first call, and read along because of the second one. -/
theorem Call.joins_makeAll_books : ∃ q : Progress,
    q = makeAll Sample.context ⟨"book", .table Sample.books⟩ ⟨1, 0, some [], []⟩ Sample.calls ∧
      q.joins.map (·.path) = [["sequel"], ["sequel", "prequels"]] ∧
      ∀ j ∈ q.joins, j.path = ["sequel"] → j.included = true := by
  have walked := joins_makeAll Sample.context ⟨"book", .table Sample.books⟩ Sample.calls
    (Progress.Remembers.of_empty (p := ⟨1, 0, some [], []⟩) rfl)
  refine ⟨_, rfl, walked.paths.trans ?_, fun j member path => (walked.included j member).2 ?_⟩
  · rw [Sample.visitsOf_calls]
    rfl
  · rw [Sample.visitsOf_calls, path]
    decide

end ResourceSql
