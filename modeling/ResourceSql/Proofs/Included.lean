/-
What is read along. Walking the paths of a query joins a table for each of their
prefixes, in the order in which the paths first come by (`paths_includePaths`), and
steps that include nothing join further tables behind these (`Later.appended`). So
the columns of the rows are known from the type of the root and the paths alone
(`names_columnsRead`).
-/
import Mathlib.Data.List.Infix
import ResourceSql.Proofs.Runs

namespace ResourceSql

/-! ## Paths that were walked -/

/-- The paths that were walked, in the order of joining. -/
def Progress.paths (p : Progress) : List (List String) := p.joins.map (·.path)

/-- The non-empty prefixes of paths, each of them where it is met first. -/
def placesAlong (paths : List (List String)) : List (List String) :=
  (paths.flatMap fun path => path.inits.tail).eraseDups

theorem eraseDups_concat {α : Type} [DecidableEq α] [BEq α] [LawfulBEq α] (as : List α) (a : α) :
    (as ++ [a]).eraseDups = if a ∈ as then as.eraseDups else as.eraseDups ++ [a] := by
  rw [List.eraseDups_append]
  by_cases member : a ∈ as
  · simp [List.removeAll, member]
  · simp [List.removeAll, member, List.eraseDups_cons]

namespace Progress

variable {p q : Progress} {path : List String}

theorem mem_paths_of_joinAt {j : PathJoin} (joined : p.joinAt path = some j) : path ∈ p.paths := by
  have here : j.path = path := by simpa using List.find?_some joined
  exact List.mem_map.2 ⟨j, List.mem_of_find?_eq_some joined, here⟩

theorem not_mem_paths_of_joinAt (absent : p.joinAt path = none) : path ∉ p.paths := by
  intro member
  obtain ⟨j, joined, here⟩ := List.mem_map.1 member
  simpa [here] using List.find?_eq_none.1 absent j joined

/-- Joins that are included are the same joins. -/
theorem paths_includeJoin {a : Unit} (run : Compile.includeJoin path p = .ok a q) :
    q.paths = p.paths := by
  cases run
  simp only [paths, List.map_map]
  refine List.map_congr_left fun i _ => ?_
  simp only [Function.comp_apply]
  split <;> rfl

end Progress

namespace Compile

section

variable {c : Context} {root here next : Occurrence} {p q : Progress} {walk : Walk}
  {walked path : List String} {visited : List (List String)}

/-- Following a relationship joins a table, unless the path was walked before. -/
theorem paths_follow {relationship : String} (before : p.paths = visited.eraseDups)
    (run : follow c walk walked here relationship p = .ok next q) :
    q.paths = (visited ++ [walked ++ [relationship]]).eraseDups := by
  obtain ⟨parent, key, p₁, looked, rest⟩ := follow_run run
  have same : p₁.paths = visited.eraseDups := by
    rw [foreignKey_run looked]
    exact before
  rw [eraseDups_concat]
  rcases rest with ⟨⟨j, joined⟩, rest⟩ | ⟨absent, a, p₂, j, fresh, -, path, rfl⟩
  · have member := Progress.mem_paths_of_joinAt joined
    rw [same, List.mem_eraseDups] at member
    rw [if_pos member, ← same]
    rcases rest with rfl | marked
    · rfl
    · exact Progress.paths_includeJoin marked
  · have new := Progress.not_mem_paths_of_joinAt absent
    rw [same, List.mem_eraseDups] at new
    rw [if_neg new, ← same]
    cases fresh
    rw [Progress.paths, List.map_append, List.map_singleton, path]
    rfl

/-- A walk joins the tables at the ends of all longer paths on its way. -/
theorem paths_walkOn (before : p.paths = visited.eraseDups)
    (run : walkOn c walk walked here path p = .ok next q) :
    q.paths = (visited ++ path.inits.tail.map (walked ++ ·)).eraseDups := by
  induction path generalizing walked here p visited with
  | nil =>
    cases run
    rw [before]
    simp
  | cons relationship rest ih =>
    obtain ⟨there, p₁, step, run⟩ := bind_eq_ok.1 run
    rw [ih (paths_follow before step) run]
    have longer : (relationship :: rest).inits.tail.map (walked ++ ·) =
        (walked ++ [relationship]) :: rest.inits.tail.map (walked ++ [relationship] ++ ·) := by
      cases rest <;> simp
    rw [longer, List.append_assoc, List.singleton_append]

/-- Reading along, the tables at the ends of all prefixes of the paths are joined. -/
theorem paths_includePaths {paths : List (List String)} (before : p.paths = visited.eraseDups)
    (run : includePaths c root paths p = .ok () q) :
    q.paths = (visited ++ paths.flatMap fun path => path.inits.tail).eraseDups := by
  induction paths generalizing p visited with
  | nil =>
    cases run
    rw [before]
    simp
  | cons path paths ih =>
    obtain ⟨there, p₁, walked, run⟩ := bind_eq_ok.1 run
    rw [ih (paths_walkOn before walked) run]
    simp

end

end Compile

/-! ## Joins behind others -/

/-- Joins of tables that are not read along. -/
def Unread : List String → Bool → Prop := fun _ included => included = false

theorem Compile.FitsFields.unread (c : Context) (r : Resource) : FitsFields c r Unread :=
  fun _ _ _ => rfl

section

variable {c : Context} {m : Metadata} {root : Occurrence} {r : Resource} {p q : Progress} {n : Nat}
  {joins : List PathJoin}

/-- Steps that include nothing leave the joins as they are, and join further ones behind them. -/
theorem Later.appended (later : Later Unread p q) (sound : Sound c root r p)
    (sound' : Sound c root r q) :
    ∃ more, q.joins = p.joins ++ more ∧ ∀ j ∈ more, j.included = false := by
  obtain ⟨mark, more, marks, same⟩ := later.grown
  -- A join that is included keeps its mark, and no other one is given a mark.
  have unmarked : ∀ j ∈ p.joins, mark j = j := by
    intro j member
    have path := PathJoin.path_eq (marks.core j)
    rcases later.fit (mark j) (same ▸ List.mem_append_left _ (List.mem_map_of_mem member)) with
      old | excluded
    · exact sound.linked.chained.eq_of_path _ old j member path
    · have excluded : (mark j).included = false := excluded
      have before : j.included = false := by
        cases given : j.included with
        | false => rfl
        | true => exact absurd (marks.included j given) (by simp [excluded])
      rw [PathJoin.eq_of_core (marks.core j), excluded, ← before]
  have front : p.joins.map mark = p.joins := by
    rw [List.map_congr_left unmarked, List.map_id']
  have distinct := sound'.linked.chained.nodup_paths
  rw [same, front, List.map_append] at distinct
  refine ⟨more, by rw [same, front], fun j member => ?_⟩
  rcases later.fit j (same ▸ List.mem_append_right _ member) with old | excluded
  · have here := List.mem_map_of_mem (f := PathJoin.path) old
    exact absurd rfl ((List.nodup_append.1 distinct).2.2 _ here _ (List.mem_map_of_mem member))
  · exact excluded

/-! ## Columns of rows -/

namespace Metadata

variable (m) (fields : NameMap (List String))

/-- The columns that are read of the resources at the ends of paths, by name. -/
def namesAt (r : Resource) : List (List String) → Except RequestError (List String)
  | [] => .ok []
  | path :: paths => do
    let there ← m.walk true r path
    let attributes ← there.selectedAttributes (fields.get? there.name)
    let others ← namesAt r paths
    return attributes.map (·.column) ++ others

/-- The columns of the rows of a query, by name: those of the root, and then those of all that is
read along. -/
def rowNames (r : Resource) (includes : List (List String)) : Except RequestError (List String) := do
  Compile.checkResources m fields.names
  m.namesAt fields r ([] :: placesAlong includes)

end Metadata

namespace Compile

open Sql

variable (fields : NameMap (List String)) {includes : List (List String)} {t : Progress}

theorem names_columnsOfAll
    (linked : Linked c.metadata root n joins) (named : c.metadata.findResource root.resource = .ok r)
    (places : List (List String × Occurrence))
    (lead : ∀ x ∈ places, ∃ b, LeadsTo root joins x.1 x.2 b) :
    (columnsOfAll c fields (places.map (·.2))).map (·.map Column.name) =
      c.metadata.namesAt fields r (places.map (·.1)) := by
  induction places with
  | nil => rfl
  | cons place places ih =>
    obtain ⟨⟨b, first⟩, others⟩ := List.forall_mem_cons.1 lead
    obtain ⟨there, walk, known⟩ := linked.chained.walk_place named first
    rw [List.map_cons, List.map_cons, Metadata.namesAt, walk, ← ih others, columnsOfAll, columnsOf,
      known]
    cases selected : there.selectedAttributes (fields.get? there.name) with
    | error e => simp [selected, bind, Except.bind, Except.map]
    | ok attributes =>
      cases columnsOfAll c fields (places.map (·.2)) with
      | error e => simp [selected, bind, Except.bind, Except.map, pure, Except.pure]
      | ok columns =>
        simp [selected, bind, Except.bind, Except.map, pure, Except.pure, Function.comp_def]

/-- What is included is what was read along, whatever was joined behind it. -/
theorem paths_included (sound : Sound c root r { p with joins := [] })
    (run : includePaths c root includes { p with joins := [] } = .ok () q)
    (later : Later Unread q t) (sound' : Sound c root r t) :
    (t.joins.filter (·.included)).map (·.path) = placesAlong includes := by
  have kept : Keeps c root r (fun _ included => included = true) { p with joins := [] } _ _ _ :=
    keeps_includePaths includes sound fun _ _ _ _ _ _ => rfl
  obtain ⟨opened, only, -⟩ := kept.of_ok run
  obtain ⟨more, same, excluded⟩ := later.appended opened sound'
  have front : q.joins.filter (·.included) = q.joins := List.filter_eq_self.2 only.all_fit
  have back : more.filter (·.included) = [] :=
    List.filter_eq_nil_iff.2 fun j member => by simp [excluded j member]
  have start : Progress.paths { p with joins := [] } = ([] : List (List String)).eraseDups := rfl
  rw [same, List.filter_append, front, back, List.append_nil]
  exact paths_includePaths start run

/-- The columns of the rows of a query depend on the type of the root, on what is read along, and on
the fields that are asked for. -/
theorem names_columnsRead (sound : Sound c root r { p with joins := [] })
    (run : includePaths c root includes { p with joins := [] } = .ok () q)
    (later : Later Unread q t) (sound' : Sound c root r t) :
    (columnsRead c fields root t.joins).map (·.map Column.name) =
      c.metadata.rowNames fields r includes := by
  have included := paths_included sound run later sound'
  let places := ([], root) :: (t.joins.filter (·.included)).map fun j => (j.path, j.occurrence)
  have lead : ∀ x ∈ places, ∃ b, LeadsTo root t.joins x.1 x.2 b := by
    refine List.forall_mem_cons.2 ⟨⟨false, .root⟩, fun x member => ?_⟩
    obtain ⟨j, given, rfl⟩ := List.mem_map.1 member
    exact ⟨_, .join (List.mem_filter.1 given).1⟩
  have names := names_columnsOfAll fields sound'.linked sound'.named places lead
  simp only [places, List.map_cons, List.map_map, Function.comp_def, included] at names
  unfold columnsRead Metadata.rowNames
  cases checkResources c.metadata fields.names with
  | error e => rfl
  | ok _ => exact names

end Compile

end

end ResourceSql
