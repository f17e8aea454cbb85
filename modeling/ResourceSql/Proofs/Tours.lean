/-
Steps of a compilation in a scope with any root. A scope is toured if its joins are
those of the visits that were paid, in the order of the first visits (`Toured`). A
step that is taken after some visits, also one that fails, pays the visits that the
metadata say, and fails exactly if they say so (`Tours`); this composes over
sequences of steps (`Tours.bind`). Unlike `Keeps`, nothing is asked of the alias of
the root, and nothing is said about rows.
-/
import ResourceSql.Proofs.Included
import ResourceSql.Proofs.Visits

namespace ResourceSql

/-- A tour of a scope: its root, how many aliases were given out when it was opened, how many at
least since then, and the visits that were paid. -/
structure Tour where
  root : Occurrence
  start : Nat
  least : Nat
  visits : List Visit

namespace Tour

/-- The tour after further visits. -/
def pay (t : Tour) (visits : List Visit) : Tour := { t with visits := t.visits ++ visits }

@[simp] theorem visits_pay (t : Tour) (visits : List Visit) :
    (t.pay visits).visits = t.visits ++ visits := rfl

@[simp] theorem pay_nil (t : Tour) : t.pay [] = t := by
  rw [pay, List.append_nil]

@[simp] theorem pay_pay (t : Tour) (first second : List Visit) :
    (t.pay first).pay second = t.pay (first ++ second) := by
  simp only [pay, List.append_assoc]

end Tour

/-- The progress in a scope after a tour. The aliases of its joins were given out since it was
opened. -/
structure Toured (m : Metadata) (t : Tour) (p : Progress) : Prop where
  remembers : p.Remembers m
  room : t.least ≤ p.tables
  chained : Chained m t.root t.start p.tables p.joins
  paths : p.paths = (t.visits.map Visit.path).eraseDups
  included : ∀ j ∈ p.joins, j.included = true ↔ ⟨j.path, true⟩ ∈ t.visits

/-- A step after a tour agrees with what is expected of it by the metadata: it pays visits, and
fails with the expected error or gives what is `good` beside the expected result. -/
def Tours (m : Metadata) (t : Tour) {α β : Type} (expected : Except RequestError β)
    (visits : List Visit) (good : β → α → Progress → Prop) :
    EStateM.Result RequestError Progress α → Prop
  | .ok a q => Toured m (t.pay visits) q ∧ ∃ b, expected = .ok b ∧ good b a q
  | .error e q => Toured m (t.pay visits) q ∧ expected = .error e

section

variable {c : Context} {m : Metadata} {t : Tour} {visits : List Visit}
  {p q : Progress} {α β α' β' : Type}

/-- What is not remembered is not remembered wrongly. -/
theorem Progress.Remembers.of_empty (empty : p.memory = some []) : p.Remembers m := by
  intro memory remembered _ _ _ member
  rw [empty] at remembered
  cases remembered
  cases member

namespace Toured

/-- An empty scope, whatever was done elsewhere. -/
theorem opened {root : Occurrence} {start least : Nat} (remembers : p.Remembers m)
    (room : least ≤ p.tables) (le : start ≤ p.tables) :
    Toured m ⟨root, start, least, []⟩ { p with joins := [] } :=
  ⟨remembers, room, .nil le, rfl, by simp⟩

theorem of_joins_eq (h : Toured m t p) (remembers : q.Remembers m) (le : p.tables ≤ q.tables)
    (same : q.joins = p.joins) : Toured m t q := by
  refine ⟨remembers, Nat.le_trans h.room le, ?_, ?_, ?_⟩
  · rw [same]
    exact h.chained.mono le
  · rw [Progress.paths, same]
    exact h.paths
  · rw [same]
    exact h.included

theorem paths_again (h : Toured m t p) {path : List String} (joined : path ∈ p.paths)
    (included : Bool) :
    p.paths = ((t.visits ++ [Visit.mk path included]).map Visit.path).eraseDups := by
  rw [h.paths, List.mem_eraseDups] at joined
  rw [List.map_append, List.map_singleton, eraseDups_concat, if_pos joined]
  exact h.paths

/-- A visit to a table that was joined before. -/
theorem revisit (h : Toured m t p) {path : List String} (joined : path ∈ p.paths) :
    Toured m (t.pay [⟨path, false⟩]) p := by
  refine ⟨h.remembers, h.room, h.chained, h.paths_again joined false, fun j member => ?_⟩
  rw [h.included j member]
  simp

/-- A visit that selects the columns of a table that was joined before. -/
theorem select (h : Toured m t p) {path : List String} (joined : path ∈ p.paths) {a : Unit}
    (run : Compile.includeJoin path p = .ok a q) : Toured m (t.pay [⟨path, true⟩]) q := by
  have same := (Progress.paths_includeJoin run).trans (h.paths_again joined true)
  cases run
  refine ⟨h.remembers, h.room, ?_, same, fun j member => ?_⟩
  · refine h.chained.map_marks fun j => ?_
    split <;> rfl
  · obtain ⟨i, old, rfl⟩ := List.mem_map.1 member
    by_cases here : i.path = path
    · simp [here]
    · simp [here, h.included i old]

/-- A visit to a table that is joined for it. -/
theorem join (h : Toured m t p) {walked : List String} {here : Occurrence} {b : Bool}
    {type : Resource} {relationship : String} {l : Link}
    (place : LeadsTo t.root p.joins walked here b)
    (found : m.findResource here.resource = .ok type)
    (declared : m.Declares type relationship l)
    (new : ∀ j ∈ p.joins, j.path ≠ walked ++ [relationship]) (included : Bool) :
    let joined : PathJoin := ⟨walked ++ [relationship], l.target.name, l.join here b (p.tables + 1),
      included⟩
    Toured m (t.pay [⟨walked ++ [relationship], included⟩])
      { p with tables := p.tables + 1, joins := p.joins ++ [joined] } := by
  have unvisited : walked ++ [relationship] ∉ t.visits.map Visit.path := by
    rw [← List.mem_eraseDups, ← h.paths]
    intro joined
    obtain ⟨j, member, same⟩ := List.mem_map.1 joined
    exact new j member same
  refine ⟨h.remembers, Nat.le_succ_of_le h.room, ?_, ?_, fun j member => ?_⟩
  · exact .snoc h.chained place found declared new (Nat.lt_succ_self _) (Nat.le_refl _)
  · rw [Tour.visits_pay, List.map_append, List.map_singleton, eraseDups_concat, if_neg unvisited,
      ← h.paths]
    simp [Progress.paths]
  · rcases List.mem_append.1 member with member | member
    · rw [h.included j member]
      simp [new j member]
    · obtain rfl := List.mem_singleton.1 member
      have first : (⟨walked ++ [relationship], true⟩ : Visit) ∉ t.visits :=
        fun visited => unvisited (List.mem_map_of_mem visited)
      cases included <;> simp [first]

end Toured

namespace Tours

variable {expected : Except RequestError β} {good good' : β → α → Progress → Prop}

theorem toured {result : EStateM.Result RequestError Progress α}
    (h : Tours m t expected visits good result) :
    Toured m (t.pay visits) (.after result) := by
  cases result with
  | ok a q => exact h.1
  | error e q => exact h.1

theorem imp {result : EStateM.Result RequestError Progress α}
    (h : Tours m t expected visits good result)
    (next : ∀ b a q, good b a q → good' b a q) :
    Tours m t expected visits good' result := by
  cases result with
  | ok a q =>
    obtain ⟨toured, b, same, fine⟩ := h
    exact ⟨toured, b, same, next b a q fine⟩
  | error e q => exact h

/-- The visits of a step after others are paid after theirs. -/
theorem of_pay {more : List Visit} {result : EStateM.Result RequestError Progress α}
    (h : Tours m (t.pay visits) expected more good result) :
    Tours m t expected (visits ++ more) good result := by
  cases result with
  | ok a q =>
    obtain ⟨toured, fine⟩ := h
    rw [Tour.pay_pay] at toured
    exact ⟨toured, fine⟩
  | error e q =>
    obtain ⟨toured, same⟩ := h
    rw [Tour.pay_pay] at toured
    exact ⟨toured, same⟩

/-- A step that pays no visits. -/
theorem quiet (toured : Toured m t p) {a : α} {b : β} (fine : good b a p) :
    Tours m t (.ok b) [] good (.ok a p) := by
  refine ⟨?_, b, rfl, fine⟩
  rw [Tour.pay_nil]
  exact toured

theorem pure (toured : Toured m t p) {a : α} {b : β} (fine : good b a p) :
    Tours m t (Pure.pure b) [] good ((Pure.pure a : Compile α) p) :=
  quiet toured fine

theorem error (toured : Toured m t p) {e : RequestError} :
    Tours m t (.error e) [] good (.error e p) := by
  refine ⟨?_, rfl⟩
  rw [Tour.pay_nil]
  exact toured

theorem throw (toured : Toured m t p) {e : RequestError} :
    Tours m t (MonadExcept.throw e) [] good
      ((MonadExcept.throw e : Compile α) p) :=
  error toured

theorem ofExcept (toured : Toured m t p) (x : Except RequestError α) :
    Tours m t x [] (fun b a q => a = b ∧ q = p) (Compile.ofExcept x p) := by
  cases x with
  | ok a => exact quiet toured ⟨rfl, rfl⟩
  | error e => exact error toured

theorem bind {x : Compile α} {f : α → Compile α'} {f' : β → Except RequestError β'}
    {more : β → List Visit} {good' : β' → α' → Progress → Prop}
    (h : Tours m t expected visits good (x p))
    (next : ∀ b a q, Toured m (t.pay visits) q → expected = .ok b → good b a q →
      Tours m (t.pay visits) (f' b) (more b) good' (f a q)) :
    Tours m t (expected >>= f') (visits ++ onward expected more) good'
      ((x >>= f) p) := by
  show Tours m t _ _ good' (EStateM.bind x f p)
  unfold EStateM.bind
  cases result : x p with
  | ok a s =>
    rw [result] at h
    obtain ⟨toured, b, rfl, fine⟩ := h
    have rest := next b a s toured rfl fine
    exact rest.of_pay
  | error e s =>
    rw [result] at h
    obtain ⟨toured, rfl⟩ := h
    unfold Tours
    rw [onward_error, List.append_nil]
    exact ⟨toured, rfl⟩

/-- A step that pays no visits, before others. -/
theorem bind_quiet {x : Compile α} {f : α → Compile α'} {f' : β → Except RequestError β'}
    {more : β → List Visit} {good' : β' → α' → Progress → Prop}
    (h : Tours m t expected [] good (x p))
    (next : ∀ b a q, Toured m t q → expected = .ok b → good b a q →
      Tours m t (f' b) (more b) good' (f a q)) :
    Tours m t (expected >>= f') (onward expected more) good' ((x >>= f) p) := by
  show Tours m t _ ([] ++ onward expected more) good' _
  refine bind h fun b a q toured allowed fine => ?_
  rw [Tour.pay_nil] at toured ⊢
  exact next b a q toured allowed fine

/-- A step behind which no visits are paid. -/
theorem bind_last {x : Compile α} {f : α → Compile α'} {f' : β → Except RequestError β'}
    {good' : β' → α' → Progress → Prop}
    (h : Tours m t expected visits good (x p))
    (next : ∀ b a q, Toured m (t.pay visits) q → expected = .ok b → good b a q →
      Tours m (t.pay visits) (f' b) [] good' (f a q)) :
    Tours m t (expected >>= f') visits good' ((x >>= f) p) := by
  have both : Tours m t (expected >>= f') (visits ++ onward expected fun _ => []) good'
      ((x >>= f) p) := bind h next
  rw [onward_nil, List.append_nil] at both
  exact both

/-- Steps that pay no visits at all. -/
theorem bind_still {x : Compile α} {f : α → Compile α'} {f' : β → Except RequestError β'}
    {good' : β' → α' → Progress → Prop}
    (h : Tours m t expected [] good (x p))
    (next : ∀ b a q, Toured m t q → expected = .ok b → good b a q →
      Tours m t (f' b) [] good' (f a q)) :
    Tours m t (expected >>= f') [] good' ((x >>= f) p) := by
  have both : Tours m t (expected >>= f') (onward expected fun _ => []) good' ((x >>= f) p) :=
    bind_quiet h next
  rw [onward_nil] at both
  exact both

/-- A step that has no counterpart in what is expected. -/
theorem bind_silent {x : Compile α} {f : α → Compile α'} {after : α → Progress → Prop}
    {expected : Except RequestError β'} {good' : β' → α' → Progress → Prop}
    (h : Tours m t (.ok ()) [] (fun _ => after) (x p))
    (next : ∀ a q, Toured m t q → after a q →
      Tours m t expected visits good' (f a q)) :
    Tours m t expected visits good' ((x >>= f) p) :=
  show Tours m t (Except.ok () >>= fun _ => expected)
      (onward (.ok ()) fun _ => visits) good' _ from
    bind_quiet h fun _ a q toured _ => next a q toured

theorem map {x : Compile α} {f : α → α'} {good' : β → α' → Progress → Prop}
    (h : Tours m t expected visits good (x p))
    (next : ∀ b a q, good b a q → good' b (f a) q) :
    Tours m t expected visits good' ((x >>= fun a => Pure.pure (f a)) p) := by
  show Tours m t expected visits good' (EStateM.bind x _ p)
  unfold EStateM.bind
  cases result : x p with
  | ok a s =>
    rw [result] at h
    obtain ⟨toured, b, same, fine⟩ := h
    exact ⟨toured, b, same, next b a s fine⟩
  | error e s =>
    rw [result] at h
    exact h

theorem map_expected {result : EStateM.Result RequestError Progress α} {f : β → β'}
    {good' : β' → α → Progress → Prop} (h : Tours m t expected visits good result)
    (next : ∀ b a q, good b a q → good' (f b) a q) :
    Tours m t (expected >>= fun b => Pure.pure (f b)) visits good' result := by
  cases result with
  | ok a q =>
    obtain ⟨toured, b, rfl, fine⟩ := h
    exact ⟨toured, f b, rfl, next b a q fine⟩
  | error e q =>
    obtain ⟨toured, rfl⟩ := h
    exact ⟨toured, rfl⟩

/-- A refusal on both sides. -/
theorem guard {refused : Bool} {e : RequestError} {x : Compile α}
    (toured : Toured m t p)
    (next : refused = false → Tours m t expected [] good (x p)) :
    Tours m t
      (if refused = true then
          (MonadExcept.throw e : Except RequestError PUnit) >>= fun _ => expected
        else expected) [] good
      ((if refused = true then (MonadExcept.throw e : Compile PUnit) >>= fun _ => x else x) p) := by
  cases refused with
  | true => exact error toured
  | false => exact next rfl

end Tours

namespace Compile

variable {r : Resource}

/-! ## Walks -/

theorem tours_foreignKey {declaring : Resource} (toured : Toured c.metadata t p)
    (found : c.metadata.findResource declaring.name = .ok declaring) (relationship : String) :
    Tours c.metadata t (ForeignKey.resolve c.metadata declaring relationship) []
      (fun b a q => a = b ∧ q.joins = p.joins)
      (foreignKey c.metadata declaring relationship p) := by
  obtain ⟨memory, remembers, same⟩ := foreignKey_apply toured.remembers found relationship
  rw [same]
  cases ForeignKey.resolve c.metadata declaring relationship with
  | error e => exact .error toured
  | ok key => exact .quiet (toured.of_joins_eq remembers (Nat.le_refl _) rfl) ⟨rfl, rfl⟩

theorem tours_freshAlias (toured : Toured c.metadata t p) :
    Tours c.metadata t (.ok ()) [] (fun _ a q => a = tableAlias (p.tables + 1) ∧
      q = { p with tables := p.tables + 1 }) (freshAlias p) := by
  have later : Toured c.metadata t { p with tables := p.tables + 1 } :=
    toured.of_joins_eq toured.remembers (Nat.le_succ _) rfl
  exact .quiet later ⟨rfl, rfl⟩

theorem tours_bindValue (toured : Toured c.metadata t p) (value : Value) :
    Tours c.metadata t (.ok ()) [] (fun _ _ _ => True) (bindValue value p) := by
  have later : Toured c.metadata t { p with parameters := p.parameters + 1 } :=
    toured.of_joins_eq toured.remembers (Nat.le_refl _) rfl
  exact .quiet later trivial

/-- Following a relationship from a place visits the target of its link. -/
theorem tours_follow {walk : Walk} {walked : List String} {here : Occurrence} {b : Bool}
    {type : Resource} {relationship : String} (toured : Toured c.metadata t p)
    (place : LeadsTo t.root p.joins walked here b)
    (found : c.metadata.findResource here.resource = .ok type) :
    Tours c.metadata t (c.metadata.hop walk.toMany type relationship)
      (onward (c.metadata.hop walk.toMany type relationship) fun _ =>
        [⟨walked ++ [relationship], walk.included⟩])
      (fun l next q => c.metadata.findResource next.resource = .ok l.target ∧
        ∃ b, LeadsTo t.root q.joins (walked ++ [relationship]) next b)
      (follow c walk walked here relationship p) := by
  obtain ⟨q, remembers, le, same, done⟩ :=
    follow_cases toured.remembers toured.chained place found walk relationship
  have toured : Toured c.metadata t q := toured.of_joins_eq remembers le same
  generalize follow c walk walked here relationship p = result at done ⊢
  cases done with
  | refused hopped =>
    rw [hopped]
    exact .error toured
  | @joined l j hopped member path named =>
    have leads : LeadsTo t.root q.joins (walked ++ [relationship]) j.occurrence
        (decide (j.join.kind = .left)) := path ▸ .join member
    have visited : walked ++ [relationship] ∈ q.paths := path ▸ List.mem_map_of_mem member
    rw [hopped, onward_ok]
    cases included : walk.included with
    | true =>
      refine ⟨toured.select visited rfl, l, rfl, named, _, leads.of_core fun i member => ?_⟩
      refine ⟨_, List.mem_map_of_mem member, ?_⟩
      split <;> rfl
    | false => exact ⟨toured.revisit visited, l, rfl, named, _, leads⟩
  | @joins l joined hopped declared new made =>
    obtain rfl := made
    rw [← same] at place
    rw [hopped, onward_ok]
    exact ⟨toured.join place found declared new walk.included, l, rfl, declared.target_found, _,
      .join (List.mem_append_right _ (List.mem_singleton_self _))⟩

theorem tours_walkOn {walk : Walk} {walked rest : List String} {here : Occurrence} {b : Bool}
    {type : Resource} (toured : Toured c.metadata t p)
    (place : LeadsTo t.root p.joins walked here b)
    (found : c.metadata.findResource here.resource = .ok type) :
    Tours c.metadata t (c.metadata.walk walk.toMany type rest)
      (c.metadata.visitsOn walk walked type rest)
      (fun there next _ => c.metadata.findResource next.resource = .ok there)
      (walkOn c walk walked here rest p) := by
  induction rest generalizing walked here b type t p with
  | nil => exact .pure toured found
  | cons relationship rest ih =>
    have split : c.metadata.visitsOn walk walked type (relationship :: rest) =
        (onward (c.metadata.hop walk.toMany type relationship) fun _ =>
          [⟨walked ++ [relationship], walk.included⟩]) ++
        onward (c.metadata.hop walk.toMany type relationship) fun l =>
          c.metadata.visitsOn walk (walked ++ [relationship]) l.target rest := by
      rw [Metadata.visitsOn]
      cases c.metadata.hop walk.toMany type relationship <;> rfl
    rw [split]
    refine Tours.bind (tours_follow toured place found) ?_
    rintro l next q toured - ⟨named, b', place⟩
    exact ih toured place named

/-- A walk from the root visits the places on its path. -/
theorem tours_walkPath {walk : Walk} (toured : Toured c.metadata t p)
    (named : c.metadata.findResource t.root.resource = .ok r) (path : List String) :
    Tours c.metadata t (c.metadata.walk walk.toMany r path) (c.metadata.visits walk r path)
      (fun there next _ => c.metadata.findResource next.resource = .ok there)
      (walkPath c walk t.root path p) :=
  tours_walkOn toured .root named

theorem tours_leadsToMany {here : Resource} {path : List String}
    (toured : Toured c.metadata t p)
    (found : c.metadata.findResource here.name = .ok here) :
    Tours c.metadata t (c.metadata.checkToMany here path) [] (fun b a _ => a = b)
      (leadsToMany c here path p) := by
  induction path generalizing here p with
  | nil => exact .pure toured rfl
  | cons relationship rest ih =>
    refine Tours.bind_still (tours_foreignKey toured found relationship) ?_
    rintro _ key q toured resolved ⟨rfl, -⟩
    cases toOne : key.isToOne with
    | false => exact .pure toured rfl
    | true =>
      refine Tours.bind_still (.ofExcept toured _) ?_
      rintro _ target _ toured named ⟨rfl, rfl⟩
      exact ih toured (Metadata.findResource_self named)

theorem tours_anyLeadsToMany {here : Resource} (toured : Toured c.metadata t p)
    (found : c.metadata.findResource here.name = .ok here) (paths : List (List String)) :
    Tours c.metadata t (c.metadata.checkAnyToMany here paths) [] (fun b a _ => a = b)
      (anyLeadsToMany c here paths p) := by
  induction paths generalizing p with
  | nil => exact .pure toured rfl
  | cons path paths ih =>
    refine Tours.bind_still (tours_leadsToMany toured found) ?_
    rintro _ b q toured - rfl
    cases b with
    | true => exact .pure toured rfl
    | false => exact ih toured

/-! ## Fields and related resources -/

theorem tours_field (toured : Toured c.metadata t p)
    (named : c.metadata.findResource t.root.resource = .ok r) (path : List String) :
    Tours c.metadata t (c.metadata.fieldOf r path) (c.metadata.fieldVisits r path)
      (fun held found _ => found.2 = held) (field c t.root path p) := by
  unfold field Metadata.fieldOf Metadata.fieldVisits
  cases path.getLast? with
  | none => exact .throw toured
  | some name =>
    refine Tours.bind (tours_walkPath toured named path.dropLast) ?_
    intro type here q toured _ found
    rw [found, bind_ofExcept]
    cases type.type.attributes.get? name with
    | some held => exact .pure toured rfl
    | none =>
      cases declared : type.type.relationships.contains name with
      | false => exact .throw toured
      | true =>
        refine Tours.bind_last (tours_walkPath toured named path) ?_
        intro target related q toured _ found
        rw [found, bind_ofExcept]
        cases target.primaryKey with
        | error e => exact .error toured
        | ok primaryKey => exact .pure toured rfl

theorem tours_related (toured : Toured c.metadata t p)
    (named : c.metadata.findResource t.root.resource = .ok r) (path : List String) :
    Tours c.metadata t (c.metadata.relatedOf r path) (c.metadata.relatedVisits r path)
      (fun l opened _ => c.metadata.findResource opened.resource = .ok l.target)
      (related c t.root path p) := by
  unfold related Metadata.relatedOf Metadata.relatedVisits
  cases last : path.getLast? with
  | none =>
    obtain rfl := List.getLast?_eq_none_iff.1 last
    exact .throw toured
  | some relationship =>
    refine Tours.bind_last (tours_walkPath toured named path.dropLast) ?_
    intro type here q toured _ found
    rw [found, bind_ofExcept]
    have known := Metadata.findResource_self found
    refine Tours.bind_still (tours_foreignKey toured known relationship) ?_
    rintro _ key q toured resolved ⟨rfl, -⟩
    refine Tours.guard toured fun _ => ?_
    cases named : c.metadata.findResource key.target with
    | error e =>
      rw [Metadata.link_eq_error named]
      exact .error toured
    | ok target =>
      rw [bind_ofExcept]
      refine Tours.bind_silent (tours_freshAlias toured) ?_
      rintro _ s later ⟨rfl, rfl⟩
      dsimp only
      rw [Metadata.joinColumns_eq named]
      cases linked : c.metadata.link type key with
      | error e => exact .error later
      | ok l =>
        have declared := Metadata.declares_of_link known resolved linked
        obtain rfl := Metadata.target_of_link named linked
        exact .pure later declared.target_found

/-- What is done in a scope of its own pays no visits here. -/
theorem tours_inOwnScope {inner : Occurrence} {expected : Except RequestError β}
    {good : β → α → Progress → Prop} {x : Compile α} (toured : Toured c.metadata t p)
    (h : Tours c.metadata ⟨inner, p.tables, p.tables, []⟩ expected visits good
      (x { p with joins := [] })) :
    Tours c.metadata t expected [] (fun _ _ _ => True) (inOwnScope x p) := by
  unfold inOwnScope
  cases run : x { p with joins := [] } with
  | ok a q =>
    rw [run] at h
    obtain ⟨inside, b, rfl, -⟩ := h
    have back : Toured c.metadata t { q with joins := p.joins } :=
      toured.of_joins_eq inside.remembers inside.room rfl
    exact .quiet back trivial
  | error e q =>
    rw [run] at h
    obtain ⟨inside, rfl⟩ := h
    have back : Toured c.metadata t { q with joins := p.joins } :=
      toured.of_joins_eq inside.remembers inside.room rfl
    exact .error back

/-- A count visits the way to what it counts. -/
theorem tours_count (toured : Toured c.metadata t p)
    (named : c.metadata.findResource t.root.resource = .ok r) (path : List String) :
    Tours c.metadata t (c.metadata.relatedOf r path) (c.metadata.relatedVisits r path)
      (fun _ _ _ => True) (count c t.root path p) :=
  Tours.map (tours_related toured named path) fun _ _ _ _ => trivial

/-! ## Comparisons, matches and lists -/

theorem tours_side (toured : Toured c.metadata t p)
    (named : c.metadata.findResource t.root.resource = .ok r) (operand : Request.Operand) :
    Tours c.metadata t (c.metadata.operandOf r operand) (c.metadata.operandVisits r operand)
      (fun known s _ => s.known = known) (side c t.root operand p) := by
  cases operand with
  | field path =>
    refine Tours.bind_last (tours_field toured named path) ?_
    rintro _ ⟨column, held⟩ q toured - rfl
    exact .pure toured rfl
  | count path =>
    refine Tours.bind_last (tours_count toured named path) ?_
    intro l s q toured _ _
    exact .pure toured rfl
  | value v => cases v <;> exact .pure toured rfl
  | null => exact .pure toured rfl

theorem tours_bindLiteral (toured : Toured c.metadata t p)
    (literal : Except RequestError Value) :
    Tours c.metadata t literal [] (fun _ _ _ => True)
      ((do return Sql.Operand.parameter (← bindValue (← ofExcept literal)) : Compile Sql.Operand)
        p) := by
  cases literal with
  | error e => exact .error toured
  | ok v =>
    rw [bind_ofExcept]
    refine Tours.bind_silent (tours_bindValue toured v) ?_
    intro parameter q toured _
    exact .quiet toured trivial

theorem tours_bindSide (toured : Toured c.metadata t p) (typing : Option Attribute)
    (s : Side) :
    Tours c.metadata t (s.known.checkValue c.metadata typing) [] (fun _ _ _ => True)
      (bindSide c typing s p) := by
  cases s with
  | column column held => exact .pure toured trivial
  | count select => exact .pure toured trivial
  | null => exact .pure toured trivial
  | value v =>
    exact Tours.map_expected (tours_bindLiteral toured (Known.literal c.metadata typing v))
      fun _ _ _ _ => trivial

theorem tours_comparison (toured : Toured c.metadata t p)
    (named : c.metadata.findResource t.root.resource = .ok r) (operator : Comparison)
    (left right : Request.Operand) :
    Tours c.metadata t (c.metadata.checkOperands r operator left right)
      (c.metadata.operandVisits r left ++
        onward (c.metadata.operandOf r left) fun _ => c.metadata.operandVisits r right)
      (fun _ _ _ => True) (comparison c t.root operator left right p) := by
  refine Tours.bind (tours_side toured named left) ?_
  rintro _ a q toured - rfl
  refine Tours.bind_last (tours_side toured named right) ?_
  rintro _ b s toured - rfl
  refine Tours.bind_still (.ofExcept toured _) ?_
  rintro _ typing _ toured typed ⟨rfl, rfl⟩
  dsimp only
  refine Tours.bind_still (.ofExcept toured _) ?_
  rintro _ _ _ toured - ⟨rfl, rfl⟩
  refine Tours.bind_still (tours_bindSide toured typing a) ?_
  intro _ x s toured _ _
  exact Tours.map (tours_bindSide toured typing b) fun _ _ _ _ => trivial

theorem tours_textMatch (toured : Toured c.metadata t p)
    (named : c.metadata.findResource t.root.resource = .ok r) (place : TextMatch)
    (path : List String) (text : String) :
    Tours c.metadata t (c.metadata.checkFilter r (.textMatch place path text))
      (c.metadata.fieldVisits r path) (fun _ _ _ => True)
      (textMatch c t.root place path text p) := by
  rw [Metadata.checkFilter]
  refine Tours.bind_last (tours_field toured named path) ?_
  rintro _ ⟨column, held⟩ q toured - rfl
  refine Tours.guard toured fun _ => ?_
  refine Tours.bind_silent (tours_bindValue toured _) ?_
  intro pattern s toured _
  exact .pure toured trivial

theorem tours_bindValues (held : Attribute) {values : List Json}
    (toured : Toured c.metadata t p) :
    Tours c.metadata t (c.metadata.checkValues held values) [] (fun _ _ _ => True)
      (forEach (fun value => do
        return Sql.Operand.parameter (← bindValue (← ofExcept (held.literal c.metadata value))))
        values p) := by
  induction values generalizing p with
  | nil => exact .pure toured trivial
  | cons value values ih =>
    refine Tours.bind_still (tours_bindLiteral toured (held.literal c.metadata value)) ?_
    intro literal operand q toured _ _
    refine Tours.bind_still (ih toured) ?_
    intro literals operands s toured _ _
    exact .pure toured trivial

theorem tours_anyOf (toured : Toured c.metadata t p)
    (named : c.metadata.findResource t.root.resource = .ok r) (path : List String)
    (values : List Json) :
    Tours c.metadata t (c.metadata.checkFilter r (.any path values))
      (c.metadata.filterVisits r (.any path values)) (fun _ _ _ => True)
      (anyOf c t.root path values p) := by
  rw [Metadata.checkFilter, Metadata.filterVisits, anyOf]
  cases values.isEmpty with
  | true => exact .error toured
  | false =>
    refine Tours.bind_last (tours_field toured named path) ?_
    rintro _ ⟨column, held⟩ q toured - rfl
    refine Tours.bind_last (tours_bindValues held toured) ?_
    intro literals operands s toured _ _
    exact .pure toured trivial

/-! ## Conditions -/

theorem tours_joined (toured : Toured c.metadata t p) (connective : Connective)
    (conditions : List Sql.Condition) :
    Tours c.metadata t
      (if conditions.isEmpty then throw (.notSupported .emptyLogical) else Pure.pure ()) []
      (fun _ _ _ => True) (joined connective conditions p) := by
  unfold joined
  cases combined : Sql.Condition.combine connective conditions with
  | none =>
    obtain rfl := Sql.Condition.combine_eq_none_iff.1 combined
    exact .throw toured
  | some condition =>
    cases conditions with
    | nil => cases combined
    | cons first rest => exact .pure toured trivial

mutual

/-- A filter visits what the metadata say, and is refused if they say so. -/
theorem tours_condition {t : Tour} {r : Resource} {p : Progress} (toured : Toured c.metadata t p)
    (named : c.metadata.findResource t.root.resource = .ok r) :
    ∀ filter : Request.Filter, Tours c.metadata t (c.metadata.checkFilter r filter)
      (c.metadata.filterVisits r filter) (fun _ _ _ => True) (condition c t.root filter p)
  | .and terms => by
    rw [condition, Metadata.checkFilter, Metadata.filterVisits]
    refine Tours.bind_last (tours_conditions toured named terms) ?_
    intro _ conditions q toured _ same
    rw [← same]
    exact tours_joined toured .and conditions
  | .or terms => by
    rw [condition, Metadata.checkFilter, Metadata.filterVisits]
    refine Tours.bind_last (tours_conditions toured named terms) ?_
    intro _ conditions q toured _ same
    rw [← same]
    exact tours_joined toured .or conditions
  | .not filter => by
    rw [condition, Metadata.checkFilter, Metadata.filterVisits]
    exact Tours.map (tours_condition toured named filter) fun _ _ _ _ => trivial
  | .comparison operator left right => by
    rw [condition, Metadata.checkFilter, Metadata.filterVisits]
    exact tours_comparison toured named operator left right
  | .textMatch place path text => by
    rw [condition, Metadata.filterVisits]
    exact tours_textMatch toured named place path text
  | .any path values => by
    rw [condition]
    exact tours_anyOf toured named path values
  | .has path filter => by
    rw [condition, Metadata.checkFilter, Metadata.filterVisits]
    exact Tours.map (tours_relatedSelect toured named path .one filter) fun _ _ _ _ => trivial

theorem tours_relatedSelect {t : Tour} {r : Resource} {p : Progress}
    (toured : Toured c.metadata t p)
    (named : c.metadata.findResource t.root.resource = .ok r) (path : List String)
    (projection : Sql.Projection) :
    ∀ filter : Option Request.Filter, Tours c.metadata t
      (c.metadata.relatedOf r path >>= fun l => c.metadata.checkRelated l.target filter)
      (c.metadata.relatedVisits r path) (fun _ _ _ => True)
      (relatedSelect c t.root path projection filter p)
  | none => by
    rw [relatedSelect]
    refine Tours.bind_last (tours_related toured named path) ?_
    intro l opened q toured _ _
    rw [Metadata.checkRelated]
    exact .pure toured trivial
  | some filter => by
    rw [relatedSelect]
    refine Tours.bind_last (tours_related toured named path) ?_
    intro l opened q toured _ found
    rw [Metadata.checkRelated]
    have empty : Toured c.metadata ⟨opened.root, q.tables, q.tables, []⟩ { q with joins := [] } :=
      .opened toured.remembers (Nat.le_refl _) (Nat.le_refl _)
    have inside := tours_condition empty found filter
    exact Tours.map (tours_inOwnScope toured inside) fun _ _ _ _ => trivial

theorem tours_conditions {t : Tour} {r : Resource} {p : Progress} (toured : Toured c.metadata t p)
    (named : c.metadata.findResource t.root.resource = .ok r) :
    ∀ filters : List Request.Filter, Tours c.metadata t (c.metadata.checkFilters r filters)
      (c.metadata.filtersVisits r filters)
      (fun _ conditions _ => conditions.isEmpty = filters.isEmpty)
      (conditions c t.root filters p)
  | [] => by
    rw [conditions, Metadata.checkFilters, Metadata.filtersVisits]
    exact .pure toured rfl
  | filter :: filters => by
    rw [conditions, Metadata.checkFilters, Metadata.filtersVisits]
    refine Tours.bind (tours_condition toured named filter) ?_
    intro _ condition q toured _ _
    exact Tours.map (tours_conditions toured named filters) fun _ _ _ _ => rfl

end

/-! ## Requests -/

theorem tours_bindId (toured : Toured c.metadata t p) (given : Resource) (id : Json) :
    Tours c.metadata t (c.metadata.checkIdentity given (some id)) [] (fun _ _ _ => True)
      (bindId c given id p) := by
  unfold Metadata.checkIdentity bindId
  cases given.primaryKey with
  | error e => exact .error toured
  | ok primaryKey =>
    rw [bind_ofExcept]
    refine Tours.guard toured fun _ => ?_
    cases primaryKey.literal c.metadata id with
    | error e => exact .error toured
    | ok value =>
      rw [bind_ofExcept]
      exact (tours_bindValue toured value).imp fun _ _ _ _ => trivial

theorem tours_identity (toured : Toured c.metadata t p) (given : Resource) (id : Json) :
    Tours c.metadata t (c.metadata.checkIdentity given (some id)) [] (fun _ _ _ => True)
      (identity c t.root given id p) := by
  unfold identity
  cases identified : given.primaryKey with
  | error e =>
    rw [Metadata.checkIdentity, identified]
    exact .error toured
  | ok primaryKey =>
    rw [bind_ofExcept]
    exact Tours.map (tours_bindId toured given id) fun _ _ _ _ => trivial

/-- The identifier of a request is checked first, and binds nothing that the filter depends on. -/
theorem tours_asked {expected : Except RequestError Unit}
    (toured : Toured c.metadata t p) (given : Resource) (id : Option Json)
    {filter : Option Request.Filter}
    (filters : ∀ q, Toured c.metadata t q →
      Tours c.metadata t expected visits (fun _ _ _ => True)
        (optionally (condition c t.root) filter q)) :
    Tours c.metadata t
      (c.metadata.checkIdentity given id >>= fun _ => expected)
      (onward (c.metadata.checkIdentity given id) fun _ => visits) (fun _ _ _ => True)
      (requestCondition c t.root given id filter p) := by
  have identities : Tours c.metadata t (c.metadata.checkIdentity given id) []
      (fun _ _ _ => True) (optionally (identity c t.root given) id p) := by
    cases id with
    | none => exact .pure toured trivial
    | some id => exact Tours.map (tours_identity toured given id) fun _ _ _ _ => trivial
  refine Tours.bind_quiet identities ?_
  intro _ first q toured _ _
  exact Tours.map (filters q toured) fun _ _ _ _ => trivial

theorem tours_requestCondition (toured : Toured c.metadata t p)
    (named : c.metadata.findResource t.root.resource = .ok r) (given : Resource) (id : Option Json)
    (filter : Option Request.Filter) :
    Tours c.metadata t
      (c.metadata.checkIdentity given id >>= fun _ => c.metadata.checkRelated r filter)
      (c.metadata.askedVisits r given id filter) (fun _ _ _ => True)
      (requestCondition c t.root given id filter p) := by
  refine tours_asked toured given id fun q toured => ?_
  cases filter with
  | none =>
    rw [Metadata.checkRelated]
    exact .pure toured trivial
  | some filter =>
    rw [Metadata.checkRelated]
    exact Tours.map (tours_condition toured named filter) fun _ _ _ _ => trivial

theorem tours_orderTerm (toured : Toured c.metadata t p)
    (named : c.metadata.findResource t.root.resource = .ok r) (element : Request.SortElement) :
    Tours c.metadata t (c.metadata.checkTarget r element.target)
      (c.metadata.targetVisits r element.target) (fun _ _ _ => True)
      (orderTerm c t.root element p) := by
  obtain ⟨target, ascending⟩ := element
  cases target with
  | field path =>
    have taken : Tours c.metadata t (c.metadata.fieldOf r path) (c.metadata.fieldVisits r path)
        (fun _ _ _ => True) (orderTerm c t.root ⟨.field path, ascending⟩ p) :=
      Tours.map (tours_field toured named path) fun _ _ _ _ => trivial
    exact Tours.map_expected taken fun _ _ _ _ => trivial
  | count path =>
    have taken : Tours c.metadata t (c.metadata.relatedOf r path)
        (c.metadata.relatedVisits r path) (fun _ _ _ => True)
        (orderTerm c t.root ⟨.count path, ascending⟩ p) :=
      Tours.map (tours_count toured named path) fun _ _ _ _ => trivial
    exact Tours.map_expected taken fun _ _ _ _ => trivial

theorem tours_order (toured : Toured c.metadata t p)
    (named : c.metadata.findResource t.root.resource = .ok r) (sort : List Request.SortElement) :
    Tours c.metadata t (c.metadata.checkOrder r sort) (c.metadata.orderVisits r sort)
      (fun _ _ _ => True) (order c t.root sort p) := by
  unfold order Metadata.checkOrder
  cases sort with
  | nil =>
    rw [named]
    show Tours c.metadata t (r.primaryKey >>= fun _ => pure ()) [] _
      ((ofExcept r.primaryKey >>= _) p)
    cases r.primaryKey with
    | error e => exact .error toured
    | ok primaryKey => exact .pure toured trivial
  | cons element elements =>
    show Tours c.metadata t (c.metadata.checkTargets r (element :: elements)) _ _
      (forEach (orderTerm c t.root) (element :: elements) p)
    generalize element :: elements = sort
    induction sort generalizing p t with
    | nil => exact .pure toured trivial
    | cons element elements ih =>
      refine Tours.bind (tours_orderTerm toured named element) ?_
      intro _ term q toured _ _
      exact Tours.map (ih toured named) fun _ _ _ _ => trivial

end Compile

end

end ResourceSql
