/-
Paths that are walked again. Where a walk leads only to tables that were joined before,
it changes nothing, and that stays so while other paths are walked (`Progress.Grown`).
Since a walk that fails keeps what it did, walking a path a second time ends as it did
the first time and changes nothing more (`Compile.walkOn_again`). So a path may be
walked in pieces, and a to-one relationship at the end of a field path is the path to
the primary key of the related resource (`Reached.paths_compose`).
-/
import ResourceSql.Proofs.Consistency
import ResourceSql.Proofs.Repetition
import ResourceSql.Proofs.Sessions

namespace ResourceSql

namespace Progress

/-- The columns of the table at the end of a path are selected. -/
def Selects (p : Progress) (path : List String) : Prop :=
  ∀ j ∈ p.joins, j.path = path → j.included = true

/-- Foreign keys that are looked up at `p` without a change are so at `q`, and tables that were
joined at `p` are at `q`, with their columns selected if they were. -/
structure Grown (m : Metadata) (p q : Progress) : Prop where
  keys : ∀ {declaring relationship key},
    Compile.foreignKey m declaring relationship p = .ok key p →
      Compile.foreignKey m declaring relationship q = .ok key q
  places : ∀ {path j}, p.joinAt path = some j → ∃ i, q.joinAt path = some i ∧
    i.occurrence = j.occurrence ∧ (p.Selects path → q.Selects path)

section

variable {m : Metadata} {p q s : Progress}

namespace Grown

theorem refl (m : Metadata) (p : Progress) : p.Grown m p := ⟨id, fun joined => ⟨_, joined, rfl, id⟩⟩

theorem trans (h : p.Grown m q) (h' : q.Grown m s) : p.Grown m s := by
  refine ⟨h'.keys ∘ h.keys, fun {path j} joined => ?_⟩
  obtain ⟨i, joined, same, selected⟩ := h.places joined
  obtain ⟨i', joined, same', selected'⟩ := h'.places joined
  exact ⟨i', joined, same'.trans same, selected' ∘ selected⟩

end Grown

theorem places_of_joins (same : q.joins = p.joins) {path : List String} {j : PathJoin}
    (joined : p.joinAt path = some j) : ∃ i, q.joinAt path = some i ∧
      i.occurrence = j.occurrence ∧ (p.Selects path → q.Selects path) := by
  unfold joinAt Selects at *
  rw [same]
  exact ⟨j, joined, rfl, id⟩

end

end Progress

namespace Compile

section

variable {c : Context} {m : Metadata} {p q : Progress} {path : List String}

/-- Whether a look-up changes something depends on what is remembered alone. -/
theorem foreignKey_of_memory {declaring : Resource} {relationship : String} {key : ForeignKey}
    (same : q.memory = p.memory) (still : foreignKey m declaring relationship p = .ok key p) :
    foreignKey m declaring relationship q = .ok key q := by
  cases held : p.memory.bind (·.lookup (declaring.name, relationship)) with
  | some found =>
    rw [foreignKey_apply_of_remembered held] at still
    cases still
    exact foreignKey_apply_of_remembered (same ▸ held)
  | none =>
    rw [foreignKey_apply_of_not_remembered held] at still
    rw [foreignKey_apply_of_not_remembered (same ▸ held), same]
    split at still
    · next found resolved =>
      injection still with known unchanged
      have unremembered : p.memory.map (((declaring.name, relationship), found) :: ·) = p.memory :=
        congrArg Progress.memory unchanged
      rw [unremembered, ← same, known]
    · cases still

/-- A key that was looked up is found again. -/
theorem grown_foreignKey {declaring : Resource} {relationship : String} {key : ForeignKey}
    (run : foreignKey c.metadata declaring relationship p = .ok key q) :
    p.Grown c.metadata q ∧ foreignKey c.metadata declaring relationship q = .ok key q := by
  obtain ⟨kept, again⟩ := (repeats_foreignKey c declaring relationship).of_ok run
  have joins : q.joins = p.joins := by rw [foreignKey_run run]
  exact ⟨⟨fun still => ((repeats_foreignKey c _ _).of_ok still).2 q kept,
    Progress.places_of_joins joins⟩, again q (.refl q)⟩

theorem grown_freshAlias : p.Grown m { p with tables := p.tables + 1 } :=
  ⟨foreignKey_of_memory rfl, Progress.places_of_joins rfl⟩

/-- A table is joined where none was. -/
theorem grown_addJoin {j : PathJoin} (absent : p.joinAt j.path = none) :
    p.Grown m { p with joins := p.joins ++ [j] } := by
  refine ⟨foreignKey_of_memory rfl, fun {path i} joined => ?_⟩
  refine ⟨i, (Progress.Retains.join j).joins joined, rfl, fun selected k member here => ?_⟩
  rcases List.mem_append.1 member with member | member
  · exact selected k member here
  · obtain rfl := List.mem_singleton.1 member
    rw [here, joined] at absent
    cases absent

theorem includeJoin_of_selects (selected : p.Selects path) : includeJoin path p = .ok () p := by
  have unchanged : (p.joins.map fun j => if j.path = path then { j with included := true } else j) =
      p.joins := by
    refine (List.map_congr_left fun j member => ?_).trans (List.map_id _)
    split
    · next here =>
      have included : j.included = true := selected j member here
      rw [← included]
      rfl
    · rfl
  show EStateM.Result.ok () { p with joins := _ } = .ok () p
  rw [unchanged]

theorem grown_marks {mark : PathJoin → PathJoin} (marks : PathJoin.Marks mark) :
    p.Grown m { p with joins := p.joins.map mark } := by
  have path (j : PathJoin) : (mark j).path = j.path := PathJoin.path_eq (marks.core j)
  refine ⟨foreignKey_of_memory rfl, fun {place j} joined => ?_⟩
  refine ⟨mark j, ?_, ?_, fun selected i member here => ?_⟩
  · rw [Progress.joinAt, List.find?_map]
    simp only [Function.comp_def, path]
    exact congrArg (Option.map mark) joined
  · exact PathJoin.occurrence_eq (marks.core j)
  · obtain ⟨i, old, rfl⟩ := List.mem_map.1 member
    exact marks.included i (selected i old ((path i).symm.trans here))

/-- The columns of a table that was joined before are selected. -/
theorem grown_includeJoin {u : Unit} (run : includeJoin path p = .ok u q) :
    p.Grown m q ∧ q.Selects path := by
  cases run
  refine ⟨grown_marks (PathJoin.marks_include path), fun j member here => ?_⟩
  obtain ⟨i, -, rfl⟩ := List.mem_map.1 member
  by_cases there : i.path = path
  · rw [if_pos there]
  · rw [if_neg there] at here
    exact absurd here there

theorem foreignKey_error {declaring : Resource} {relationship : String} {e : RequestError}
    (run : foreignKey m declaring relationship p = .error e q) : q = p := by
  cases held : p.memory.bind (·.lookup (declaring.name, relationship)) with
  | some found =>
    rw [foreignKey_apply_of_remembered held] at run
    cases run
  | none =>
    rw [foreignKey_apply_of_not_remembered held] at run
    split at run <;> cases run
    rfl

end

/-! ## Steps that are taken again -/

section

variable {α β : Type} {m : Metadata} {p q : Progress} {x : Compile α} {f : α → Compile β}

/-- Taken again, the step ends as it did from `p`, and changes nothing more. If it succeeded, that
is so also after other steps. -/
def Retraces (m : Metadata) (p : Progress) (x : Compile α) : Prop :=
  match x p with
  | .ok a q => p.Grown m q ∧ ∀ s, q.Grown m s → x s = .ok a s
  | .error e q => p.Grown m q ∧ x q = .error e q

namespace Retraces

theorem of_ok {a : α} (run : x p = .ok a q) (grown : p.Grown m q)
    (later : ∀ s, q.Grown m s → x s = .ok a s) : Retraces m p x := by
  rw [Retraces, run]
  exact ⟨grown, later⟩

theorem of_error {e : RequestError} (run : x p = .error e q) (grown : p.Grown m q)
    (again : x q = .error e q) : Retraces m p x := by
  rw [Retraces, run]
  exact ⟨grown, again⟩

theorem bind (first : Retraces m p x) (next : ∀ a q, x p = .ok a q → Retraces m q (f a)) :
    Retraces m p (x >>= f) := by
  unfold Retraces at first
  cases run : x p with
  | error e q =>
    rw [run] at first
    obtain ⟨grown, again⟩ := first
    exact .of_error (bind_of_error run) grown (bind_of_error again)
  | ok a q =>
    rw [run] at first
    obtain ⟨grown, later⟩ := first
    have second := next a q run
    unfold Retraces at second
    cases run' : f a q with
    | error e s =>
      rw [run'] at second
      obtain ⟨grown', again⟩ := second
      refine .of_error ((bind_of_ok run).trans run') (grown.trans grown') ?_
      exact (bind_of_ok (later s grown')).trans again
    | ok b s =>
      rw [run'] at second
      obtain ⟨grown', later'⟩ := second
      refine .of_ok ((bind_of_ok run).trans run') (grown.trans grown') fun t kept => ?_
      exact (bind_of_ok (later t (grown'.trans kept))).trans (later' t kept)

/-- What follows a step may as well follow it when it is taken again. -/
theorem bind_again (h : Retraces m p x) (f : α → Compile β) :
    (x >>= fun _ => x >>= f) p = (x >>= f) p ∧ (x >>= f) (.after (x p)) = (x >>= f) p := by
  unfold Retraces at h
  cases run : x p with
  | error e q =>
    rw [run] at h
    exact ⟨(bind_of_error run).trans (bind_of_error run).symm,
      (bind_of_error h.2).trans (bind_of_error run).symm⟩
  | ok a q =>
    rw [run] at h
    have again : (x >>= f) q = (x >>= f) p :=
      (bind_of_ok (h.2 q (.refl m q))).trans (bind_of_ok run).symm
    exact ⟨(bind_of_ok run).trans again, again⟩

end Retraces

end

section

variable {c : Context} {p q : Progress} {walk : Walk} {walked : List String} {here : Occurrence}
  {relationship : String}

/-- A relationship that was followed is followed again to the table that was joined for it. -/
theorem follow_later {parent : Resource} {key : ForeignKey} {j : PathJoin}
    (found : c.metadata.findResource here.resource = .ok parent)
    (looked : foreignKey c.metadata parent relationship q = .ok key q)
    (allowed : (!walk.toMany && !key.isToOne) = false)
    (joined : q.joinAt (walked ++ [relationship]) = some j)
    (selected : walk.included = true → q.Selects (walked ++ [relationship])) :
    ∀ s, q.Grown c.metadata s → follow c walk walked here relationship s = .ok j.occurrence s := by
  intro s grown
  obtain ⟨i, joined, same, kept⟩ := grown.places joined
  rw [follow_joined found (grown.keys looked) allowed joined, same]
  cases included : walk.included with
  | true => exact bind_of_ok (includeJoin_of_selects (kept (selected included)))
  | false => rfl

theorem follow_retraces (checked : c.metadata.check = .ok ()) (walk : Walk) (walked : List String)
    (here : Occurrence) (relationship : String) (p : Progress) :
    Retraces c.metadata p (follow c walk walked here relationship) := by
  cases found : c.metadata.findResource here.resource with
  | error e =>
    have run (s : Progress) : follow c walk walked here relationship s = .error e s := by
      rw [follow, found]
      rfl
    exact .of_error (run p) (.refl _ p) (run p)
  | ok parent =>
  cases looked : foreignKey c.metadata parent relationship p with
  | error e q =>
    obtain rfl := foreignKey_error looked
    have run : follow c walk walked here relationship q = .error e q := by
      rw [follow, found, bind_ofExcept, bind_of_error looked]
    exact .of_error run (.refl _ q) run
  | ok key q =>
  obtain ⟨grown, again⟩ := grown_foreignKey looked
  cases allowed : !walk.toMany && !key.isToOne with
  | true =>
    exact .of_error (follow_refused found looked allowed) grown (follow_refused found again allowed)
  | false =>
  cases joined : q.joinAt (walked ++ [relationship]) with
  | some j =>
    have run := follow_joined found looked allowed joined
    cases included : walk.included with
    | false =>
      rw [included, if_neg Bool.false_ne_true] at run
      refine .of_ok run grown (follow_later found again allowed joined fun yes => ?_)
      rw [included] at yes
      cases yes
    | true =>
      have opened : includeJoin (walked ++ [relationship]) q = .ok () _ := rfl
      obtain ⟨marked, selected⟩ := grown_includeJoin (m := c.metadata) opened
      obtain ⟨i, joined, same, -⟩ := marked.places joined
      rw [included, if_pos rfl, ← same] at run
      exact .of_ok run (grown.trans marked)
        (follow_later found (marked.keys again) allowed joined fun _ => selected)
  | none =>
    cases named : c.metadata.findResource key.target with
    | error e =>
      exact .of_error (follow_unknown found looked allowed joined named) grown
        (follow_unknown found again allowed joined named)
    | ok target =>
      obtain ⟨l, linked⟩ := Metadata.link_of_check checked (Metadata.findResource_self found) named
      obtain ⟨j, path, included, run⟩ : ∃ j : PathJoin, j.path = walked ++ [relationship] ∧
          j.included = walk.included ∧ follow c walk walked here relationship p =
            .ok j.occurrence { q with tables := q.tables + 1, joins := q.joins ++ [j] } :=
        ⟨_, rfl, rfl, follow_joins found looked allowed joined named linked⟩
      rw [← path] at joined
      have added : q.Grown c.metadata { q with tables := q.tables + 1, joins := q.joins ++ [j] } :=
        grown_freshAlias.trans (grown_addJoin joined)
      refine .of_ok run (grown.trans added) (follow_later found (added.keys again) allowed
        (path ▸ Progress.joinAt_join joined) fun yes i member here => ?_)
      rcases List.mem_append.1 member with old | new
      · simpa [path, here] using List.find?_eq_none.1 joined i old
      · obtain rfl := List.mem_singleton.1 new
        exact included.trans yes

/-! ## Walking again -/

theorem walkOn_retraces (checked : c.metadata.check = .ok ()) (walk : Walk) (walked : List String)
    (here : Occurrence) (path : List String) (p : Progress) :
    Retraces c.metadata p (walkOn c walk walked here path) := by
  induction path generalizing walked here p with
  | nil => exact .of_ok rfl (.refl _ p) fun _ _ => rfl
  | cons relationship rest ih =>
    exact (follow_retraces checked walk walked here relationship p).bind fun next q _ => ih _ next q

theorem walkOn_append (c : Context) (walk : Walk) (walked : List String) (here : Occurrence)
    (first second : List String) :
    walkOn c walk walked here (first ++ second) =
      walkOn c walk walked here first >>= fun next => walkOn c walk (walked ++ first) next second := by
  induction first generalizing walked here with
  | nil =>
    rw [List.append_nil]
    rfl
  | cons relationship first ih =>
    simp only [List.cons_append, walkOn, ih, bind_assoc, List.append_assoc, List.nil_append]

/-- A longer path is walked from the end of the shorter one. -/
theorem walkPath_append (c : Context) (walk : Walk) (root : Occurrence)
    (first second : List String) :
    walkPath c walk root (first ++ second) =
      walkPath c walk root first >>= fun next => walkOn c walk first next second :=
  walkOn_append c walk [] root first second

/-- Walking a path and then a longer one is walking the longer one. -/
theorem walkPath_again (checked : c.metadata.check = .ok ()) (walk : Walk) (root : Occurrence)
    (first second : List String) (p : Progress) :
    (walkPath c walk root first >>= fun _ => walkPath c walk root (first ++ second)) p =
        walkPath c walk root (first ++ second) p ∧
      walkPath c walk root (first ++ second) (.after (walkPath c walk root first p)) =
        walkPath c walk root (first ++ second) p := by
  rw [walkPath_append]
  exact (walkOn_retraces checked walk [] root first p).bind_again _

/-! ## Relationships at the ends of field paths -/

/-- The resource at the end of a path of to-one relationships. -/
theorem target_of_walk {m : Metadata} {here target there : Resource} {declared : Relationship}
    (known : m.findResource here.name = .ok here)
    (held : here.type.relationships.get? relationship = some declared)
    (named : m.findResource declared.target = .ok target)
    (walks : m.walk false here [relationship] = .ok there) : there = target := by
  obtain ⟨l, hopped, walks⟩ := Except.bind_eq_ok.1 walks
  obtain ⟨l_declared, -⟩ := (Metadata.hop_eq_ok_iff known).1 hopped
  obtain ⟨d, other, held', named', key⟩ := ForeignKey.resolve_eq_ok.1 l_declared.key
  obtain rfl := Option.some.inj (held.symm.trans held')
  obtain rfl := Except.ok.inj (named.symm.trans named')
  have found := l_declared.columns.1
  rw [key, Metadata.findResource_self named] at found
  exact (Except.ok.inj walks).symm.trans (Except.ok.inj found).symm

section

variable {root here : Occurrence} {type : Resource} {path : List String} {name : String}

theorem field_error {e : RequestError} (run : walkPath c .toField root path p = .error e q) :
    field c root (path ++ [name]) p = .error e q := by
  unfold field
  simp only [List.getLast?_concat, List.dropLast_concat]
  exact bind_of_error run

section

variable (run : walkPath c .toField root path p = .ok here q)
  (found : c.metadata.findResource here.resource = .ok type)

include run found

theorem field_attribute {held : Attribute} (named : type.type.attributes.get? name = some held) :
    field c root (path ++ [name]) p = .ok (here.column held.column .scalar, held) q := by
  unfold field
  simp only [List.getLast?_concat, List.dropLast_concat]
  rw [bind_of_ok run, found, bind_ofExcept, named]
  rfl

theorem field_related (unattributed : type.type.attributes.get? name = none)
    (declares : type.type.relationships.contains name = true) :
    field c root (path ++ [name]) p =
      (walkPath c .toField root (path ++ [name]) >>= fun related => do
        let target ← ofExcept (c.metadata.findResource related.resource)
        let primaryKey ← ofExcept target.primaryKey
        return (related.column primaryKey.column .scalar, primaryKey)) q := by
  unfold field
  simp only [List.getLast?_concat, List.dropLast_concat]
  rw [bind_of_ok run, found, bind_ofExcept, unattributed, declares]
  rfl

end

/-- A relationship at the end of a field path stands for the primary key behind it. -/
theorem field_relationship {t : Tour} {r target : Resource} {declared : Relationship}
    (checked : c.metadata.check = .ok ()) (toured : Toured c.metadata t p)
    (rooted : c.metadata.findResource t.root.resource = .ok r)
    (walks : c.metadata.walk false r path = .ok type)
    (held : type.type.relationships.get? relationship = some declared)
    (unattributed : type.type.attributes.get? relationship = none)
    (named : c.metadata.findResource declared.target = .ok target) :
    field c t.root (path ++ [relationship]) p =
      field c t.root (path ++ [relationship, target.type.primaryKey]) p := by
  have before : Tours c.metadata t _ _ _ (walkPath c .toField t.root path p) :=
    tours_walkPath toured rooted path
  have behind : Tours c.metadata t _ _ _ (walkPath c .toField t.root (path ++ [relationship]) p) :=
    tours_walkPath toured rooted (path ++ [relationship])
  have again := (walkPath_again checked .toField t.root path [relationship] p).2
  obtain ⟨key, identified, -⟩ :=
    Metadata.primaryKey_of_check checked (Metadata.findResource_self named)
  have declares : type.type.relationships.contains relationship = true := by
    rw [NameMap.contains, held]
    rfl
  rw [List.append_cons path relationship [target.type.primaryKey]]
  cases run : walkPath c .toField t.root path p with
  | error e q =>
    rw [run] at before
    cases walks.symm.trans before.2
  | ok here q =>
    rw [run] at before again
    obtain ⟨-, _, same, found⟩ := before
    obtain rfl := Except.ok.inj (walks.symm.trans same)
    rw [field_related run found unattributed declares]
    cases run' : walkPath c .toField t.root (path ++ [relationship]) p with
    | error e s => exact (bind_of_error (again.trans run')).trans (field_error run').symm
    | ok related s =>
      rw [run'] at behind
      obtain ⟨-, there, reached, found'⟩ := behind
      have step : c.metadata.walk false type [relationship] = .ok there := by
        rw [Metadata.walk_append, same] at reached
        exact reached
      obtain rfl := target_of_walk (Metadata.findResource_self found) held named step
      rw [field_attribute run' found' (Resource.attribute_of_primaryKey identified)]
      refine (bind_of_ok (again.trans run')).trans ?_
      rw [found', bind_ofExcept, identified]
      rfl

end

end

end Compile

/-- **Paths may be walked in pieces.** Walking a path and then one that goes on from there is
walking the longer one, whatever becomes of either. A relationship at the end of a field path that
is no attribute stands for the primary key of the resources that it leads to. -/
theorem Reached.paths_compose {m : Metadata} {p : Progress} {scopes : List Scope} {s : Scope}
    (checked : m.check = .ok ()) (reached : Reached m p scopes) (member : s ∈ scopes)
    (d : Dialect) :
    (∀ walk first second,
      let part := Compile.walkPath ⟨m, d⟩ walk s.root first
      let whole := Compile.walkPath ⟨m, d⟩ walk s.root (first ++ second)
      (part >>= fun _ => whole) (s.resume p) = whole (s.resume p) ∧
        whole (.after (part (s.resume p))) = whole (s.resume p)) ∧
    ∀ r path here relationship declared target, m.findResource s.root.resource = .ok r →
      m.walk false r path = .ok here →
      here.type.relationships.get? relationship = some declared →
      here.type.attributes.get? relationship = none →
      m.findResource declared.target = .ok target →
        Compile.field ⟨m, d⟩ s.root (path ++ [relationship]) (s.resume p) =
          Compile.field ⟨m, d⟩ s.root (path ++ [relationship, target.type.primaryKey])
            (s.resume p) := by
  refine ⟨fun walk first second => ?_, fun r path here relationship declared target rooted walks
    held unattributed named => ?_⟩
  · exact Compile.walkPath_again (c := ⟨m, d⟩) checked walk s.root first second (s.resume p)
  · obtain ⟨start, visits, toured⟩ := reached.toured.2 s member
    exact Compile.field_relationship (c := ⟨m, d⟩) checked toured rooted walks held unattributed
      named

/-- In a scope where sequels were joined, a walk that is refused after a part of it was walked, and
the identifier of the sequel of a sequel under both of its paths. -/
theorem Reached.paths_compose_books : ∃ (p q t : Progress) (s : Scope) (here : Occurrence)
    (column : Sql.Column), let c := Sample.context
    c.metadata.check = .ok () ∧ Reached c.metadata p [s] ∧ s.joins.map (·.path) = [["sequel"]] ∧
      Compile.walkPath c .toField s.root ["sequel", "sequel"] (s.resume p) = .ok here q ∧
      Compile.walkPath c .toField s.root (["sequel", "sequel"] ++ ["prequels"]) (s.resume p) =
        .error (.expectedToOne "prequels" "book") t ∧
      Compile.walkPath c .toField s.root (["sequel", "sequel"] ++ ["prequels"]) q =
        Compile.walkPath c .toField s.root (["sequel", "sequel"] ++ ["prequels"]) (s.resume p) ∧
      Compile.field c s.root (["sequel"] ++ ["sequel"]) (s.resume p) =
        .ok (column, ⟨"id", .integer, false, none⟩) q ∧
      Compile.field c s.root (["sequel"] ++ ["sequel", "id"]) (s.resume p) =
        Compile.field c s.root (["sequel"] ++ ["sequel"]) (s.resume p) := by
  have checked : Sample.context.metadata.check = .ok () := by decide
  have opened : Reached Sample.context.metadata .start [⟨⟨"book", .table Sample.books⟩, []⟩] :=
    .opened _ .start
  have walked := opened.called [] [] .postgreSql (.field ["sequel", "title"])
  obtain ⟨pieces, fields⟩ := paths_compose checked walked (List.mem_singleton_self _) .postgreSql
  refine ⟨_, _, _, _, _, _, checked, walked, rfl, rfl, rfl,
    (pieces .toField ["sequel", "sequel"] ["prequels"]).2, rfl, ?_⟩
  exact (fields ⟨"book", Sample.book⟩ ["sequel"] ⟨"book", Sample.book⟩ "sequel" _
    ⟨"book", Sample.book⟩ rfl rfl rfl rfl rfl).symm

end ResourceSql
