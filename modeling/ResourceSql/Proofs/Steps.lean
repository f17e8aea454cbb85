/-
Steps of a compilation, and what they keep. Every step, also one that fails,
keeps the scope it is taken in sound: names that are remembered are remembered
rightly, and the joins are linked. It only ever joins more tables, and it fails
exactly if the metadata say so. `Keeps` says all that of one step and composes
over sequences of steps (`Keeps.bind`).
-/
import ResourceSql.Proofs.JoinedRows

namespace ResourceSql

/-- Foreign keys are remembered as they are resolved. -/
def Progress.Remembers (m : Metadata) (p : Progress) : Prop :=
  ∀ memory, p.memory = some memory → ∀ name relationship key,
    ((name, relationship), key) ∈ memory → ∃ declaring, m.findResource name = .ok declaring ∧
      ForeignKey.resolve m declaring relationship = .ok key

/-- The progress of a compilation in a scope with a root of the type `r`. -/
structure Sound (c : Context) (root : Occurrence) (r : Resource) (p : Progress) : Prop where
  named : c.metadata.findResource root.resource = .ok r
  remembers : p.Remembers c.metadata
  linked : Linked c.metadata root p.tables p.joins

/-- A change of joins that may include them, and changes nothing else. -/
structure PathJoin.Marks (mark : PathJoin → PathJoin) : Prop where
  core : ∀ j, (mark j).core = j.core
  included : ∀ j, j.included = true → (mark j).included = true

theorem PathJoin.marks_include (path : List String) :
    Marks fun j => if j.path = path then { j with included := true } else j := by
  refine ⟨fun j => ?_, fun j given => ?_⟩
  · split <;> rfl
  · split
    · rfl
    · exact given

/-- More tables were joined behind those that there were, or included, all of them with paths and
marks that fit. -/
structure Later (fits : List String → Bool → Prop) (p q : Progress) : Prop where
  tables : p.tables ≤ q.tables
  grown : ∃ mark more, PathJoin.Marks mark ∧ q.joins = p.joins.map mark ++ more
  fit : ∀ j ∈ q.joins, j ∈ p.joins ∨ fits j.path j.included

namespace Later

variable {fits : List String → Bool → Prop} {p q s : Progress}

theorem kept (h : Later fits p q) : ∀ j ∈ p.joins, ∃ i ∈ q.joins, i.core = j.core := by
  obtain ⟨mark, more, marks, same⟩ := h.grown
  intro j member
  refine ⟨mark j, ?_, marks.core j⟩
  rw [same]
  exact List.mem_append_left _ (List.mem_map_of_mem member)

/-- In a scope that was empty, everything that is joined fits. -/
theorem all_fit (h : Later fits { p with joins := [] } q) : ∀ j ∈ q.joins, fits j.path j.included := by
  intro j member
  rcases h.fit j member with old | fine
  · cases old
  · exact fine

theorem of_joins_eq (le : p.tables ≤ q.tables) (same : q.joins = p.joins) : Later fits p q := by
  refine ⟨le, ⟨id, [], ⟨fun _ => rfl, fun _ => id⟩, ?_⟩, fun j member => .inl ?_⟩
  · rw [same, List.map_id, List.append_nil]
  · rw [← same]
    exact member

theorem refl (fits : List String → Bool → Prop) (p : Progress) : Later fits p p :=
  of_joins_eq (Nat.le_refl _) rfl

theorem trans (h : Later fits p q) (h' : Later fits q s) : Later fits p s := by
  refine ⟨Nat.le_trans h.tables h'.tables, ?_, fun j member => ?_⟩
  · obtain ⟨mark, more, marks, same⟩ := h.grown
    obtain ⟨mark', more', marks', same'⟩ := h'.grown
    refine ⟨mark' ∘ mark, more.map mark' ++ more', ⟨fun j => ?_, fun j given => ?_⟩, ?_⟩
    · exact (marks'.core _).trans (marks.core j)
    · exact marks'.included _ (marks.included j given)
    · rw [same', same, List.map_append, List.map_map, List.append_assoc]
  · rcases h'.fit j member with member | fine
    · exact h.fit j member
    · exact .inr fine

end Later

theorem LeadsTo.later {fits : List String → Bool → Prop} {root : Occurrence} {p q : Progress}
    {walked : List String} {here : Occurrence} {b : Bool} (later : Later fits p q)
    (h : LeadsTo root p.joins walked here b) : LeadsTo root q.joins walked here b :=
  h.of_core later.kept

/-- A step from `p` agrees with what is expected of it by the metadata: it fails with the expected
error, or gives what is `good` beside the expected result. -/
def Keeps (c : Context) (root : Occurrence) (r : Resource)
    (fits : List String → Bool → Prop)
    (p : Progress) {α β : Type} (expected : Except RequestError β) (good : β → α → Progress → Prop) :
    EStateM.Result RequestError Progress α → Prop
  | .ok a q => Sound c root r q ∧ Later fits p q ∧ ∃ b, expected = .ok b ∧ good b a q
  | .error e q => Sound c root r q ∧ Later fits p q ∧ expected = .error e

/-- The progress after a step, also a failed one. -/
def Progress.after {α : Type} : EStateM.Result RequestError Progress α → Progress
  | .ok _ q => q
  | .error _ q => q

section

variable {c : Context} {root : Occurrence} {r : Resource} {fits : List String → Bool → Prop}
  {p q : Progress} {α β α' β' : Type}

namespace Keeps

variable {expected : Except RequestError β} {good good' : β → α → Progress → Prop}

theorem sound {result : EStateM.Result RequestError Progress α}
    (h : Keeps c root r fits p expected good result) : Sound c root r (.after result) := by
  cases result with
  | ok a s => exact h.1
  | error e s => exact h.1

theorem of_ok {result : EStateM.Result RequestError Progress α} {a : α}
    (h : Keeps c root r fits p expected good result) (run : result = .ok a q) :
    Sound c root r q ∧ Later fits p q ∧ ∃ b, expected = .ok b ∧ good b a q := by
  rw [run] at h
  exact h

/-- What the metadata allow is compiled. -/
theorem exists_ok {result : EStateM.Result RequestError Progress α} {b : β}
    (h : Keeps c root r fits p expected good result) (allowed : expected = .ok b) :
    ∃ a q, result = .ok a q ∧ Sound c root r q ∧ Later fits p q := by
  cases result with
  | ok a q => exact ⟨a, q, rfl, h.1, h.2.1⟩
  | error e q =>
    obtain ⟨-, -, refused⟩ := h
    rw [allowed] at refused
    cases refused

theorem trans {result : EStateM.Result RequestError Progress α} (later : Later fits p q)
    (h : Keeps c root r fits q expected good result) :
    Keeps c root r fits p expected good result := by
  cases result with
  | ok a s => exact ⟨h.1, later.trans h.2.1, h.2.2⟩
  | error e s => exact ⟨h.1, later.trans h.2.1, h.2.2⟩

theorem imp {result : EStateM.Result RequestError Progress α}
    (h : Keeps c root r fits p expected good result)
    (next : ∀ b a q, Sound c root r q → Later fits p q → good b a q → good' b a q) :
    Keeps c root r fits p expected good' result := by
  cases result with
  | ok a s =>
    obtain ⟨sound, later, b, same, fine⟩ := h
    exact ⟨sound, later, b, same, next b a s sound later fine⟩
  | error e s => exact h

theorem pure {a : α} {b : β} (sound : Sound c root r p) (fine : good b a p) :
    Keeps c root r fits p (Pure.pure b) good ((Pure.pure a : Compile α) p) :=
  ⟨sound, .refl fits p, b, rfl, fine⟩

theorem throw {e : RequestError} (sound : Sound c root r p) :
    Keeps c root r fits p (.error e) good ((MonadExcept.throw e : Compile α) p) :=
  ⟨sound, .refl fits p, rfl⟩

theorem bind {x : Compile α} {f : α → Compile α'} {f' : β → Except RequestError β'}
    {good' : β' → α' → Progress → Prop} (h : Keeps c root r fits p expected good (x p))
    (next : ∀ b a q, Sound c root r q → Later fits p q → expected = .ok b → good b a q →
      Keeps c root r fits q (f' b) good' (f a q)) :
    Keeps c root r fits p (expected >>= f') good' ((x >>= f) p) := by
  show Keeps c root r fits p (expected >>= f') good' (EStateM.bind x f p)
  unfold EStateM.bind
  cases result : x p with
  | ok a s =>
    rw [result] at h
    obtain ⟨sound, later, b, rfl, fine⟩ := h
    exact (next b a s sound later rfl fine).trans later
  | error e s =>
    rw [result] at h
    obtain ⟨sound, later, rfl⟩ := h
    exact ⟨sound, later, rfl⟩

theorem map {x : Compile α} {f : α → α'} {good' : β → α' → Progress → Prop}
    (h : Keeps c root r fits p expected good (x p))
    (next : ∀ b a q, Later fits p q → good b a q → good' b (f a) q) :
    Keeps c root r fits p expected good' ((x >>= fun a => Pure.pure (f a)) p) := by
  show Keeps c root r fits p expected good' (EStateM.bind x (fun a => Pure.pure (f a)) p)
  unfold EStateM.bind
  cases result : x p with
  | ok a s =>
    rw [result] at h
    obtain ⟨sound, later, b, same, fine⟩ := h
    exact ⟨sound, later, b, same, next b a s later fine⟩
  | error e s =>
    rw [result] at h
    exact h

theorem map_expected {result : EStateM.Result RequestError Progress α} {f : β → β'}
    {good' : β' → α → Progress → Prop} (h : Keeps c root r fits p expected good result)
    (next : ∀ b a q, expected = .ok b → good b a q → good' (f b) a q) :
    Keeps c root r fits p (expected >>= fun b => Pure.pure (f b)) good' result := by
  cases result with
  | ok a s =>
    obtain ⟨sound, later, b, rfl, fine⟩ := h
    exact ⟨sound, later, f b, rfl, next b a s rfl fine⟩
  | error e s =>
    obtain ⟨sound, later, rfl⟩ := h
    exact ⟨sound, later, rfl⟩

/-- A refusal on both sides. -/
theorem guard {refused : Bool} {e : RequestError} {x : Compile α} (sound : Sound c root r p)
    (next : refused = false → Keeps c root r fits p expected good (x p)) :
    Keeps c root r fits p
      (if refused = true then (MonadExcept.throw e : Except RequestError PUnit) >>= fun _ => expected
        else expected) good
      ((if refused = true then (MonadExcept.throw e : Compile PUnit) >>= fun _ => x else x) p) := by
  cases refused with
  | true => exact ⟨sound, .refl fits p, rfl⟩
  | false => exact next rfl

/-- A step that has no counterpart in what is expected. -/
theorem bind_silent {x : Compile α} {f : α → Compile α'} {after : α → Progress → Prop}
    {expected : Except RequestError β'} {good' : β' → α' → Progress → Prop}
    (h : Keeps c root r fits p (.ok ()) (fun _ => after) (x p))
    (next : ∀ a q, Sound c root r q → Later fits p q → after a q →
      Keeps c root r fits q expected good' (f a q)) :
    Keeps c root r fits p expected good' ((x >>= f) p) :=
  show Keeps c root r fits p (Except.ok () >>= fun _ => expected) good' _ from
    Keeps.bind h fun _ a q sound later _ => next a q sound later

theorem ofExcept (sound : Sound c root r p) (x : Except RequestError α) :
    Keeps c root r fits p x (fun b a q => a = b ∧ q = p) (Compile.ofExcept x p) := by
  cases x with
  | ok a => exact ⟨sound, .refl fits p, a, rfl, rfl, rfl⟩
  | error e => exact ⟨sound, .refl fits p, rfl⟩

end Keeps

/-- A link from a place may be joined where nothing has been joined yet. -/
theorem Sound.addJoin {walked : List String} {here : Occurrence} {b : Bool} {type : Resource}
    {relationship : String} {l : Link} (sound : Sound c root r p)
    (place : LeadsTo root p.joins walked here b)
    (found : c.metadata.findResource here.resource = .ok type)
    (declared : c.metadata.Declares type relationship l)
    (new : ∀ j ∈ p.joins, j.path ≠ walked ++ [relationship]) (included : Bool)
    (fit : fits (walked ++ [relationship]) included) :
    let added : PathJoin := ⟨walked ++ [relationship], l.target.name, l.join here b (p.tables + 1),
      included⟩
    let next : Progress := { p with tables := p.tables + 1, joins := p.joins ++ [added] }
    added ∈ next.joins ∧ Sound c root r next ∧ Later fits { p with tables := p.tables + 1 } next := by
  refine ⟨List.mem_append_right _ (List.mem_singleton_self _), ⟨sound.named, sound.remembers, ?_⟩,
    Nat.le_refl _, ?_, ?_⟩
  · exact .snoc sound.linked place found declared new (Nat.lt_succ_self _) (Nat.le_refl _)
  · exact ⟨id, _, ⟨fun _ => rfl, fun _ => id⟩, by rw [List.map_id]⟩
  · intro j member
    rcases List.mem_append.1 member with member | member
    · exact .inl member
    · obtain rfl := List.mem_singleton.1 member
      exact .inr fit

namespace Compile

theorem bind_ofExcept (a : α) (f : α → Compile α') : (ofExcept (.ok a) >>= f) = f a := rfl

theorem bind_eq_ok {x : Compile α} {f : α → Compile α'} {b : α'} :
    (x >>= f) p = .ok b q ↔ ∃ a s, x p = .ok a s ∧ f a s = .ok b q := by
  show EStateM.bind x f p = .ok b q ↔ _
  unfold EStateM.bind
  cases x p with
  | ok a s =>
    constructor
    · intro run
      exact ⟨a, s, rfl, run⟩
    · rintro ⟨_, _, same, run⟩
      cases same
      exact run
  | error e s => simp

theorem bind_of_ok {x : Compile α} {f : α → Compile α'} {a : α} (run : x p = .ok a q) :
    (x >>= f) p = f a q := by
  show EStateM.bind x f p = _
  unfold EStateM.bind
  rw [run]

theorem bind_of_error {x : Compile α} {f : α → Compile α'} {e : RequestError}
    (run : x p = .error e q) : (x >>= f) p = .error e q := by
  show EStateM.bind x f p = _
  unfold EStateM.bind
  rw [run]

theorem ofExcept_eq_ok {x : Except RequestError α} {a : α} :
    ofExcept x p = .ok a q ↔ x = .ok a ∧ p = q := by
  cases x with
  | ok b => simp
  | error e => simp

theorem keeps_freshAlias (sound : Sound c root r p) :
    Keeps c root r fits p (.ok ()) (fun _ a q => a = tableAlias (p.tables + 1) ∧
      q = { p with tables := p.tables + 1 }) (freshAlias p) :=
  ⟨⟨sound.named, sound.remembers, sound.linked.mono (Nat.le_succ _)⟩,
    .of_joins_eq (Nat.le_succ _) rfl, (), rfl, rfl, rfl⟩

theorem keeps_bindValue (sound : Sound c root r p) (value : Value) :
    Keeps c root r fits p (.ok ()) (fun _ a _ => a.value = value) (bindValue value p) :=
  ⟨⟨sound.named, sound.remembers, sound.linked⟩, .of_joins_eq (Nat.le_refl _) rfl, (), rfl, rfl⟩

/-- A foreign key that is looked up is the resolved one, remembered or not, and nothing changes but
what is remembered. -/
theorem foreignKey_apply {declaring : Resource} (remembers : p.Remembers c.metadata)
    (found : c.metadata.findResource declaring.name = .ok declaring) (relationship : String) :
    ∃ memory, Progress.Remembers c.metadata { p with memory } ∧
      foreignKey c.metadata declaring relationship p =
        match ForeignKey.resolve c.metadata declaring relationship with
        | .ok key => .ok key { p with memory }
        | .error e => .error e p := by
  cases held : p.memory.bind (·.lookup (declaring.name, relationship)) with
  | some key =>
    obtain ⟨memory, remembered, looked⟩ := Option.bind_eq_some_iff.1 held
    obtain ⟨before, after, rfl, -⟩ := List.lookup_eq_some_iff.1 looked
    obtain ⟨other, named, resolved⟩ := remembers _ remembered declaring.name relationship key
      (by simp)
    obtain rfl : other = declaring := Except.ok.inj (named.symm.trans found)
    exact ⟨p.memory, remembers, by rw [foreignKey_apply_of_remembered held, resolved]⟩
  | none =>
    rw [foreignKey_apply_of_not_remembered held]
    cases resolved : ForeignKey.resolve c.metadata declaring relationship with
    | error e => exact ⟨p.memory, remembers, rfl⟩
    | ok key =>
      refine ⟨_, ?_, rfl⟩
      intro memory remembered name other found' member
      obtain ⟨old, held, rfl⟩ := Option.map_eq_some_iff.1 remembered
      rcases List.mem_cons.1 member with new | member
      · cases new
        exact ⟨declaring, found, resolved⟩
      · exact remembers old held name other found' member

theorem keeps_foreignKey {declaring : Resource} (sound : Sound c root r p)
    (found : c.metadata.findResource declaring.name = .ok declaring) (relationship : String) :
    Keeps c root r fits p (ForeignKey.resolve c.metadata declaring relationship)
      (fun b a q => a = b ∧ q.joins = p.joins)
      (foreignKey c.metadata declaring relationship p) := by
  obtain ⟨memory, remembers, same⟩ := foreignKey_apply sound.remembers found relationship
  rw [same]
  cases ForeignKey.resolve c.metadata declaring relationship with
  | error e => exact ⟨sound, .refl fits p, rfl⟩
  | ok key =>
    exact ⟨⟨sound.named, remembers, sound.linked⟩, .of_joins_eq (Nat.le_refl _) rfl, key, rfl, rfl, rfl⟩

theorem keeps_includeJoin (sound : Sound c root r p) {path : List String}
    (fit : fits path true) :
    Keeps c root r fits p (.ok ()) (fun _ _ q => ∀ {walked here b},
      LeadsTo root p.joins walked here b → LeadsTo root q.joins walked here b)
      (includeJoin path p) := by
  let mark : PathJoin → PathJoin := fun j => if j.path = path then { j with included := true } else j
  have marks : PathJoin.Marks mark := PathJoin.marks_include path
  have later : Later fits p { p with joins := p.joins.map mark } := by
    refine ⟨Nat.le_refl _, ⟨mark, [], marks, (List.append_nil _).symm⟩, ?_⟩
    intro j member
    obtain ⟨i, hi, rfl⟩ := List.mem_map.1 member
    simp only [mark]
    split
    · next same => exact .inr (same ▸ fit)
    · exact .inl hi
  exact ⟨⟨sound.named, sound.remembers, sound.linked.map_marks marks.core⟩, later, (), rfl,
    fun place => place.later later⟩

/-! ## Following a relationship -/

section

variable {walk : Walk} {walked : List String} {here : Occurrence} {relationship : String}

section

variable {parent : Resource} {key : ForeignKey}
  (found : c.metadata.findResource here.resource = .ok parent)
  (looked : foreignKey c.metadata parent relationship p = .ok key q)

include found looked

theorem follow_refused (refused : (!walk.toMany && !key.isToOne) = true) :
    follow c walk walked here relationship p = .error key.toOneError q := by
  rw [follow, found, bind_ofExcept, bind_of_ok looked, refused]
  rfl

variable (allowed : (!walk.toMany && !key.isToOne) = false)

include allowed

theorem follow_joined {j : PathJoin} (joined : q.joinAt (walked ++ [relationship]) = some j) :
    follow c walk walked here relationship p =
      if walk.included then
        (includeJoin (walked ++ [relationship]) >>= fun _ => pure j.occurrence) q
      else .ok j.occurrence q := by
  rw [follow, found, bind_ofExcept, bind_of_ok looked, allowed]
  simp only [Bool.false_eq_true, if_false, get_bind, joined]
  cases walk.included <;> rfl

variable (absent : q.joinAt (walked ++ [relationship]) = none)

include absent

theorem follow_unknown {e : RequestError} (unknown : c.metadata.findResource key.target = .error e) :
    follow c walk walked here relationship p = .error e q := by
  rw [follow, found, bind_ofExcept, bind_of_ok looked, allowed]
  simp only [Bool.false_eq_true, if_false, get_bind, absent, unknown]
  rfl

variable {target : Resource} (named : c.metadata.findResource key.target = .ok target)

include named

theorem follow_unlinked {e : RequestError} (unlinked : c.metadata.link parent key = .error e) :
    follow c walk walked here relationship p = .error e { q with tables := q.tables + 1 } := by
  have fresh : freshAlias q = .ok (tableAlias (q.tables + 1)) { q with tables := q.tables + 1 } :=
    rfl
  rw [follow, found, bind_ofExcept, bind_of_ok looked, allowed]
  simp only [Bool.false_eq_true, if_false, get_bind, absent, named]
  rw [bind_ofExcept, bind_of_ok fresh, Metadata.joinColumns_eq named, unlinked]
  rfl

/-- The table of the link is joined, as behind a left join if the place is so. -/
theorem follow_joins {l : Link} (linked : c.metadata.link parent key = .ok l) :
    let joined : PathJoin := ⟨walked ++ [relationship], l.target.name,
      l.join here ((q.joinAt walked).any (·.join.kind = .left)) (q.tables + 1), walk.included⟩
    follow c walk walked here relationship p = .ok joined.occurrence
      { q with tables := q.tables + 1, joins := q.joins ++ [joined] } := by
  have fresh : freshAlias q = .ok (tableAlias (q.tables + 1)) { q with tables := q.tables + 1 } :=
    rfl
  obtain rfl := Metadata.key_of_link linked
  obtain rfl := Metadata.target_of_link named linked
  rw [follow, found, bind_ofExcept, bind_of_ok looked, allowed]
  simp only [Bool.false_eq_true, if_false, get_bind, absent, named]
  rw [bind_ofExcept, bind_of_ok fresh, Metadata.joinColumns_eq named, linked]
  rfl

end

variable {b : Bool} {type : Resource}

/-- What following a relationship from a place comes to, when its foreign key was looked up. -/
inductive Followed (c : Context) (walk : Walk) (walked : List String) (here : Occurrence) (b : Bool)
    (type : Resource) (relationship : String) (q : Progress) :
    EStateM.Result RequestError Progress Occurrence → Prop
  /-- The metadata refuse it. -/
  | refused {e : RequestError}
      (hopped : c.metadata.hop walk.toMany type relationship = .error e) :
      Followed c walk walked here b type relationship q (.error e q)
  /-- It goes to the table that was joined at the end of the path. -/
  | joined {l : Link} {j : PathJoin}
      (hopped : c.metadata.hop walk.toMany type relationship = .ok l)
      (member : j ∈ q.joins) (path : j.path = walked ++ [relationship])
      (named : c.metadata.findResource j.occurrence.resource = .ok l.target) :
      Followed c walk walked here b type relationship q
        (if walk.included then
          (includeJoin (walked ++ [relationship]) >>= fun _ => pure j.occurrence) q
        else .ok j.occurrence q)
  /-- It joins the table of the link there. -/
  | joins {l : Link} {joined : PathJoin}
      (hopped : c.metadata.hop walk.toMany type relationship = .ok l)
      (declared : c.metadata.Declares type relationship l)
      (new : ∀ j ∈ q.joins, j.path ≠ walked ++ [relationship])
      (made : joined = ⟨walked ++ [relationship], l.target.name, l.join here b (q.tables + 1),
        walk.included⟩) :
      Followed c walk walked here b type relationship q (.ok joined.occurrence
        { q with tables := q.tables + 1, joins := q.joins ++ [joined] })

/-- The table at the end of the path was joined before. -/
theorem followed_joined {start n : Nat} {key : ForeignKey} {j : PathJoin}
    (chained : Chained c.metadata root start n q.joins) (place : LeadsTo root q.joins walked here b)
    (found : c.metadata.findResource here.resource = .ok type)
    (resolved : ForeignKey.resolve c.metadata type relationship = .ok key)
    (looked : foreignKey c.metadata type relationship p = .ok key q)
    (allowed : (!walk.toMany && !key.isToOne) = false)
    (joined : q.joinAt (walked ++ [relationship]) = some j) :
    Followed c walk walked here b type relationship q
      (follow c walk walked here relationship p) := by
  obtain ⟨l, declared, target⟩ := chained.link_of_joinAt place found joined
  obtain ⟨member, path⟩ := chained.joinAt_eq_some_iff.1 joined
  obtain rfl := Except.ok.inj (resolved.symm.trans declared.key)
  have hopped : c.metadata.hop walk.toMany type relationship = .ok l := by
    rw [Metadata.hop_of_resolve resolved, allowed]
    exact declared.link
  have named : c.metadata.findResource j.occurrence.resource = .ok l.target := by
    rw [PathJoin.occurrence, target]
    exact declared.target_found
  rw [follow_joined found looked allowed joined]
  exact .joined hopped member path named

/-- No table was joined at the end of the path, and there is a link. -/
theorem followed_joins {start n : Nat} {key : ForeignKey} {target : Resource} {l : Link}
    (chained : Chained c.metadata root start n q.joins) (place : LeadsTo root q.joins walked here b)
    (found : c.metadata.findResource here.resource = .ok type)
    (resolved : ForeignKey.resolve c.metadata type relationship = .ok key)
    (looked : foreignKey c.metadata type relationship p = .ok key q)
    (allowed : (!walk.toMany && !key.isToOne) = false)
    (absent : q.joinAt (walked ++ [relationship]) = none)
    (named : c.metadata.findResource key.target = .ok target)
    (linked : c.metadata.link type key = .ok l) :
    Followed c walk walked here b type relationship q
      (follow c walk walked here relationship p) := by
  have hopped : c.metadata.hop walk.toMany type relationship = .ok l := by
    rw [Metadata.hop_of_resolve resolved, allowed]
    exact linked
  have new : ∀ j ∈ q.joins, j.path ≠ walked ++ [relationship] := by
    intro j member same
    rw [chained.joinAt_eq_some_iff.2 ⟨member, same⟩] at absent
    cases absent
  rw [follow_joins found looked allowed absent named linked, chained.behindLeft_eq place]
  exact .joins hopped
    (Metadata.declares_of_link (Metadata.findResource_self found) resolved linked) new rfl

/-- Following a relationship looks up its foreign key first; then the metadata refuse it, or it goes
to a table that was joined, or joins one. -/
theorem follow_cases {start : Nat} (remembers : p.Remembers c.metadata)
    (chained : Chained c.metadata root start p.tables p.joins)
    (place : LeadsTo root p.joins walked here b)
    (found : c.metadata.findResource here.resource = .ok type) (walk : Walk)
    (relationship : String) :
    ∃ q, q.Remembers c.metadata ∧ p.tables ≤ q.tables ∧ q.joins = p.joins ∧
      Followed c walk walked here b type relationship q
        (follow c walk walked here relationship p) := by
  obtain ⟨memory, remembered, looked⟩ :=
    foreignKey_apply remembers (Metadata.findResource_self found) relationship
  cases resolved : ForeignKey.resolve c.metadata type relationship with
  | error e =>
    rw [resolved] at looked
    refine ⟨p, remembers, Nat.le_refl _, rfl, ?_⟩
    rw [follow, found, bind_ofExcept, bind_of_error looked]
    refine .refused ?_
    rw [Metadata.hop, resolved]
    rfl
  | ok key =>
    rw [resolved] at looked
    -- the look-up changed nothing but what is remembered
    obtain ⟨q, remembers, le, same, looked⟩ : ∃ q, q.Remembers c.metadata ∧ p.tables ≤ q.tables ∧
        q.joins = p.joins ∧ foreignKey c.metadata type relationship p = .ok key q :=
      ⟨_, remembered, Nat.le_refl _, rfl, looked⟩
    rw [← same] at place chained
    have hopped : c.metadata.hop walk.toMany type relationship = _ :=
      Metadata.hop_of_resolve resolved
    cases allowed : !walk.toMany && !key.isToOne with
    | true =>
      refine ⟨q, remembers, le, same, ?_⟩
      rw [follow_refused found looked allowed]
      rw [allowed] at hopped
      exact .refused hopped
    | false =>
      rw [allowed, if_neg Bool.false_ne_true] at hopped
      cases joined : q.joinAt (walked ++ [relationship]) with
      | some j =>
        exact ⟨q, remembers, le, same,
          followed_joined chained place found resolved looked allowed joined⟩
      | none =>
        cases named : c.metadata.findResource key.target with
        | error e =>
          refine ⟨q, remembers, le, same, ?_⟩
          rw [follow_unknown found looked allowed joined named]
          exact .refused (hopped.trans (Metadata.link_eq_error named))
        | ok target =>
          cases linked : c.metadata.link type key with
          | error e =>
            refine ⟨{ q with tables := q.tables + 1 }, remembers, Nat.le_succ_of_le le, same, ?_⟩
            rw [follow_unlinked found looked allowed joined named linked]
            exact .refused (hopped.trans linked)
          | ok l =>
            exact ⟨q, remembers, le, same,
              followed_joins chained place found resolved looked allowed joined named linked⟩

end

/-- Following a relationship from a place leads to the target of its link. -/
theorem keeps_follow {walk : Walk} {walked : List String} {here : Occurrence} {b : Bool}
    {type : Resource} {relationship : String} (sound : Sound c root r p)
    (place : LeadsTo root p.joins walked here b)
    (found : c.metadata.findResource here.resource = .ok type)
    (fit : ∀ l, c.metadata.hop walk.toMany type relationship = .ok l →
      fits (walked ++ [relationship]) walk.included) :
    Keeps c root r fits p (c.metadata.hop walk.toMany type relationship)
      (fun l next q => c.metadata.findResource next.resource = .ok l.target ∧
        ∃ b, LeadsTo root q.joins (walked ++ [relationship]) next b)
      (follow c walk walked here relationship p) := by
  obtain ⟨q, remembers, le, same, done⟩ :=
    follow_cases sound.remembers sound.linked.chained place found walk relationship
  have sound' : Sound c root r q := ⟨sound.named, remembers, same ▸ sound.linked.mono le⟩
  have later : Later fits p q := .of_joins_eq le same
  generalize follow c walk walked here relationship p = result at done ⊢
  cases done with
  | refused hopped =>
    rw [hopped]
    exact ⟨sound', later, rfl⟩
  | @joined l j hopped member path named =>
    have leads : LeadsTo root q.joins (walked ++ [relationship]) j.occurrence
        (decide (j.join.kind = .left)) := path ▸ .join member
    rw [hopped]
    cases included : walk.included with
    | true =>
      have marked := keeps_includeJoin sound' (included ▸ fit l hopped)
      refine Keeps.trans later (Keeps.bind_silent marked ?_)
      intro _ s sound _ kept
      exact Keeps.pure sound ⟨named, _, kept leads⟩
    | false => exact ⟨sound', later, l, rfl, named, _, leads⟩
  | @joins l joined hopped declared new made =>
    obtain rfl := made
    rw [← same] at place
    obtain ⟨added, sound, joined⟩ :=
      sound'.addJoin place found declared new walk.included (fit l hopped)
    have given : Later fits q { q with tables := q.tables + 1 } :=
      .of_joins_eq (Nat.le_succ _) rfl
    rw [hopped]
    exact ⟨sound, later.trans (given.trans joined), l, rfl, declared.target_found, _, .join added⟩

end Compile

end

end ResourceSql
