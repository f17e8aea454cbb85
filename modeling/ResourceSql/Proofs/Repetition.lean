/-
Steps done again. What was looked up or joined stays so while nothing is
forgotten (`Progress.Retains`), and then walking to a field a second time finds
the same column and changes nothing (`repeats_field`). Steps that behave so
compose (`Repeats.bind`); joining a table is the only one that has to be looked
at from both sides, since what is joined the first time is found the second
time.
-/
import ResourceSql.Proofs.Runs

namespace ResourceSql

/-- What was remembered and joined at `p` is so at `q`. Where keys are not remembered at all, they
never will be. -/
structure Progress.Retains (p q : Progress) : Prop where
  keys : ∀ {names key}, p.memory.bind (·.lookup names) = some key →
    q.memory.bind (·.lookup names) = some key
  without : p.memory = none → q.memory = none
  joins : ∀ {path j}, p.joinAt path = some j → q.joinAt path = some j

namespace Progress.Retains

variable {p q s : Progress}

theorem refl (p : Progress) : p.Retains p := ⟨id, id, id⟩

theorem trans (h : p.Retains q) (h' : q.Retains s) : p.Retains s :=
  ⟨h'.keys ∘ h.keys, h'.without ∘ h.without, h'.joins ∘ h.joins⟩

/-- Aliases and parameters are only counted. -/
theorem of_eq (memory : q.memory = p.memory) (joins : q.joins = p.joins) : p.Retains q := by
  refine ⟨?_, ?_, ?_⟩
  · rw [memory]
    exact id
  · rw [memory]
    exact id
  · unfold joinAt
    rw [joins]
    exact id

/-- A key is remembered that was not before. -/
theorem remember {names : String × String} (key : ForeignKey)
    (new : p.memory.bind (·.lookup names) = none) :
    p.Retains { p with memory := p.memory.map ((names, key) :: ·) } := by
  refine ⟨fun {other found} held => ?_, fun without => ?_, id⟩
  · obtain ⟨memory, remembered, looked⟩ := Option.bind_eq_some_iff.1 held
    have distinct : (other == names) = false := by
      refine Bool.eq_false_iff.2 fun same => ?_
      rw [← eq_of_beq same, held] at new
      cases new
    rw [remembered, Option.map_some, Option.bind_some, List.lookup_cons, distinct]
    exact looked
  · rw [without]
    rfl

/-- A table is joined. -/
theorem join (j : PathJoin) : p.Retains { p with joins := p.joins ++ [j] } := by
  refine ⟨id, id, fun {path found} joined => ?_⟩
  unfold joinAt at joined ⊢
  rw [List.find?_append, joined]
  rfl

end Progress.Retains

/-- A table that is joined is found at its path. -/
theorem Progress.joinAt_join {p : Progress} {j : PathJoin} (absent : p.joinAt j.path = none) :
    joinAt { p with joins := p.joins ++ [j] } j.path = some j := by
  unfold joinAt at absent ⊢
  rw [List.find?_append, absent]
  simp

namespace Compile

section

variable {α β : Type}

/-- Done once, the step gives the same when it is done again, and then changes nothing. -/
structure Repeats (x : Compile α) : Prop where
  of_ok {p q : Progress} {a : α} : x p = .ok a q →
    p.Retains q ∧ ∀ s, q.Retains s → x s = .ok a s

namespace Repeats

theorem pure (a : α) : Repeats (Pure.pure a) := by
  refine ⟨fun run => ?_⟩
  obtain ⟨rfl, rfl⟩ := pure_eq_ok.1 run
  exact ⟨.refl _, fun _ _ => rfl⟩

theorem throw (e : RequestError) : Repeats (MonadExcept.throw e : Compile α) :=
  ⟨fun run => absurd run throw_ne_ok⟩

theorem ofExcept (x : Except RequestError α) : Repeats (Compile.ofExcept x) := by
  refine ⟨fun run => ?_⟩
  obtain ⟨rfl, rfl⟩ := ofExcept_eq_ok.1 run
  exact ⟨.refl _, fun _ _ => rfl⟩

theorem bind {x : Compile α} {f : α → Compile β} (first : Repeats x) (next : ∀ a, Repeats (f a)) :
    Repeats (x >>= f) := by
  refine ⟨fun run => ?_⟩
  obtain ⟨a, p₁, ran, run⟩ := bind_eq_ok.1 run
  obtain ⟨before, again⟩ := first.of_ok ran
  obtain ⟨after, again'⟩ := (next a).of_ok run
  exact ⟨before.trans after, fun s kept =>
    bind_eq_ok.2 ⟨a, s, again s (after.trans kept), again' s kept⟩⟩

theorem guard {refused : Bool} {e : RequestError} {x : Compile α} (next : Repeats x) :
    Repeats (if refused = true then (MonadExcept.throw e : Compile PUnit) >>= fun _ => x else x) := by
  cases refused with
  | true => exact .bind (.throw e) fun _ => next
  | false => exact next

end Repeats

end

variable (c : Context)

theorem repeats_foreignKey (declaring : Resource) (relationship : String) :
    Repeats (foreignKey c.metadata declaring relationship) := by
  refine ⟨fun {p q key} run => ?_⟩
  cases held : p.memory.bind (·.lookup (declaring.name, relationship)) with
  | some found =>
    rw [foreignKey_apply_of_remembered held] at run
    cases run
    exact ⟨.refl p, fun s kept => foreignKey_apply_of_remembered (kept.keys held)⟩
  | none =>
    rw [foreignKey_apply_of_not_remembered held] at run
    cases resolved : ForeignKey.resolve c.metadata declaring relationship with
    | error e =>
      rw [resolved] at run
      cases run
    | ok found =>
      rw [resolved] at run
      cases run
      refine ⟨.remember key held, fun s kept => ?_⟩
      cases memory : p.memory with
      | some known =>
        refine foreignKey_apply_of_remembered (kept.keys ?_)
        rw [memory, Option.map_some, Option.bind_some, List.lookup_cons_self]
      | none =>
        have without : s.memory = none := kept.without (by rw [memory]; rfl)
        rw [foreignKey_apply_of_not_remembered (by rw [without]; rfl), resolved, without]
        dsimp only [Option.map_none]
        rw [← without]

/-- What is joined the first time is found the second time. -/
theorem Repeats.joinAt {α : Type} {path : List String} {found : PathJoin → Compile α}
    {missing : Compile α} (again : ∀ j, Repeats (found j))
    (made : ∀ {p q a}, p.joinAt path = none → missing p = .ok a q →
      p.Retains q ∧ ∃ j, q.joinAt path = some j ∧ ∀ s, found j s = .ok a s) :
    Repeats (get >>= fun p : Progress =>
      match p.joinAt path with
      | some j => found j
      | none => missing) := by
  refine ⟨fun {p q a} run => ?_⟩
  rw [get_bind] at run
  cases joined : p.joinAt path with
  | some j =>
    rw [joined] at run
    obtain ⟨retained, same⟩ := (again j).of_ok run
    refine ⟨retained, fun s kept => ?_⟩
    rw [get_bind, kept.joins (retained.joins joined)]
    exact same s kept
  | none =>
    rw [joined] at run
    obtain ⟨retained, j, now, same⟩ := made joined run
    refine ⟨retained, fun s kept => ?_⟩
    rw [get_bind, kept.joins now]
    exact same s

/-- A table that is not selected is joined once. -/
theorem repeats_follow {walk : Walk} (unselected : walk.included = false) (walked : List String)
    (here : Occurrence) (relationship : String) :
    Repeats (follow c walk walked here relationship) := by
  refine .bind (.ofExcept _) fun parent => .bind (repeats_foreignKey c parent relationship) fun key =>
    .guard (.joinAt ?_ ?_)
  · intro j
    rw [unselected]
    exact .pure _
  · intro p q next absent run
    simp only [bind_eq_ok, ofExcept_eq_ok] at run
    obtain ⟨target, _, ⟨named, rfl⟩, a, p₁, fresh, ⟨outer, inner⟩, _, ⟨columns, rfl⟩, _, _, got, _,
      _, added, run⟩ := run
    cases fresh
    cases got
    cases added
    cases run
    have counted : p.Retains { p with tables := p.tables + 1 } := .of_eq rfl rfl
    refine ⟨counted.trans (.join _), _, Progress.joinAt_join absent, fun s => ?_⟩
    rw [unselected]
    rfl

theorem repeats_walkOn {walk : Walk} (unselected : walk.included = false) (walked : List String)
    (here : Occurrence) (path : List String) : Repeats (walkOn c walk walked here path) := by
  induction path generalizing walked here with
  | nil => exact .pure here
  | cons relationship rest ih =>
    exact .bind (repeats_follow c unselected walked here relationship) fun next => ih _ next

/-- A field that was found is found again. -/
theorem repeats_field (root : Occurrence) (path : List String) : Repeats (field c root path) := by
  have walks (path : List String) : Repeats (walkPath c .toField root path) :=
    repeats_walkOn c rfl [] root path
  unfold field
  cases path.getLast? with
  | none => exact .throw _
  | some name =>
    refine .bind (walks _) fun here => .bind (.ofExcept _) fun resource => ?_
    cases resource.type.attributes.get? name with
    | some found => exact .pure _
    | none =>
      dsimp only
      split
      · exact .bind (walks _) fun related => .bind (.ofExcept _) fun target =>
          .bind (.ofExcept _) fun primaryKey => .pure _
      · exact .throw _

end Compile

end ResourceSql
