/-
An update as the composition of its parts. The keys that a row holds itself are
assigned with its attributes, in one statement; every other relationship is set
by statements of its own, which are those that would set it alone. So an update
can be compiled just if its part for the row can and each of the others can be
set, and its commands are those of the parts, one after the other
(`Request.Mutation.update_composes`).
-/
import Mathlib.Data.List.Forall2
import ResourceSql.Proofs.Assignments
import ResourceSql.Proofs.Commands
import ResourceSql.Proofs.Steadiness

namespace ResourceSql

/-- The entries whose names fulfil a condition. -/
def NameMap.restrict {α : Type} (map : NameMap α) (keep : String → Bool) : NameMap α :=
  ⟨map.entries.filter fun entry => keep entry.1, map.ascending.filter _⟩

/-- The table of a resource holds the foreign key of a to-one relationship. -/
def Resource.holdsKey (r : Resource) (relationship : String) : Bool :=
  (r.heldKey? relationship).isSome

theorem Resource.holdsKey_of_resolve {m : Metadata} {r : Resource} {name : String}
    {key : ForeignKey} (resolved : ForeignKey.resolve m r name = .ok key) :
    r.holdsKey name = (key.isToOne && key.atLeftSide) := by
  rw [holdsKey, heldKey?_of_resolve resolved]
  cases key.isToOne && key.atLeftSide <;> rfl

def Metadata.holdsKey (m : Metadata) (resource relationship : String) : Bool :=
  match m.findResource resource with
  | .ok r => r.holdsKey relationship
  | .error _ => false

namespace Compile

section

variable {γ δ : Type} {c : Context} {u : Progress → γ} {v : Progress → δ} {r : Resource}

/-! ## Steps of mutations -/

theorem steady_rowIs (counting : Progress.Counting u) (resource : Resource) (table : Sql.Table)
    (id : Json) : Steady c.metadata u u (rowIs c resource table id) :=
  .bind (.ofExcept _) fun _ => .bind (steady_bindId counting _ _) fun _ => .pure _

theorem steady_rowIsAnyOf (counting : Progress.Counting u) (resource : Resource)
    (table : Sql.Table) (ids : List Json) :
    Steady c.metadata u u (rowIsAnyOf c resource table ids) := by
  refine .bind (.ofExcept _) fun _ => .bind (.forEach (fun id => ?_) ids) fun _ => .pure _
  exact .bind (steady_bindId counting _ _) fun _ => .pure _

theorem steady_assignKey (counting : Progress.Counting u) (table : Sql.Table) (key : ForeignKey)
    (data : Request.RelationshipData) : Steady c.metadata u u (assignKey c table key data) := by
  unfold assignKey
  split
  · exact .throw _
  · exact .ite (fun _ => .pure _) fun _ => .throw _
  · exact .bind (.ofExcept _) fun _ => .bind (steady_bindId counting _ _) fun _ => .pure _

theorem steady_narrow (counting : Progress.Counting u) (target : Resource) (table : Sql.Table)
    (owned : Sql.Condition) (selection : Selection) :
    Steady c.metadata u u (narrow c target table owned selection) := by
  unfold narrow
  split
  · exact .pure _
  · exact .pure _
  · exact .bind (steady_rowIsAnyOf counting _ _ _) fun _ => .pure _
  · exact .bind (steady_rowIsAnyOf counting _ _ _) fun _ => .pure _

theorem steady_detach (counting : Progress.Counting v) (restarts : Progress.Restarts u v)
    (resource : Resource) (key : ForeignKey) (behavior : DeleteBehavior) (id : Json)
    (selection : Selection) :
    Steady c.metadata u v (detach c resource key behavior id selection) := by
  refine .bind (steady_startStatement restarts) fun _ => .bind (.ofExcept _) fun target =>
    .bind (steady_bindId counting _ _) fun _ => .bind (steady_narrow counting _ _ _ _) fun _ => ?_
  refine .ite (fun _ => .pure _) fun _ => ?_
  exact .ite (fun _ => .pure _) fun _ => .throw _

theorem steady_attach (counting : Progress.Counting v) (restarts : Progress.Restarts u v)
    (resource : Resource) (key : ForeignKey) (id : Json) (ids : List Json) :
    Steady c.metadata u v (attach c resource key id ids) :=
  .bind (steady_startStatement restarts) fun _ => .bind (.ofExcept _) fun _ =>
    .bind (steady_bindId counting _ _) fun _ => .bind (steady_rowIsAnyOf counting _ _ _) fun _ =>
      .pure _

/-- The statements that set a relationship do not depend on what was compiled before. -/
theorem steady_setRelationship (forgetful : ∀ p memory, u { p with memory } = u p)
    (counting : Progress.Counting v) (restarts : Progress.Restarts u v)
    (found : c.metadata.findResource r.name = .ok r) (id : Json) (relationship : String)
    (data : Request.RelationshipData) :
    Steady c.metadata u v (setRelationship c r id relationship data) := by
  refine .bind (steady_foreignKey forgetful found relationship) fun key =>
    .ite (fun _ => ?_) fun _ => ?_
  · exact .bind (steady_startStatement restarts) fun _ => .bind (steady_assignKey counting _ _ _)
      fun _ => .bind (steady_rowIs counting _ _ _) fun _ => .pure _
  · refine .bind (.ofExcept _) fun ids => .bind (.ofExcept _) fun declared =>
      .bind (steady_detach counting restarts _ _ _ _ _) fun detached =>
        .ite (fun _ => .pure _) fun _ => ?_
    exact .bind (steady_attach counting (fun _ _ same => counting.counted 0 same) _ _ _ _) fun _ =>
      .pure _

end

/-! ## Parts of an update -/

section

variable {c : Context} {r : Resource} {table : Sql.Table} {p q : Progress} {id : Json}

/-- The number of parameters is all that the keys of a row and its conditions depend on. -/
theorem counting_parameters : Progress.Counting (·.parameters) :=
  ⟨fun _ _ => rfl, id, fun _ _ => rfl⟩

/-- How the assignment of held keys ends among other relationships, and how it ends without them:
the same way, unless one of the others is unknown. -/
inductive Parted (m : Metadata) (r : Resource)
    (others : List (String × Request.RelationshipData)) :
    EStateM.Result RequestError Progress
        (List Sql.Assignment × List (String × Request.RelationshipData)) →
      EStateM.Result RequestError Progress
        (List Sql.Assignment × List (String × Request.RelationshipData)) → Prop where
  | ok {keys : List Sql.Assignment} {p q : Progress} (level : p.Level m (·.parameters) q) :
    Parted m r others (.ok (keys, others) p) (.ok (keys, []) q)
  | unknown {e : RequestError} {p : Progress} {alone}
    (lost : ∃ entry ∈ others, ∃ e', ForeignKey.resolve m r entry.1 = .error e') :
    Parted m r others (.error e p) alone
  | error {e e' : RequestError} {p q : Progress} : Parted m r others (.error e p) (.error e' q)

namespace Parted

variable {m : Metadata} {others : List (String × Request.RelationshipData)}

theorem cases {full alone} (parted : Parted m r others full alone) :
    (∃ keys p q, full = .ok (keys, others) p ∧ alone = .ok (keys, []) q ∧
        p.Level m (·.parameters) q) ∨
      ∃ e p, full = .error e p ∧
        ((∃ entry ∈ others, ∃ e', ForeignKey.resolve m r entry.1 = .error e') ∨
          ∃ e' q, alone = .error e' q) := by
  cases parted with
  | ok level => exact .inl ⟨_, _, _, rfl, rfl, level⟩
  | unknown lost => exact .inr ⟨_, _, rfl, .inl lost⟩
  | error => exact .inr ⟨_, _, rfl, .inr ⟨_, _, rfl⟩⟩

variable {x y : Compile (List Sql.Assignment × List (String × Request.RelationshipData))}

/-- A key is assigned before. -/
theorem assigned (assignment : Sql.Assignment) (parted : Parted m r others (x p) (y q)) :
    Parted m r others ((x >>= fun rest => pure (assignment :: rest.1, rest.2)) p)
      ((y >>= fun rest => pure (assignment :: rest.1, rest.2)) q) := by
  obtain ⟨keys, p₁, q₁, run, run', level⟩ | ⟨e, p₁, failed, lost | ⟨e', q₁, failed'⟩⟩ :=
    parted.cases
  · rw [bind_of_ok run, bind_of_ok run']
    exact .ok level
  · rw [bind_of_error failed]
    exact .unknown lost
  · rw [bind_of_error failed, bind_of_error failed']
    exact .error

/-- A relationship is left over before. -/
theorem left (entry : String × Request.RelationshipData) (parted : Parted m r others (x p) (y q)) :
    Parted m r (entry :: others) ((x >>= fun rest => pure (rest.1, entry :: rest.2)) p) (y q) := by
  obtain ⟨keys, p₁, q₁, run, run', level⟩ | ⟨e, p₁, failed, lost | ⟨e', q₁, failed'⟩⟩ :=
    parted.cases
  · rw [bind_of_ok run, run']
    exact .ok level
  · obtain ⟨other, member, unresolved⟩ := lost
    rw [bind_of_error failed]
    exact .unknown ⟨other, List.mem_cons_of_mem _ member, unresolved⟩
  · rw [bind_of_error failed, failed']
    exact .error

end Parted

theorem assignHeldKeys_cons {name : String} {data : Request.RelationshipData} {key : ForeignKey}
    (looked : foreignKey c.metadata r name p = .ok key q)
    (given : List (String × Request.RelationshipData)) :
    assignHeldKeys c r table ((name, data) :: given) p =
      if key.isToOne && key.atLeftSide then
        (assignKey c table key data >>= fun assignment => assignHeldKeys c r table given >>=
          fun rest => pure (assignment :: rest.1, rest.2)) q
      else
        (assignHeldKeys c r table given >>= fun rest =>
          pure (rest.1, (name, data) :: rest.2)) q := by
  rw [assignHeldKeys, bind_of_ok looked]
  split <;> rfl

theorem assignHeldKeys_parted (found : c.metadata.findResource r.name = .ok r)
    (given : List (String × Request.RelationshipData))
    (level : p.Level c.metadata (·.parameters) q) :
    Parted c.metadata r (given.filter fun entry => !r.holdsKey entry.1)
      (assignHeldKeys c r table given p)
      (assignHeldKeys c r table (given.filter fun entry => r.holdsKey entry.1) q) := by
  induction given generalizing p q with
  | nil => exact .ok level
  | cons entry given ih =>
    obtain ⟨name, data⟩ := entry
    obtain ⟨memory, remembers, looked⟩ := foreignKey_apply level.left found name
    obtain ⟨memory', remembers', looked'⟩ := foreignKey_apply level.right found name
    have level₁ : Progress.Level c.metadata (·.parameters) { p with memory }
        { q with memory := memory' } := ⟨remembers, remembers', level.same⟩
    cases holds : r.holdsKey name with
    | true =>
      simp only [List.filter_cons, holds, Bool.not_true, Bool.false_eq_true, if_true, if_false]
      cases resolved : ForeignKey.resolve c.metadata r name with
      | error e =>
        rw [resolved] at looked looked'
        rw [assignHeldKeys, assignHeldKeys, bind_of_error looked, bind_of_error looked']
        exact .error
      | ok key =>
        rw [resolved] at looked looked'
        rw [Resource.holdsKey_of_resolve resolved] at holds
        rw [assignHeldKeys_cons looked, assignHeldKeys_cons looked', if_pos holds, if_pos holds]
        obtain ⟨assignment, p₁, q₁, run, run', level₂⟩ | ⟨e, p₁, q₁, run, run'⟩ :=
          ((steady_assignKey counting_parameters table key data).runs level₁).cases
        · rw [bind_of_ok run, bind_of_ok run']
          exact (ih level₂).assigned assignment
        · rw [bind_of_error run, bind_of_error run']
          exact .error
    | false =>
      simp only [List.filter_cons, holds, Bool.not_false, Bool.false_eq_true, if_true, if_false]
      cases resolved : ForeignKey.resolve c.metadata r name with
      | error e =>
        rw [resolved] at looked
        rw [assignHeldKeys, bind_of_error looked]
        exact .unknown ⟨(name, data), List.mem_cons_self .., e, resolved⟩
      | ok key =>
        rw [resolved] at looked
        rw [Resource.holdsKey_of_resolve resolved] at holds
        rw [assignHeldKeys_cons looked, if_neg (by simp [holds])]
        exact (ih ⟨remembers, level.right, level.same⟩).left (name, data)

/-- The update of the row itself, if anything in it is given a value. -/
def ownUpdate (c : Context) (r : Resource) (id : Json) (assignments : List Sql.Assignment) :
    Compile (List Sql.Statement) :=
  if assignments.isEmpty then pure [] else do
    pure [Sql.Statement.update ⟨r.table none, assignments, ← rowIs c r (r.table none) id⟩]

theorem steady_ownUpdate (assignments : List Sql.Assignment) :
    Steady c.metadata (·.parameters) (·.parameters) (ownUpdate c r id assignments) :=
  .ite (fun _ => .pure _) fun _ => .bind (steady_rowIs counting_parameters _ _ _) fun _ => .pure _

variable {name : String} {attributes : NameMap Json}
  {relationships : NameMap Request.RelationshipData}

/-- From the start, an update assigns attributes and held keys, and goes on with what is left. -/
theorem update_eq (found : c.metadata.findResource name = .ok r) :
    update c name id attributes relationships .start =
      (assignAttributes c r (r.table none) attributes >>= fun values =>
        assignHeldKeys c r (r.table none) relationships.toList >>= fun held =>
          ownUpdate c r id (values ++ held.1) >>= fun own =>
            forEach (fun entry => setRelationship c r id entry.1 entry.2) held.2 >>= fun linked =>
              pure (own ++ linked.flatten)) .start := by
  unfold update
  rw [found, bind_ofExcept]
  refine (bind_of_ok (startStatement_apply .start)).trans (congrFun ?_ Progress.start)
  refine bind_congr fun values => bind_congr fun (keys, others) => ?_
  dsimp only
  unfold ownUpdate
  by_cases none : (values ++ keys).isEmpty = true
  · rw [if_pos none, if_pos none]
  · rw [if_neg none, if_neg none, bind_assoc]

/-- Relationships are set behind other statements just if each of them can be set. -/
theorem setAll_ok_iff (found : c.metadata.findResource r.name = .ok r)
    (remembers : p.Remembers c.metadata) {own statements : List Sql.Statement}
    {others : List (String × Request.RelationshipData)} :
    (∃ q, (forEach (fun entry => setRelationship c r id entry.1 entry.2) others >>= fun linked =>
        pure (own ++ linked.flatten)) p = .ok statements q) ↔
      ∃ linked,
        List.Forall₂ (fun entry made => (setRelationship c r id entry.1 entry.2).result = .ok made)
          others linked ∧
        statements = own ++ linked.flatten := by
  have sets (entry : String × Request.RelationshipData) :
      Steady c.metadata (fun _ => ()) (·.parameters) (setRelationship c r id entry.1 entry.2) :=
    steady_setRelationship (fun _ _ => rfl) counting_parameters (fun _ _ _ => rfl) found id _ _
  simp only [bind_eq_ok, pure_eq_ok, ← Steady.forEach_eq_ok_iff sets remembers]
  constructor
  · intro h
    obtain ⟨q, linked, p₁, run, same, -⟩ := h
    exact ⟨linked, ⟨p₁, run⟩, same.symm⟩
  · intro h
    obtain ⟨linked, ⟨q, run⟩, same⟩ := h
    exact ⟨q, linked, q, run, same.symm, rfl⟩

theorem resolve_of_setRelationship (found : c.metadata.findResource r.name = .ok r)
    {relationship : String} {data : Request.RelationshipData} {made : List Sql.Statement}
    (set : (setRelationship c r id relationship data).result = .ok made) :
    ∃ key, ForeignKey.resolve c.metadata r relationship = .ok key := by
  obtain ⟨q, run⟩ := result_ok.1 set
  obtain ⟨key, p₁, looked, -⟩ := setRelationship_run run
  exact ⟨key, (foreignKey_found (Progress.remembers_start _) found looked).1⟩

/-- An update can be compiled just if its part for the row itself can and each of the other
relationships can be set, and consists of their statements. -/
theorem update_ok_iff (found : c.metadata.findResource name = .ok r)
    {statements : List Sql.Statement} :
    (update c name id attributes relationships).result = .ok statements ↔
      ∃ own linked,
        (update c name id attributes (relationships.restrict r.holdsKey)).result = .ok own ∧
        List.Forall₂ (fun entry made => (setRelationship c r id entry.1 entry.2).result = .ok made)
          (relationships.toList.filter fun entry => !r.holdsKey entry.1) linked ∧
        statements = own ++ linked.flatten := by
  have itself := Metadata.findResource_self found
  have part (own : List Sql.Statement) :
      (update c name id attributes (relationships.restrict r.holdsKey)).result = .ok own ↔
        ∃ q, update c name id attributes (relationships.restrict r.holdsKey) .start = .ok own q :=
    result_ok
  simp only [part]
  rw [result_ok, update_eq found, update_eq found]
  cases assigned : assignAttributes c r (r.table none) attributes .start with
  | error e q =>
    rw [bind_of_error assigned, bind_of_error assigned]
    simp
  | ok values q =>
    rw [bind_of_ok assigned, bind_of_ok assigned]
    have remembers : q.Remembers c.metadata :=
      (Progress.remembers_start _).of_memory (assignAttributes_fixed assigned).1
    have parted : Parted c.metadata r (relationships.toList.filter fun entry => !r.holdsKey entry.1)
        (assignHeldKeys c r (r.table none) relationships.toList q)
        (assignHeldKeys c r (r.table none) (relationships.restrict r.holdsKey).toList q) :=
      assignHeldKeys_parted itself relationships.toList ⟨remembers, remembers, rfl⟩
    obtain ⟨keys, p₁, q₁, run, run', level⟩ | ⟨e, p₁, failed, lost | ⟨e', q₁, failed'⟩⟩ :=
      parted.cases
    · rw [bind_of_ok run, bind_of_ok run']
      obtain ⟨own, p₂, q₂, first, first', level⟩ | ⟨e, p₂, q₂, first, first'⟩ :=
        ((steady_ownUpdate (values ++ keys)).runs level).cases
      · rw [bind_of_ok first, bind_of_ok first', setAll_ok_iff itself level.left]
        simp only [setAll_ok_iff itself level.right, List.forall₂_nil_left_iff]
        constructor
        · intro h
          obtain ⟨linked, all, same⟩ := h
          exact ⟨own, linked, ⟨[], rfl, by simp⟩, all, same⟩
        · intro h
          obtain ⟨own', linked, ⟨none, empty, alone⟩, all, same⟩ := h
          exact ⟨linked, all, by simpa [empty, alone] using same⟩
      · rw [bind_of_error first, bind_of_error first']
        simp
    · -- One of the others is unknown, so that it cannot be set either.
      rw [bind_of_error failed]
      constructor
      · intro h
        obtain ⟨q, same⟩ := h
        cases same
      · intro h
        obtain ⟨own, linked, -, all, -⟩ := h
        obtain ⟨entry, member, e', unresolved⟩ := lost
        obtain ⟨made, -, set⟩ := forall₂_exists_left all.flip member
        obtain ⟨key, resolved⟩ := resolve_of_setRelationship itself set
        rw [unresolved] at resolved
        cases resolved
    · rw [bind_of_error failed, bind_of_error failed']
      simp

/-- What an update of one relationship alone comes to. -/
theorem update_single_eq (found : c.metadata.findResource name = .ok r) (relationship : String)
    (data : Request.RelationshipData) :
    update c name id .empty (.ofList [(relationship, data)]) .start =
      (foreignKey c.metadata r relationship >>= fun key =>
        if key.isToOne && key.atLeftSide then
          assignKey c (r.table none) key data >>= fun assignment =>
            rowIs c r (r.table none) id >>= fun filter =>
              pure [.update ⟨r.table none, [assignment], filter⟩]
        else setRelationship c r id relationship data) .start := by
  rw [update_eq found]
  refine congrFun ?_ Progress.start
  have none : assignAttributes c r (r.table none) .empty = pure [] := rfl
  have one : (NameMap.ofList [(relationship, data)]).toList = [(relationship, data)] := rfl
  rw [none, pure_bind, one, assignHeldKeys, bind_assoc]
  refine bind_congr fun key => ?_
  by_cases held : (key.isToOne && key.atLeftSide) = true
  · simp [held, assignHeldKeys, ownUpdate, forEach]
  · simp [held, assignHeldKeys, ownUpdate, forEach]

/-- An update of one relationship alone ends as if it was set. -/
theorem update_single (found : c.metadata.findResource name = .ok r) (id : Json)
    (relationship : String) (data : Request.RelationshipData) :
    SameEnd c.metadata (·.parameters)
      (update c name id .empty (.ofList [(relationship, data)]) .start)
      (setRelationship c r id relationship data .start) := by
  have itself := Metadata.findResource_self found
  have start := Progress.remembers_start c.metadata
  obtain ⟨memory, remembers, looked⟩ := foreignKey_apply start itself relationship
  rw [update_single_eq found]
  cases resolved : ForeignKey.resolve c.metadata r relationship with
  | error e =>
    rw [resolved] at looked
    rw [setRelationship, bind_of_error looked, bind_of_error looked]
    exact .error
  | ok key =>
    rw [resolved] at looked
    rw [bind_of_ok looked]
    by_cases held : (key.isToOne && key.atLeftSide) = true
    · have left : key.atLeftSide = true := (Bool.and_eq_true_iff.1 held).2
      rw [if_pos held, setRelationship, bind_of_ok looked, if_pos left,
        bind_of_ok (startStatement_apply _)]
      have assigns := (steady_assignKey (c := c) counting_parameters (r.table none) key data).bind
        fun assignment => (steady_rowIs counting_parameters r (r.table none) id).bind fun filter =>
          .pure [Sql.Statement.update ⟨r.table none, [assignment], filter⟩]
      exact assigns.runs ⟨remembers, remembers, rfl⟩
    · rw [if_neg held]
      have sets := steady_setRelationship (u := fun _ => ()) (fun _ _ => rfl) counting_parameters
        (fun _ _ _ => rfl) itself id relationship data
      exact sets.runs ⟨remembers, start, rfl⟩

end

end Compile

/-! ## Commands -/

theorem forall₂_map_iff {α β γ : Type} {related : α → β → Prop} {f : β → γ} {as : List α}
    {cs : List γ} :
    List.Forall₂ (fun a c => ∃ b, related a b ∧ f b = c) as cs ↔
      ∃ bs, List.Forall₂ related as bs ∧ bs.map f = cs := by
  induction as generalizing cs with
  | nil => simp [eq_comm]
  | cons a as ih =>
    simp only [List.forall₂_cons_left_iff, ih]
    constructor
    · intro h
      obtain ⟨c, rest, ⟨b, first, rfl⟩, ⟨bs, all, rfl⟩, rfl⟩ := h
      exact ⟨b :: bs, ⟨b, bs, first, all, rfl⟩, rfl⟩
    · intro h
      obtain ⟨-, ⟨b, bs, first, all, rfl⟩, rfl⟩ := h
      exact ⟨f b, bs.map f, ⟨b, first, rfl⟩, ⟨bs, all, rfl⟩, rfl⟩

namespace Request.Mutation

variable {c : Context}

theorem commands_eq_ok_iff {m : Mutation} {commands : List Sql.Command} :
    m.commands c = .ok commands ↔
      ∃ statements, (Compile.mutation c m).result = .ok statements ∧
        statements.map (·.command c.dialect) = commands := by
  unfold Mutation.commands
  cases (Compile.mutation c m).result with
  | ok statements => simp [Except.bind_eq_ok, pure, Except.pure]
  | error e => simp [bind, Except.bind]

theorem mutation_setRelationship {name : String} {r : Resource}
    (found : c.metadata.findResource name = .ok r) (id : Json) (relationship : String)
    (data : RelationshipData) :
    Compile.mutation c (.setRelationship name id relationship data) =
      Compile.setRelationship c r id relationship data := by
  rw [Compile.mutation, found, Compile.bind_ofExcept]

/-- An update gives commands just if the update of the row itself, with the keys that the row holds,
gives some, and each of the other relationships can be set; they are those commands, behind each
other in the order of the names. An update of one relationship alone is the same as setting it. -/
theorem update_composes (c : Context) (name : String) (id : Json) (attributes : NameMap Json)
    (relationships : NameMap RelationshipData) :
    (∀ commands, (update name id attributes relationships).commands c = .ok commands ↔
      ∃ own linked,
        (update name id attributes (relationships.restrict (c.metadata.holdsKey name))).commands c =
          .ok own ∧
        List.Forall₂
          (fun entry made => (setRelationship name id entry.1 entry.2).commands c = .ok made)
          (relationships.toList.filter fun entry => !c.metadata.holdsKey name entry.1) linked ∧
        commands = own ++ linked.flatten) ∧
    ∀ relationship data,
      (update name id .empty (.ofList [(relationship, data)])).commands c =
        (setRelationship name id relationship data).commands c := by
  cases found : c.metadata.findResource name with
  | error e =>
    have failed (attributes : NameMap Json) (relationships : NameMap RelationshipData) :
        (update name id attributes relationships).commands c = .error e := by
      have unknown : Compile.mutation c (.update name id attributes relationships) = throw e := by
        rw [Compile.mutation, Compile.update, found]
        rfl
      rw [Mutation.commands, unknown]
      rfl
    constructor
    · intro commands
      rw [failed, failed]
      simp
    · intro relationship data
      have unknown : Compile.mutation c (.setRelationship name id relationship data) = throw e := by
        rw [Compile.mutation, found]
        rfl
      rw [failed, Mutation.commands, unknown]
      rfl
  | ok r =>
    have holds : c.metadata.holdsKey name = r.holdsKey := by
      funext relationship
      rw [Metadata.holdsKey, found]
    constructor
    · intro commands
      simp only [holds, commands_eq_ok_iff (m := setRelationship ..),
        mutation_setRelationship found, forall₂_map_iff]
      constructor
      · intro h
        obtain ⟨statements, run, rfl⟩ := commands_eq_ok_iff.1 h
        obtain ⟨own, linked, ran, all, rfl⟩ := (Compile.update_ok_iff found).1 run
        exact ⟨_, _, commands_eq_ok_iff.2 ⟨own, ran, rfl⟩, ⟨linked, all, rfl⟩,
          by rw [List.map_append, List.map_flatten]⟩
      · intro h
        obtain ⟨own, linked, ran, ⟨made, all, rfl⟩, rfl⟩ := h
        obtain ⟨statements, run, rfl⟩ := commands_eq_ok_iff.1 ran
        exact commands_eq_ok_iff.2 ⟨_, (Compile.update_ok_iff found).2 ⟨_, _, run, all, rfl⟩,
          by rw [List.map_append, List.map_flatten]⟩
    · intro relationship data
      have ended := (Compile.update_single found id relationship data).result_eq
      unfold Mutation.commands
      rw [mutation_setRelationship found, Compile.mutation, ended]

end Request.Mutation

end ResourceSql
