/-
Whom a refusal is about. Metadata that pass their check refer to nothing that is
not there, so that an error about something that was not found, or is not of the
right kind, names what the request names (`RequestError.Concerns`). `Blames`
says so of a step, provided that only known resources were joined before it
(`Progress.Grounded`), and composes over sequences of steps (`Blames.bind`).
-/
import ResourceSql.Proofs.Commands
import ResourceSql.Proofs.Consistency
import ResourceSql.Proofs.Writes

namespace ResourceSql

/-! ## Names of requests -/

namespace Request

/-- Names in a request, by what they are to be the names of. -/
structure Names where
  resources : List String
  attributes : List String
  relationships : List String

namespace Names

def none : Names := ⟨[], [], []⟩

def append (a b : Names) : Names :=
  ⟨a.resources ++ b.resources, a.attributes ++ b.attributes, a.relationships ++ b.relationships⟩

def ofPath (path : FieldPath) : Names := ⟨[], [], path⟩

/-- The last element of a field path names an attribute, or a relationship like the others. -/
def ofField (path : FieldPath) : Names := ⟨[], path.getLast?.toList, path⟩

def ofAll {α : Type} (names : α → Names) : List α → Names
  | [] => none
  | a :: as => (names a).append (ofAll names as)

/-- All names are among others. -/
structure Within (a b : Names) : Prop where
  resources : a.resources ⊆ b.resources
  attributes : a.attributes ⊆ b.attributes
  relationships : a.relationships ⊆ b.relationships

variable {a b n : Names}

theorem Within.refl (n : Names) : n.Within n :=
  ⟨List.Subset.refl _, List.Subset.refl _, List.Subset.refl _⟩

theorem Within.left (h : (a.append b).Within n) : a.Within n :=
  ⟨fun _ member => h.resources (List.mem_append_left _ member),
    fun _ member => h.attributes (List.mem_append_left _ member),
    fun _ member => h.relationships (List.mem_append_left _ member)⟩

theorem Within.right (h : (a.append b).Within n) : b.Within n :=
  ⟨fun _ member => h.resources (List.mem_append_right _ member),
    fun _ member => h.attributes (List.mem_append_right _ member),
    fun _ member => h.relationships (List.mem_append_right _ member)⟩

theorem Within.of_mem {α : Type} {names : α → Names} {as : List α} (h : (ofAll names as).Within n)
    {a : α} (member : a ∈ as) : (names a).Within n := by
  induction as with
  | nil => cases member
  | cons first as ih =>
    rcases List.mem_cons.1 member with rfl | member
    · exact h.left
    · exact ih h.right member

end Names

def Operand.names : Operand → Names
  | .field path => .ofField path
  | .count path => .ofPath path
  | .value _ | .null => .none

mutual

def Filter.names : Filter → Names
  | .and terms | .or terms => namesOfAll terms
  | .not filter => filter.names
  | .comparison _ left right => left.names.append right.names
  | .textMatch _ path _ | .any path _ => .ofField path
  | .has path filter => (Names.ofPath path).append (optionalNames filter)

def optionalNames : Option Filter → Names
  | none => .none
  | some filter => filter.names

def namesOfAll : List Filter → Names
  | [] => .none
  | filter :: filters => filter.names.append (namesOfAll filters)

end

def SortElement.names (element : SortElement) : Names :=
  match element.target with
  | .field path => .ofField path
  | .count path => .ofPath path

def Query.names (q : Query) : Names :=
  Names.append ⟨q.resource :: q.fields.names, q.fields.values.flatten, q.includes.flatten⟩
    ((optionalNames q.filter).append (.ofAll SortElement.names q.sort))

def Mutation.names : Mutation → Request.Names
  | .insert name attributes relationships | .update name _ attributes relationships =>
    ⟨[name], attributes.names, relationships.names⟩
  | .delete name _ => ⟨[name], [], []⟩
  | .setRelationship name _ relationship _ | .addToRelationship name _ relationship _
  | .removeFromRelationship name _ relationship _ => ⟨[name], [], [relationship]⟩

def names : Request → Names
  | rows q | count q => q.names
  | mutation m => m.names

end Request

/-- What an error says not to be there, or not to be of the right kind, is named by the request; what
metadata promise is never said to be missing. -/
def RequestError.Concerns (names : Request.Names) : RequestError → Prop
  | resourceNotFound resource => resource ∈ names.resources
  | attributeNotFound name _ => name ∈ names.attributes
  | relationshipNotFound relationship _ | expectedToOne relationship _
  | expectedToMany relationship _ | requiredRelationship relationship _
  | notSupported (.remoteRelationship relationship) => relationship ∈ names.relationships
  | notSupported (.undeclaredEnumType _) | notSupported (.enumColumnWithoutType _) => False
  | _ => True

/-! ## What checked metadata promise -/

namespace Metadata

variable {m : Metadata} {r : Resource}

/-- There is a type of resources of the name. -/
def Knows (m : Metadata) (name : String) : Prop := ∃ r, m.findResource name = .ok r

/-- The one thing that keeps a foreign key from being resolved is that it is not declared. -/
theorem resolve_of_check (checked : m.check = .ok ()) (found : m.findResource r.name = .ok r)
    (relationship : String) :
    r.type.relationships.contains relationship = false ∧
        ForeignKey.resolve m r relationship = .error (.relationshipNotFound relationship r.name) ∨
      ∃ key, ForeignKey.resolve m r relationship = .ok key := by
  cases declared : r.type.relationships.get? relationship with
  | none =>
    have unresolved : r.findRelationship relationship =
        .error (.relationshipNotFound relationship r.name) := by
      simp [Resource.findRelationship, declared]
    refine .inl ⟨by simp [NameMap.contains, declared], ?_⟩
    unfold ForeignKey.resolve
    rw [unresolved]
    rfl
  | some d =>
    obtain ⟨target, named⟩ := target_of_check checked found (NameMap.mem_of_get? declared)
    exact .inr ⟨_, ForeignKey.resolve_eq_ok.2 ⟨d, target, declared, named, rfl⟩⟩

theorem knows_target {relationship : String} {key : ForeignKey}
    (resolved : ForeignKey.resolve m r relationship = .ok key) : m.Knows key.target := by
  obtain ⟨d, target, -, named, rfl⟩ := ForeignKey.resolve_eq_ok.1 resolved
  exact ⟨target, findResource_self named⟩

end Metadata

theorem ForeignKey.relationship_of_resolve {m : Metadata} {r : Resource} {relationship : String}
    {key : ForeignKey} (resolved : resolve m r relationship = .ok key) :
    key.relationship = relationship := by
  obtain ⟨d, target, -, -, rfl⟩ := resolve_eq_ok.1 resolved
  rfl

variable {c : Context} {names : Request.Names}

theorem ScalarType.literal_concerns {type : ScalarType} {value : Json} {e : RequestError}
    (failed : type.literal value = .error e) : e.Concerns names := by
  cases value with
  | null => cases failed
  | array _ =>
    cases failed
    trivial
  | object _ =>
    cases failed
    trivial
  | _ =>
    simp only [literal] at failed
    split at failed
    · cases failed
    · cases failed
      trivial

theorem Attribute.literal_concerns {a : Attribute} {value : Json} {e : RequestError}
    (typed : c.metadata.Types a) (failed : a.literal c.metadata value = .error e) :
    e.Concerns names := by
  obtain ⟨resource, name, passed⟩ := typed
  unfold literal at failed
  unfold Metadata.checkAttribute at passed
  by_cases enum : a.type = .enum
  · rw [if_pos enum] at failed passed
    cases value with
    | null => cases failed
    | string member =>
      cases named : a.enumType with
      | none =>
        rw [named] at passed
        cases passed
      | some enumType =>
        simp only [named] at failed passed
        split at passed
        · next declared =>
          obtain ⟨found, looked⟩ := NameMap.exists_of_contains declared
          simp only [Metadata.enumMember, Metadata.findEnumType, looked] at failed
          change (if member ∈ found.members then _ else _) = _ at failed
          split at failed
          · cases failed
          · cases failed
            trivial
        · cases passed
    | _ =>
      cases failed
      trivial
  · rw [if_neg enum] at failed
    exact ScalarType.literal_concerns failed

/-! ## Steps and their faults -/

/-- What is remembered is right, and the joined tables are those of known resources. -/
structure Progress.Grounded (m : Metadata) (p : Progress) : Prop where
  remembers : p.Remembers m
  joined : ∀ j ∈ p.joins, m.Knows j.resource

theorem Progress.grounded_start (m : Metadata) : Progress.Grounded m .start :=
  ⟨Progress.remembers_start m, by simp [Progress.start]⟩

/-- Of grounded progress, a step makes grounded progress and something good, or it fails for what is
named. -/
def Blames (c : Context) (names : Request.Names) {α : Type} (good : α → Prop) (x : Compile α) :
    Prop :=
  ∀ p : Progress, p.Grounded c.metadata → match x p with
    | .ok a q => q.Grounded c.metadata ∧ good a
    | .error e _ => e.Concerns names

namespace Blames

variable {α β : Type} {good : α → Prop} {good' : β → Prop}

theorem pure {a : α} (h : good a) : Blames c names good (Pure.pure a) :=
  fun _ grounded => ⟨grounded, h⟩

theorem throw {e : RequestError} (h : e.Concerns names) :
    Blames c names good (MonadExcept.throw e) := fun _ _ => h

theorem bind {x : Compile α} {f : α → Compile β} (h : Blames c names good x)
    (next : ∀ a, good a → Blames c names good' (f a)) : Blames c names good' (x >>= f) := by
  intro p grounded
  have first := h p grounded
  show match EStateM.bind x f p with | .ok a q => _ | .error e _ => _
  unfold EStateM.bind
  cases result : x p with
  | ok a q =>
    rw [result] at first
    exact next a first.2 q first.1
  | error e q =>
    rw [result] at first
    exact first

theorem imp {x : Compile α} {better : α → Prop} (h : Blames c names good x)
    (next : ∀ a, good a → better a) : Blames c names better x := by
  intro p grounded
  have first := h p grounded
  cases result : x p with
  | ok a q =>
    rw [result] at first
    exact ⟨first.1, next a first.2⟩
  | error e q =>
    rw [result] at first
    exact first

theorem ofExcept {x : Except RequestError α} (ok : ∀ a, x = .ok a → good a)
    (error : ∀ e, x = .error e → e.Concerns names) : Blames c names good (Compile.ofExcept x) := by
  intro p grounded
  cases x with
  | ok a => exact ⟨grounded, ok a rfl⟩
  | error e => exact error e rfl

/-- A check, whose result does not matter. -/
theorem check {x : Except RequestError α} (error : ∀ e, x = .error e → e.Concerns names) :
    Blames c names (fun _ => True) (Compile.ofExcept x) := ofExcept (fun _ _ => trivial) error

/-- A refusal before a step. -/
theorem guard {refused : Bool} {e : RequestError} {x : Compile α} (concerns : e.Concerns names)
    (next : refused = false → Blames c names good x) :
    Blames c names good
      (if refused = true then (MonadExcept.throw e : Compile PUnit) >>= fun _ => x else x) := by
  cases refused with
  | true => exact fun _ _ => concerns
  | false => exact next rfl

theorem ite {condition : Prop} [Decidable condition] {x y : Compile α}
    (yes : condition → Blames c names good x) (no : ¬condition → Blames c names good y) :
    Blames c names good (if condition then x else y) := by
  by_cases h : condition
  · rw [if_pos h]
    exact yes h
  · rw [if_neg h]
    exact no h

theorem get {f : Progress → Compile α}
    (next : ∀ p, p.Grounded c.metadata → Blames c names good (f p)) :
    Blames c names good (MonadStateOf.get >>= f) := fun p grounded => next p grounded p grounded

theorem inOwnScope {x : Compile α} (h : Blames c names good x) :
    Blames c names (fun made => good made.1) (Compile.inOwnScope x) := by
  intro p grounded
  have inside := h { p with joins := [] } ⟨grounded.remembers, by simp⟩
  unfold Compile.inOwnScope
  cases result : x { p with joins := [] } with
  | ok a q =>
    rw [result] at inside
    exact ⟨⟨inside.1.remembers, grounded.joined⟩, inside.2⟩
  | error e q =>
    rw [result] at inside
    exact inside

theorem forEach {step : α → Compile β} {given : List α}
    (each : ∀ a ∈ given, Blames c names (fun _ => True) (step a)) :
    Blames c names (fun _ => True) (Compile.forEach step given) := by
  induction given with
  | nil => exact pure trivial
  | cons a given ih =>
    obtain ⟨first, rest⟩ := List.forall_mem_cons.1 each
    exact bind first fun b _ => bind (ih rest) fun bs _ => pure trivial

theorem optionally {step : α → Compile β} {given : Option α}
    (each : ∀ a ∈ given, Blames c names (fun _ => True) (step a)) :
    Blames c names (fun _ => True) (Compile.optionally step given) := by
  cases given with
  | none => exact pure trivial
  | some a => exact bind (each a rfl) fun b _ => pure trivial

end Blames

end ResourceSql
