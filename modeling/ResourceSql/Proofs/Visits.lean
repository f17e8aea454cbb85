/-
The places that requests lead to. Which paths a field, a filter or an order walks,
and how far, is decided by the metadata: a walk visits a place for each relationship
that it can follow (`mem_visitsOn`), and what would come after a refusal is not
walked any more. Nothing here depends on what was joined before.
-/
import ResourceSql.Proofs.Requests

namespace ResourceSql

/-- A visit to the table at the end of a path, whose columns may be selected because of it. -/
structure Visit where
  path : List String
  included : Bool
  deriving DecidableEq

/-- What follows a result; nothing follows an error. -/
def onward {α β : Type} (x : Except RequestError α) (next : α → List β) : List β :=
  match x with
  | .ok a => next a
  | .error _ => []

@[simp] theorem onward_ok {α β : Type} (a : α) (next : α → List β) :
    onward (.ok a) next = next a := rfl

@[simp] theorem onward_error {α β : Type} (e : RequestError) (next : α → List β) :
    onward (.error e) next = [] := rfl

@[simp] theorem onward_nil {α β : Type} (x : Except RequestError α) :
    onward x (fun _ => ([] : List β)) = [] := by
  cases x <;> rfl

namespace Metadata

variable (m : Metadata)

/-- The visits of a walk from a place, up to the first relationship that cannot be followed. -/
def visitsOn (walk : Walk) : List String → Resource → List String → List Visit
  | _, _, [] => []
  | walked, here, relationship :: rest =>
    onward (m.hop walk.toMany here relationship) fun l =>
      ⟨walked ++ [relationship], walk.included⟩ ::
        visitsOn walk (walked ++ [relationship]) l.target rest

/-- The visits of a walk from a resource of a type. -/
def visits (walk : Walk) (r : Resource) (path : List String) : List Visit :=
  m.visitsOn walk [] r path

/-- The visits on the way to a field. -/
def fieldVisits (r : Resource) (path : List String) : List Visit :=
  match path.getLast? with
  | none => []
  | some name =>
    m.visits .toField r path.dropLast ++ onward (m.walk false r path.dropLast) fun here =>
      match here.type.attributes.get? name with
      | some _ => []
      | none => if here.type.relationships.contains name then m.visits .toField r path else []

/-- The visits on the way to the relationship at the end of a path. -/
def relatedVisits (r : Resource) (path : List String) : List Visit :=
  m.visits .toField r path.dropLast

def operandVisits (r : Resource) : Request.Operand → List Visit
  | .field path => m.fieldVisits r path
  | .count path => m.relatedVisits r path
  | .value _ | .null => []

mutual

/-- The visits of a filter. What a filter on related resources visits belongs to another scope. -/
def filterVisits (r : Resource) : Request.Filter → List Visit
  | .and terms | .or terms => filtersVisits r terms
  | .not filter => filterVisits r filter
  | .comparison _ left right =>
    m.operandVisits r left ++ onward (m.operandOf r left) fun _ => m.operandVisits r right
  | .textMatch _ path _ => m.fieldVisits r path
  | .any path values => if values.isEmpty then [] else m.fieldVisits r path
  | .has path _ => m.relatedVisits r path

def filtersVisits (r : Resource) : List Request.Filter → List Visit
  | [] => []
  | filter :: filters =>
    filterVisits r filter ++ onward (m.checkFilter r filter) fun _ => filtersVisits r filters

end

/-- The visits for what a whole request asks for. The identifier is one of resources of `given`. -/
def askedVisits (r given : Resource) (id : Option Json) (filter : Option Request.Filter) :
    List Visit :=
  onward (m.checkIdentity given id) fun _ => (filter.map (m.filterVisits r)).getD []

def targetVisits (r : Resource) : Request.SortTarget → List Visit
  | .field path => m.fieldVisits r path
  | .count path => m.relatedVisits r path

def orderVisits (r : Resource) : List Request.SortElement → List Visit
  | [] => []
  | element :: elements =>
    m.targetVisits r element.target ++
      onward (m.checkTarget r element.target) fun _ => orderVisits r elements

/-! ## What is visited -/

variable {m}

/-- A walk visits the ends of the longer paths on its way that the metadata have. -/
theorem mem_visitsOn {walk : Walk} {walked : List String} {here : Resource} {path : List String}
    {v : Visit} : v ∈ m.visitsOn walk walked here path ↔
      v.included = walk.included ∧ ∃ start there, start ≠ [] ∧ start <+: path ∧
        v.path = walked ++ start ∧ m.walk walk.toMany here start = .ok there := by
  induction path generalizing walked here with
  | nil =>
    simp only [visitsOn, List.not_mem_nil, false_iff]
    rintro ⟨-, start, there, some, isPrefix, -⟩
    exact some (List.prefix_nil.1 isPrefix)
  | cons relationship rest ih =>
    rw [visitsOn]
    cases hopped : m.hop walk.toMany here relationship with
    | error e =>
      simp only [onward_error, List.not_mem_nil, false_iff]
      rintro ⟨-, start, there, some, isPrefix, -, walks⟩
      cases start with
      | nil => exact some rfl
      | cons first start =>
        obtain ⟨rfl, -⟩ := List.cons_prefix_cons.1 isPrefix
        rw [Metadata.walk, hopped] at walks
        cases walks
    | ok l =>
      rw [onward_ok, List.mem_cons, ih]
      constructor
      · rintro (rfl | ⟨included, start, there, some, isPrefix, path, walks⟩)
        · exact ⟨rfl, [relationship], l.target, List.cons_ne_nil _ _, by simp, rfl,
            walk_singleton hopped⟩
        · refine ⟨included, relationship :: start, there, List.cons_ne_nil _ _, ?_, ?_, ?_⟩
          · exact List.cons_prefix_cons.2 ⟨rfl, isPrefix⟩
          · rw [path, List.append_assoc, List.singleton_append]
          · rw [Metadata.walk, hopped]
            exact walks
      · rintro ⟨included, start, there, some, isPrefix, path, walks⟩
        cases start with
        | nil => exact absurd rfl some
        | cons first start =>
          obtain ⟨rfl, shorter⟩ := List.cons_prefix_cons.1 isPrefix
          rw [Metadata.walk, hopped] at walks
          by_cases last : start = []
          · obtain rfl := last
            obtain ⟨_, _⟩ := v
            exact .inl (by rw [← path, ← included])
          · refine .inr ⟨included, start, there, last, shorter, ?_, walks⟩
            rw [path, List.append_assoc, List.singleton_append]

end Metadata

end ResourceSql
