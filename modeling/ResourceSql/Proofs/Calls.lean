/-
Calls of the translation that share a state and a scope, in any order and with any
outcome. What a call leaves behind is toured by its visits (`Call.toured_make`). On a
root of an unknown type nothing can be walked: filters and orders are refused there, for
a reason that depends on them alone (`Compile.condition_lost`).
-/
import ResourceSql.Proofs.Tours

namespace ResourceSql

/-! ## Roots of unknown types -/

namespace Compile

section

variable {c : Context} {root : Occurrence} {e : RequestError} {α β : Type}

theorem throw_bind (e : RequestError) (f : α → Compile β) :
    ((throw e : Compile α) >>= f) = throw e := rfl

/-- Why nothing is at the end of a path from a root whose type is refused. -/
def lost (e : RequestError) (path : List String) : RequestError :=
  if path.isEmpty then .emptyFieldPath else e

theorem lost_of_getLast? {path : List String} {name : String} (last : path.getLast? = some name) :
    lost e path = e := by
  cases path with
  | nil => cases last
  | cons _ _ => rfl

/-- Wherever a walk from such a root would lead, its type is not found. -/
theorem walkPath_lost (unknown : c.metadata.findResource root.resource = .error e) (walk : Walk)
    (path : List String) (f : Occurrence → Resource → Compile α) :
    (walkPath c walk root path >>= fun here =>
      ofExcept (c.metadata.findResource here.resource) >>= f here) = throw e := by
  cases path with
  | nil =>
    show (ofExcept (c.metadata.findResource root.resource) >>= f root) = throw e
    rw [unknown]
    rfl
  | cons relationship rest =>
    rw [walkPath, walkOn, follow, unknown]
    rfl

theorem field_lost (unknown : c.metadata.findResource root.resource = .error e)
    (path : List String) : field c root path = throw (lost e path) := by
  unfold field
  cases last : path.getLast? with
  | none =>
    obtain rfl := List.getLast?_eq_none_iff.1 last
    rfl
  | some name =>
    rw [lost_of_getLast? last]
    exact walkPath_lost unknown .toField path.dropLast _

theorem related_lost (unknown : c.metadata.findResource root.resource = .error e)
    (path : List String) : related c root path = throw (lost e path) := by
  unfold related
  cases last : path.getLast? with
  | none =>
    obtain rfl := List.getLast?_eq_none_iff.1 last
    rfl
  | some name =>
    rw [lost_of_getLast? last]
    exact walkPath_lost unknown .toField path.dropLast _

theorem relatedSelect_lost (unknown : c.metadata.findResource root.resource = .error e)
    (path : List String) (projection : Sql.Projection) (filter : Option Request.Filter) :
    relatedSelect c root path projection filter = throw (lost e path) := by
  cases filter with
  | none => rw [relatedSelect, related_lost unknown, throw_bind]
  | some filter => rw [relatedSelect, related_lost unknown, throw_bind]

theorem order_lost (unknown : c.metadata.findResource root.resource = .error e)
    (sort : List Request.SortElement) : ∃ why, order c root sort = throw why := by
  cases sort with
  | nil =>
    refine ⟨e, ?_⟩
    show (ofExcept (c.metadata.findResource root.resource) >>= _) = _
    rw [unknown]
    rfl
  | cons element elements =>
    obtain ⟨target, ascending⟩ := element
    cases target with
    | field path =>
      refine ⟨lost e path, ?_⟩
      show ((field c root path >>= _) >>= _) = _
      rw [field_lost unknown]
      rfl
    | count path =>
      refine ⟨lost e path, ?_⟩
      show (((related c root path >>= _) >>= _) >>= _) = _
      rw [related_lost unknown]
      rfl

/-- What is known of a side of a comparison on such a root. -/
def lostSide (e : RequestError) : Request.Operand → Except RequestError Side
  | .field path | .count path => .error (lost e path)
  | .value .null | .null => .ok .null
  | .value value => .ok (.value value)

theorem side_lost (unknown : c.metadata.findResource root.resource = .error e)
    (operand : Request.Operand) : side c root operand = ofExcept (lostSide e operand) := by
  cases operand with
  | field path =>
    rw [side, field_lost unknown]
    rfl
  | count path =>
    rw [side, count, related_lost unknown]
    rfl
  | value v => cases v <;> rfl
  | null => rfl

/-- Without a field or a count, nothing tells the type of a comparison. -/
theorem typing_lostSide {left right : Request.Operand} {a b : Side}
    (first : lostSide e left = .ok a) (second : lostSide e right = .ok b) :
    Known.typing a.known b.known = .error (.notSupported .untypedComparison) := by
  have bare {operand : Request.Operand} {s : Side} (taken : lostSide e operand = .ok s) :
      s = .null ∨ ∃ v, s = .value v := by
    cases operand with
    | field path => cases taken
    | count path => cases taken
    | value v =>
      cases v with
      | null => exact .inl (Except.ok.inj taken).symm
      | _ => exact .inr ⟨_, (Except.ok.inj taken).symm⟩
    | null => exact .inl (Except.ok.inj taken).symm
  rcases bare first with rfl | ⟨_, rfl⟩ <;> rcases bare second with rfl | ⟨_, rfl⟩ <;> rfl

theorem comparison_lost (e : RequestError) (operator : Comparison) (left right : Request.Operand) :
    ∃ why, ∀ (c : Context) (root : Occurrence), c.metadata.findResource root.resource = .error e →
      comparison c root operator left right = throw why := by
  cases first : lostSide e left with
  | error why =>
    refine ⟨why, fun c root unknown => ?_⟩
    rw [comparison, side_lost unknown, first]
    rfl
  | ok a =>
    cases second : lostSide e right with
    | error why =>
      refine ⟨why, fun c root unknown => ?_⟩
      rw [comparison, side_lost unknown, side_lost unknown, first, second]
      rfl
    | ok b =>
      refine ⟨.notSupported .untypedComparison, fun c root unknown => ?_⟩
      rw [comparison, side_lost unknown, side_lost unknown, first, second, bind_ofExcept,
        bind_ofExcept, typing_lostSide first second]
      rfl

mutual

/-- A filter on a root of an unknown type is refused, for a reason that depends on the filter. -/
theorem condition_lost (e : RequestError) : (filter : Request.Filter) →
    ∃ why, ∀ (c : Context) (root : Occurrence), c.metadata.findResource root.resource = .error e →
      condition c root filter = throw why
  | .and terms => by
    obtain ⟨why, refused⟩ := joined_lost e terms
    refine ⟨why, fun c root unknown => ?_⟩
    rw [condition]
    exact refused c root unknown .and
  | .or terms => by
    obtain ⟨why, refused⟩ := joined_lost e terms
    refine ⟨why, fun c root unknown => ?_⟩
    rw [condition]
    exact refused c root unknown .or
  | .not filter => by
    obtain ⟨why, refused⟩ := condition_lost e filter
    refine ⟨why, fun c root unknown => ?_⟩
    rw [condition, refused c root unknown, throw_bind]
  | .comparison operator left right => by
    obtain ⟨why, refused⟩ := comparison_lost e operator left right
    refine ⟨why, fun c root unknown => ?_⟩
    rw [condition, refused c root unknown]
  | .textMatch place path text => by
    refine ⟨lost e path, fun c root unknown => ?_⟩
    rw [condition, textMatch, field_lost unknown, throw_bind]
  | .any path values => by
    refine ⟨if values.isEmpty then .emptyValueList else lost e path, fun c root unknown => ?_⟩
    rw [condition, anyOf, field_lost unknown]
    cases values.isEmpty <;> rfl
  | .has path filter => by
    refine ⟨lost e path, fun c root unknown => ?_⟩
    rw [condition, relatedSelect_lost unknown, throw_bind]

theorem joined_lost (e : RequestError) : (filters : List Request.Filter) →
    ∃ why, ∀ (c : Context) (root : Occurrence), c.metadata.findResource root.resource = .error e →
      ∀ connective, (conditions c root filters >>= joined connective) = throw why
  | [] => by
    refine ⟨.notSupported .emptyLogical, fun c root unknown connective => ?_⟩
    rw [conditions]
    rfl
  | filter :: filters => by
    obtain ⟨why, refused⟩ := condition_lost e filter
    refine ⟨why, fun c root unknown connective => ?_⟩
    rw [conditions, refused c root unknown, throw_bind, throw_bind]

end

end

end Compile

/-! ## Calls -/

/-- A call that uses the state of a compilation, and no scope. -/
inductive StateCall where
  | freshAlias
  | bindValue (value : Value)
  | bindId (given : Resource) (id : Json)
  | startStatement
  | foreignKey (declaring relationship : String)
  | leadsToMany (name : String) (paths : List (List String))

/-- A call with a state and a scope. -/
inductive Call where
  | walk (walk : Walk) (path : List String)
  | field (path : List String)
  | filter (filter : Request.Filter)
  | asked (given : Resource) (id : Option Json) (filter : Option Request.Filter)
  | order (sort : List Request.SortElement)
  | count (path : List String)
  | related (path : List String) (projection : Sql.Projection) (filter : Option Request.Filter)
  | state (call : StateCall)

/-- The progress that a call leaves behind, also when it fails. -/
def StateCall.make (c : Context) (p : Progress) : StateCall → Progress
  | freshAlias => .after (Compile.freshAlias p)
  | bindValue value => .after (Compile.bindValue value p)
  | bindId given id => .after (Compile.bindId c given id p)
  | startStatement => .after (Compile.startStatement p)
  | foreignKey declaring relationship =>
    .after ((Compile.ofExcept (c.metadata.findResource declaring) >>= fun declaring =>
      Compile.foreignKey c.metadata declaring relationship) p)
  | leadsToMany name paths =>
    .after ((Compile.ofExcept (c.metadata.findResource name) >>= fun here =>
      Compile.anyLeadsToMany c here paths) p)

namespace Call

/-- The progress that a call leaves behind, also when it fails. -/
def make (c : Context) (root : Occurrence) (p : Progress) : Call → Progress
  | walk how path => .after (Compile.walkPath c how root path p)
  | field path => .after (Compile.field c root path p)
  | filter condition => .after (Compile.condition c root condition p)
  | asked given id condition => .after (Compile.requestCondition c root given id condition p)
  | order sort => .after (Compile.order c root sort p)
  | count path => .after (Compile.count c root path p)
  | related path projection condition =>
    .after (Compile.relatedSelect c root path projection condition p)
  | state call => call.make c p

def makeAll (c : Context) (root : Occurrence) (p : Progress) (calls : List Call) : Progress :=
  calls.foldl (make c root) p

/-- The visits of a call in the scope of a root of a type. -/
def visits (m : Metadata) (r : Resource) : Call → List Visit
  | walk how path => m.visits how r path
  | field path => m.fieldVisits r path
  | filter condition => m.filterVisits r condition
  | asked given id condition => m.askedVisits r given id condition
  | order sort => m.orderVisits r sort
  | count path | related path _ _ => m.relatedVisits r path
  | state _ => []

end Call

/-- The visits of calls in the scope of a root. Nothing can be visited from a root of an unknown
type. -/
def Metadata.visitsOf (m : Metadata) (root : String) (calls : List Call) : List Visit :=
  onward (m.findResource root) fun r => calls.flatMap (Call.visits m r)

section

variable {c : Context} {t : Tour} {p : Progress}

theorem StateCall.toured_make (toured : Toured c.metadata t p)
    (call : StateCall) : Toured c.metadata t (call.make c p) := by
  suffices Toured c.metadata (t.pay []) (call.make c p) by rwa [Tour.pay_nil] at this
  cases call with
  | freshAlias => exact (Compile.tours_freshAlias toured).toured
  | bindValue value => exact (Compile.tours_bindValue toured value).toured
  | bindId given id => exact (Compile.tours_bindId toured given id).toured
  | startStatement =>
    rw [Tour.pay_nil]
    exact toured.of_joins_eq toured.remembers (Nat.le_refl _) rfl
  | foreignKey declaring relationship =>
    rw [StateCall.make]
    cases found : c.metadata.findResource declaring with
    | ok declaring =>
      exact (Compile.tours_foreignKey toured (Metadata.findResource_self found) relationship).toured
    | error e =>
      rw [Tour.pay_nil]
      exact toured
  | leadsToMany name paths =>
    rw [StateCall.make]
    cases found : c.metadata.findResource name with
    | ok here =>
      exact (Compile.tours_anyLeadsToMany toured (Metadata.findResource_self found) paths).toured
    | error e =>
      rw [Tour.pay_nil]
      exact toured

namespace Call

theorem toured_known {r : Resource} (toured : Toured c.metadata t p)
    (named : c.metadata.findResource t.root.resource = .ok r) (call : Call) :
    Toured c.metadata (t.pay (call.visits c.metadata r)) (call.make c t.root p) := by
  cases call with
  | walk how path => exact (Compile.tours_walkPath toured named path).toured
  | field path => exact (Compile.tours_field toured named path).toured
  | filter condition => exact (Compile.tours_condition toured named condition).toured
  | asked given id condition =>
    exact (Compile.tours_requestCondition toured named given id condition).toured
  | order sort => exact (Compile.tours_order toured named sort).toured
  | count path => exact (Compile.tours_count toured named path).toured
  | related path projection condition =>
    exact (Compile.tours_relatedSelect toured named path projection condition).toured
  | state call =>
    rw [visits, Tour.pay_nil]
    exact call.toured_make toured

theorem toured_unknown {e : RequestError} (toured : Toured c.metadata t p)
    (unknown : c.metadata.findResource t.root.resource = .error e) (call : Call) :
    Toured c.metadata t (call.make c t.root p) := by
  cases call with
  | walk how path =>
    cases path with
    | nil => exact toured
    | cons relationship rest =>
      rw [make, Compile.walkPath, Compile.walkOn, Compile.follow, unknown]
      exact toured
  | field path =>
    rw [make, Compile.field_lost unknown]
    exact toured
  | filter condition =>
    obtain ⟨why, refused⟩ := Compile.condition_lost e condition
    rw [make, refused c t.root unknown]
    exact toured
  | asked given id condition =>
    obtain ⟨expected, filters⟩ : ∃ expected : Except RequestError Unit,
        ∀ q, Toured c.metadata t q →
          Tours c.metadata t expected [] (fun _ _ _ => True)
            (Compile.optionally (Compile.condition c t.root) condition q) := by
      cases condition with
      | none => exact ⟨pure (), fun q toured => .pure toured trivial⟩
      | some condition =>
        obtain ⟨why, refused⟩ := Compile.condition_lost e condition
        refine ⟨throw why, fun q toured => ?_⟩
        rw [Compile.optionally, refused c t.root unknown]
        exact .throw toured
    have left := (Compile.tours_asked toured given id filters).toured
    rw [onward_nil, Tour.pay_nil] at left
    exact left
  | order sort =>
    obtain ⟨why, refused⟩ := Compile.order_lost unknown sort
    rw [make, refused]
    exact toured
  | count path =>
    rw [make, Compile.count, Compile.related_lost unknown]
    exact toured
  | related path projection condition =>
    rw [make, Compile.relatedSelect_lost unknown]
    exact toured
  | state call => exact call.toured_make toured

/-- What a call leaves behind is toured by its visits. -/
theorem toured_make (toured : Toured c.metadata t p) (call : Call) :
    Toured c.metadata (t.pay (c.metadata.visitsOf t.root.resource [call]))
      (call.make c t.root p) := by
  unfold Metadata.visitsOf
  cases named : c.metadata.findResource t.root.resource with
  | ok r =>
    rw [onward_ok, List.flatMap_singleton]
    exact call.toured_known toured named
  | error e =>
    rw [onward_error, Tour.pay_nil]
    exact call.toured_unknown toured named

/-- What calls leave behind is toured by their visits. -/
theorem toured_makeAll (toured : Toured c.metadata t p) (calls : List Call) :
    Toured c.metadata (t.pay (c.metadata.visitsOf t.root.resource calls))
      (makeAll c t.root p calls) := by
  induction calls generalizing t p with
  | nil =>
    have none : c.metadata.visitsOf t.root.resource [] = [] := onward_nil _
    rw [none, Tour.pay_nil]
    exact toured
  | cons call calls ih =>
    have split : c.metadata.visitsOf t.root.resource (call :: calls) =
        c.metadata.visitsOf t.root.resource [call] ++
          c.metadata.visitsOf t.root.resource calls := by
      unfold Metadata.visitsOf
      cases c.metadata.findResource t.root.resource <;> simp
    rw [split, ← Tour.pay_pay]
    exact ih (call.toured_make toured)

end Call

end

end ResourceSql
