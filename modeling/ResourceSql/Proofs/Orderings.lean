/-
Comparisons and the types that support them. The type of a comparison is that of
its left field, or else of its right one, and only that type is asked whether it
has the comparison. So exchanging the sides of an accepted comparison is accepted
too, unless both are fields and the right one would not have been allowed
(`Known.exchanged_iff`). This holds wherever in a filter the comparison stands
(`Metadata.checkFilter_place`).
-/
import ResourceSql.Configuration.Consistency
import ResourceSql.Proofs.Alternatives

namespace ResourceSql

/-- The comparison of exchanged values. -/
def Comparison.mirrored : Comparison → Comparison
  | equals => equals
  | lessThan => greaterThan
  | lessOrEqual => greaterOrEqual
  | greaterThan => lessThan
  | greaterOrEqual => lessOrEqual

theorem Comparison.mirrored_eq_equals_iff (operator : Comparison) :
    operator.mirrored = .equals ↔ operator = .equals := by
  cases operator <;> simp [mirrored]

theorem ScalarType.mirrored_mem_comparisons (t : ScalarType) (operator : Comparison) :
    operator.mirrored ∈ t.comparisons ↔ operator ∈ t.comparisons := by
  cases t <;> cases operator <;> decide

/-! ## Sides -/

namespace Known

variable {m : Metadata} {operator : Comparison} {a b : Known}

/-- What is known of the sides of a comparison allows it. -/
def Allows (m : Metadata) (operator : Comparison) (a b : Known) : Prop :=
  ∃ typing, Known.typing a b = .ok typing ∧
    Known.check operator ((typing.map (·.type)).getD .bigint) a b = .ok () ∧
    a.checkValue m typing = .ok () ∧ b.checkValue m typing = .ok ()

/-- A side that is a field is of a type that has the comparison. -/
def Supports (operator : Comparison) : Known → Prop
  | field held => operator ∈ held.type.comparisons
  | _ => True

def isField : Known → Bool
  | field _ => true
  | _ => false

theorem check_eq_ok {type : ScalarType} :
    check operator type a b = .ok () ↔ operator ∈ type.comparisons ∧
      ((a.isNull || b.isNull) = true → operator = .equals) := by
  unfold check
  cases (a.isNull || b.isNull) with
  | true =>
    simp only [if_true, forall_const]
    split
    · next equal => simp [equal, type.equals_mem_comparisons]
    · next other => simp [other]
  | false => simp

theorem supports_mirrored_iff : b.Supports operator.mirrored ↔ b.Supports operator := by
  cases b with
  | field held => exact held.type.mirrored_mem_comparisons operator
  | _ => exact Iff.rfl

/-- The type of a comparison has it: that of the left side, or that of the right one if the left is
no field. -/
theorem supports_of_allows (allowed : Allows m operator a b) :
    a.Supports operator ∧ (a.isField = false → b.Supports operator) := by
  obtain ⟨typing, typed, checked, -, -⟩ := allowed
  have listed := (check_eq_ok.1 checked).1
  cases a with
  | field held =>
    cases typed
    exact ⟨listed, nofun⟩
  | _ =>
    refine ⟨trivial, fun _ => ?_⟩
    cases b with
    | field held =>
      cases typed
      exact listed
    | _ => trivial

/-- Only of two fields, the left one comes first. -/
theorem typing_comm (one : a.isField = false ∨ b.isField = false) :
    Known.typing b a = Known.typing a b := by
  cases a <;> cases b <;> simp_all [isField, Known.typing]

/-- The sides of a comparison can be exchanged just if the right one has the comparison as well. -/
theorem exchanged_iff (allowed : Allows m operator a b) :
    Allows m operator.mirrored b a ↔ b.Supports operator := by
  refine ⟨fun exchanged => supports_mirrored_iff.1 (supports_of_allows exchanged).1, fun listed => ?_⟩
  obtain ⟨typing, typed, checked, left, right⟩ := allowed
  obtain ⟨fits, null⟩ := check_eq_ok.1 checked
  have null : (b.isNull || a.isNull) = true → operator.mirrored = .equals := fun given =>
    (Comparison.mirrored_eq_equals_iff _).2 (null (Bool.or_comm .. ▸ given))
  have swapped (one : a.isField = false ∨ b.isField = false) : Allows m operator.mirrored b a := by
    refine ⟨typing, (typing_comm one).trans typed, check_eq_ok.2 ⟨?_, null⟩, right, left⟩
    exact (ScalarType.mirrored_mem_comparisons _ _).2 fits
  cases a with
  | field held =>
    cases b with
    | field other =>
      refine ⟨some other, rfl, check_eq_ok.2 ⟨?_, null⟩, rfl, rfl⟩
      exact (ScalarType.mirrored_mem_comparisons _ _).2 listed
    | _ => exact swapped (.inr rfl)
  | _ => exact swapped (.inl rfl)

end Known

/-! ## Places in filters -/

namespace Metadata

variable {m : Metadata} {r : Resource} {operator : Comparison} {left right : Request.Operand}

theorem checkOperands_eq_ok : m.checkOperands r operator left right = .ok () ↔
    ∃ a b, m.operandOf r left = .ok a ∧ m.operandOf r right = .ok b ∧ Known.Allows m operator a b := by
  simp only [checkOperands, Except.bind_eq_ok, Known.Allows]
  constructor
  · rintro ⟨a, first, b, second, typing, typed, _, checked, _, left, right⟩
    exact ⟨a, b, first, second, typing, typed, checked, left, right⟩
  · rintro ⟨a, b, first, second, typing, typed, checked, left, right⟩
    exact ⟨a, first, b, second, typing, typed, (), checked, (), left, right⟩

/-- The type of the resources that are filtered at a place in a filter. -/
def placeOf (m : Metadata) : Resource → Request.Filter.Place → Except RequestError Resource
  | root, .here => pure root
  | root, .not inside => placeOf m root inside
  | root, .connected _ _ inside _ => placeOf m root inside
  | root, .has path inside => do
    let link ← m.relatedOf root path
    placeOf m link.target inside

theorem checkFilters_eq_ok {filters : List Request.Filter} :
    m.checkFilters r filters = .ok () ↔ ∀ filter ∈ filters, m.checkFilter r filter = .ok () := by
  induction filters with
  | nil => simp [checkFilters, pure, Except.pure]
  | cons filter filters ih =>
    rw [checkFilters, Except.check_bind_eq_ok, List.forall_mem_cons, ih]

theorem checkFilter_connected {connective : Connective} {terms : List Request.Filter} :
    m.checkFilter r (.connected connective terms) = .ok () ↔
      terms ≠ [] ∧ ∀ filter ∈ terms, m.checkFilter r filter = .ok () := by
  rw [← checkFilters_eq_ok]
  have some : (if terms.isEmpty then throw (.notSupported .emptyLogical) else pure () :
      Except RequestError Unit) = .ok () ↔ terms ≠ [] := by
    cases terms with
    | nil => simp [throw, throwThe, MonadExceptOf.throw]
    | cons first rest => simp [pure, Except.pure]
  cases connective with
  | and | or =>
    rw [Request.Filter.connected, checkFilter, Except.check_bind_eq_ok, ← some]
    exact and_comm

/-- An accepted filter is accepted with what stands at a place, and any other filter there is
accepted or refused by itself. -/
theorem checkFilter_place {filter : Request.Filter} (place : Request.Filter.Place)
    (checked : m.checkFilter r (place.fill filter) = .ok ()) :
    ∃ s, m.placeOf r place = .ok s ∧ m.checkFilter s filter = .ok () ∧
      ∀ other, m.checkFilter r (place.fill other) = .ok () ↔ m.checkFilter s other = .ok () := by
  induction place generalizing r with
  | here => exact ⟨r, rfl, checked, fun _ => Iff.rfl⟩
  | not inside ih =>
    obtain ⟨s, placed, own, others⟩ := ih (by rwa [Request.Filter.Place.fill, checkFilter] at checked)
    refine ⟨s, placed, own, fun other => ?_⟩
    rw [Request.Filter.Place.fill, checkFilter, others]
  | connected connective before inside after ih =>
    obtain ⟨-, each⟩ := checkFilter_connected.1 checked
    obtain ⟨s, placed, own, others⟩ := ih (each _ (by simp))
    refine ⟨s, placed, own, fun other => ?_⟩
    obtain ⟨front, back⟩ := List.forall_mem_append.1 each
    obtain ⟨-, back⟩ := List.forall_mem_cons.1 back
    rw [Request.Filter.Place.fill, checkFilter_connected, List.forall_mem_append,
      List.forall_mem_cons, others]
    constructor
    · rintro ⟨-, -, own, -⟩
      exact own
    · intro own
      exact ⟨by simp, front, own, back⟩
  | has path inside ih =>
    rw [Request.Filter.Place.fill, checkFilter, Except.bind_eq_ok] at checked
    obtain ⟨link, found, checked⟩ := checked
    rw [checkRelated] at checked
    obtain ⟨s, placed, own, others⟩ := ih checked
    refine ⟨s, ?_, own, fun other => ?_⟩
    · exact Except.bind_eq_ok.2 ⟨link, found, placed⟩
    · rw [Request.Filter.Place.fill, checkFilter, found, ← others]
      show m.checkRelated link.target (some _) = .ok () ↔ _
      rw [checkRelated]

/-- A side of a comparison that is a field is found, and of a type that has the comparison. -/
def Supports (m : Metadata) (r : Resource) (operator : Comparison) : Request.Operand → Prop
  | .field path => ∃ held, m.fieldOf r path = .ok held ∧ operator ∈ held.type.comparisons
  | _ => True

theorem supports_iff {operand : Request.Operand} {a : Known} (known : m.operandOf r operand = .ok a) :
    m.Supports r operator operand ↔ a.Supports operator := by
  cases operand with
  | field path =>
    obtain ⟨held, found, same⟩ := Except.bind_eq_ok.1 known
    cases same
    simp only [Supports, found, Except.ok.injEq, exists_eq_left']
    exact Iff.rfl
  | count path =>
    obtain ⟨_, -, same⟩ := Except.bind_eq_ok.1 known
    cases same
    exact Iff.rfl
  | null =>
    cases known
    exact Iff.rfl
  | value v =>
    cases v <;> cases known <;> exact Iff.rfl

theorem isField_eq_false {operand : Request.Operand} {a : Known}
    (known : m.operandOf r operand = .ok a) (other : ∀ path, operand ≠ .field path) :
    a.isField = false := by
  cases operand with
  | field path => exact absurd rfl (other path)
  | count path =>
    obtain ⟨_, -, same⟩ := Except.bind_eq_ok.1 known
    cases same
    rfl
  | null =>
    cases known
    rfl
  | value v => cases v <;> cases known <;> rfl

end Metadata

namespace Compile

variable {c : Context} {root : Occurrence} {p q : Progress} {made : Sql.Condition}
  {operator : Comparison} {left right : Request.Operand}

/-- A filter is compiled just if the metadata allow it. -/
theorem accepted_condition (visited : Visited c root p) :
    ∃ r, c.metadata.findResource root.resource = .ok r ∧ ∀ filter,
      (∃ made q, condition c root filter p = .ok made q) ↔ c.metadata.checkFilter r filter = .ok () := by
  have honoured := Database.empty_honours default c.metadata
  obtain ⟨r, sound⟩ := visited.sound honoured
  refine ⟨r, sound.named, fun filter => ?_⟩
  have kept := keeps_condition honoured sound (FitsFields.any c r) filter
  constructor
  · rintro ⟨made, q, run⟩
    obtain ⟨-, -, _, checked, -⟩ := kept.of_ok run
    exact checked
  · intro checked
    obtain ⟨made, q, run, -⟩ := kept.exists_ok checked
    exact ⟨made, q, run⟩

/-- In an accepted filter, wherever a comparison stands in it, a field on the left is of a type that
has the comparison, and so is one on the right of anything else than a field. The sides can be
exchanged if, and only if, the right one has the comparison. -/
theorem comparison_supported (visited : Visited c root p) (place : Request.Filter.Place)
    (accepted : condition c root (place.fill (.comparison operator left right)) p = .ok made q) :
    ∃ r s, c.metadata.findResource root.resource = .ok r ∧ c.metadata.placeOf r place = .ok s ∧
      c.metadata.Supports s operator left ∧
      ((∀ path, left ≠ .field path) → c.metadata.Supports s operator right) ∧
      ((∃ made q, condition c root (place.fill (.comparison operator.mirrored right left)) p =
        .ok made q) ↔ c.metadata.Supports s operator right) := by
  obtain ⟨r, named, accepts⟩ := accepted_condition visited
  have checked := (accepts _).1 ⟨made, q, accepted⟩
  obtain ⟨s, placed, own, others⟩ := Metadata.checkFilter_place place checked
  rw [Metadata.checkFilter, Metadata.checkOperands_eq_ok] at own
  obtain ⟨a, b, first, second, allowed⟩ := own
  have ⟨supported, supported'⟩ := Known.supports_of_allows allowed
  refine ⟨r, s, named, placed, (Metadata.supports_iff first).2 supported, fun other => ?_, ?_⟩
  · exact (Metadata.supports_iff second).2 (supported' (Metadata.isField_eq_false first other))
  · rw [accepts, others, Metadata.checkFilter, Metadata.checkOperands_eq_ok,
      Metadata.supports_iff second, ← Known.exchanged_iff allowed]
    constructor
    · rintro ⟨b', a', second', first', exchanged⟩
      obtain rfl := Except.ok.inj (second.symm.trans second')
      obtain rfl := Except.ok.inj (first.symm.trans first')
      exact exchanged
    · intro exchanged
      exact ⟨b, a, second, first, exchanged⟩

/-- Where the number of a book is compared with that of its sequel, the sides can be exchanged. -/
theorem comparison_supported_books : ∃ made q,
    condition Sample.context ⟨"book", .table Sample.books⟩ (.has ["prequels"] (some (.not
      (.comparison .greaterThan (.field ["sequel", "id"]) (.field ["id"])))))
      ⟨1, 0, some [], []⟩ = .ok made q := by
  obtain ⟨made, q, accepted⟩ : ∃ made q, condition Sample.context ⟨"book", .table Sample.books⟩
      (.has ["prequels"] (some (.not (.comparison .lessThan (.field ["id"])
        (.field ["sequel", "id"]))))) ⟨1, 0, some [], []⟩ = .ok made q := ⟨_, _, rfl⟩
  obtain ⟨r, s, named, placed, -, -, exchanged⟩ :=
    comparison_supported Sample.visited (.has ["prequels"] (.not .here)) accepted
  obtain rfl := Sample.findResource_eq named
  cases placed
  exact exchanged.2 ⟨⟨"id", .integer, false, none⟩, rfl, by decide⟩

end Compile

/-- Books as before, which may be lent. -/
def Sample.lent : Context where
  metadata := ⟨⟨[("book", { Sample.book with
    attributes := ⟨[("id", ⟨"id", .integer, false, none⟩), ("lent", ⟨"lent", .boolean, false, none⟩)],
      by decide⟩ })], by decide⟩, .empty⟩
  dialect := .postgreSql

/-- The number of a book can be compared with whether it is lent, but not the other way round. -/
theorem Compile.comparison_unsupported : Sample.lent.metadata.check = .ok () ∧
    ∃ opened p made q s held, openTable Sample.lent "book" .start = .ok opened p ∧
      condition Sample.lent ⟨"book", .table opened.2⟩
        (.comparison .lessThan (.field ["id"]) (.field ["lent"])) p = .ok made q ∧
      Sample.lent.metadata.fieldOf opened.1 ["lent"] = .ok held ∧
      Comparison.lessThan ∉ held.type.comparisons ∧
      condition Sample.lent ⟨"book", .table opened.2⟩
        (.comparison .greaterThan (.field ["lent"]) (.field ["id"])) p =
          .error (.notSupported (.comparison .greaterThan .boolean)) s :=
  ⟨rfl, _, _, _, _, _, ⟨"lent", .boolean, false, none⟩, rfl, rfl, rfl, by decide, rfl⟩

end ResourceSql
