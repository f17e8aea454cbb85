/-
Comparisons, text matches and lists of values. The sides of a comparison are
taken one after the other and get their values when the type of the comparison
is known; on all rows, they have the values that the operands have on the graph
(`keeps_side`, `keeps_bindSide`).
-/
import ResourceSql.Proofs.Subselects

namespace ResourceSql

/-! ## Sides -/

def Sql.Operand.isNull : Sql.Operand → Bool
  | null => true
  | _ => false

/-- A comparison for equality with null asks whether the other side is null. -/
theorem Sql.Condition.truth_comparison {g : Engine} {db : Database} (operator : Comparison)
    (left right : Sql.Operand) (e : Bound) :
    (comparison operator left right).truth g db e =
      if operator = .equals ∧ right.isNull = true then .ofBool (left.value g db e).isNull
      else if operator = .equals ∧ left.isNull = true then .ofBool (right.value g db e).isNull
      else g.compare operator (left.value g db e) (right.value g db e) := by
  cases operator <;> cases left <;> cases right <;> simp [Condition.truth, Operand.isNull]

/-- All types of values can be compared for equality. -/
theorem ScalarType.equals_mem_comparisons (t : ScalarType) : Comparison.equals ∈ t.comparisons := by
  cases t <;> decide

/-- The value of a side on a row. -/
def Side.read (g : Engine) (db : Database) (m : Metadata) (typing : Option Attribute) (e : Bound) :
    Side → Value
  | column c _ => e.column c
  | count s => ((s.result g db e).head?.bind List.head?).getD .null
  | value v => (Known.literal m typing v).toOption.getD .null
  | null => .null

namespace Known

theorem literal_null (m : Metadata) (typing : Option Attribute) : literal m typing .null = .ok .null := by
  cases typing with
  | none => rfl
  | some held =>
    simp only [literal, Attribute.literal]
    split
    · rfl
    · rfl

def attribute? : Known → Option Attribute
  | field held => some held
  | _ => none

theorem typing_eq {left right : Known} {typing : Option Attribute}
    (h : Known.typing left right = .ok typing) : typing = (left.attribute? <|> right.attribute?) := by
  cases left <;> cases right <;> cases h <;> rfl

end Known

namespace Metadata

variable {c : Context} {r : Resource} {operand : Request.Operand} {known : Known}

/-- What is known of an operand that was found: whether it is a field, and which one. -/
theorem attribute_of_operandOf (h : c.metadata.operandOf r operand = .ok known) :
    Graph.attribute? c r operand = known.attribute? := by
  cases operand with
  | field path =>
    obtain ⟨held, found, h⟩ := Except.bind_eq_ok.1 h
    cases h
    simp only [Graph.attribute?, found]
    rfl
  | count path =>
    obtain ⟨_, -, h⟩ := Except.bind_eq_ok.1 h
    cases h
    rfl
  | value v => cases v <;> cases h <;> rfl
  | null => cases h; rfl

theorem isNull_of_operandOf (h : c.metadata.operandOf r operand = .ok known) :
    Graph.isNull operand = known.isNull := by
  cases operand with
  | field path =>
    obtain ⟨_, -, h⟩ := Except.bind_eq_ok.1 h
    cases h
    rfl
  | count path =>
    obtain ⟨_, -, h⟩ := Except.bind_eq_ok.1 h
    cases h
    rfl
  | value v => cases v <;> cases h <;> rfl
  | null => cases h; rfl

/-- Values of a list are literals of the attribute. -/
theorem checkValues_eq_ok {m : Metadata} {held : Attribute} {values : List Json}
    {literals : List Value} (h : m.checkValues held values = .ok literals) :
    literals = values.map fun v => (Known.literal m (some held) v).toOption.getD .null := by
  induction values generalizing literals with
  | nil => cases h; rfl
  | cons v values ih =>
    obtain ⟨first, literal, h⟩ := Except.bind_eq_ok.1 h
    obtain ⟨rest, others, h⟩ := Except.bind_eq_ok.1 h
    cases h
    rw [List.map_cons, ← ih others]
    simp only [Known.literal, literal]
    rfl

end Metadata

section

variable {g : Engine} {db : Database} {c : Context} {root : Occurrence} {r : Resource}
  {fits : List String → Bool → Prop} {p q : Progress}

namespace Compile

/-- On all rows, a count is the number of related rows. -/
theorem keeps_count (honoured : db.Honours g c.metadata) (sound : Sound c root r p)
    (fit : FitsFields c r fits) (path : List String) :
    Keeps c root r fits p (c.metadata.relatedOf r path)
      (fun _ s q => OnRows g db c root r q fun row e =>
        s.result g db e = [[g.number (Graph.related g db c r row path).length]])
      (count c root path p) := by
  refine Keeps.map (keeps_related honoured sound fit path) ?_
  rintro l _ q - ⟨here, number, rfl, opened⟩
  refine opened.rows.imp fun row e same => ?_
  rw [Sql.Select.result_count rfl rfl, opened.matched_rows, List.length_map, ← same,
    List.length_map]

theorem keeps_side (honoured : db.Honours g c.metadata) (sound : Sound c root r p)
    (fit : FitsFields c r fits) (operand : Request.Operand) :
    Keeps c root r fits p (c.metadata.operandOf r operand)
      (fun known s q => s.known = known ∧ OnRows g db c root r q fun row e => ∀ typing,
        s.read g db c.metadata typing e = Graph.operandValue g db c r row typing operand)
      (side c root operand p) := by
  cases operand with
  | field path =>
    refine Keeps.bind (keeps_field honoured sound fit path) ?_
    rintro held ⟨column, _⟩ q sound _ _ ⟨rfl, means⟩
    exact Keeps.pure sound ⟨rfl, means.imp fun row e same typing => same⟩
  | count path =>
    refine Keeps.bind (keeps_count honoured sound fit path) ?_
    intro l s q sound _ _ means
    refine Keeps.pure sound ⟨rfl, means.imp fun row e same typing => ?_⟩
    simp only [Side.read, same, Graph.operandValue]
    rfl
  | value v =>
    cases v with
    | null =>
      refine Keeps.pure sound ⟨rfl, .of_forall fun _ _ typing => ?_⟩
      rw [Graph.operandValue, Known.literal_null]
      rfl
    | _ => exact Keeps.pure sound ⟨rfl, .of_forall fun _ _ _ => rfl⟩
  | null => exact Keeps.pure sound ⟨rfl, .of_forall fun _ _ _ => rfl⟩

/-- A literal is bound to a parameter. -/
theorem keeps_bindLiteral (g : Engine) (db : Database) (sound : Sound c root r p) (literal : Except RequestError Value) :
    Keeps c root r fits p literal (fun v operand _ => operand.isNull = false ∧ ∀ e,
        operand.value g db e = v)
      ((do return Sql.Operand.parameter (← bindValue (← ofExcept literal)) : Compile Sql.Operand) p) := by
  cases literal with
  | error e => exact ⟨sound, .refl fits p, rfl⟩
  | ok v =>
    rw [bind_ofExcept]
    refine Keeps.bind_silent (keeps_bindValue sound v) ?_
    intro parameter q sound _ bound
    exact ⟨sound, .refl fits q, v, rfl, rfl, fun e => bound⟩

/-- The operand of a side has the value of the side. -/
theorem keeps_bindSide (g : Engine) (db : Database) (sound : Sound c root r p) (typing : Option Attribute) (s : Side) :
    Keeps c root r fits p (s.known.checkValue c.metadata typing)
      (fun _ operand _ => operand.isNull = s.known.isNull ∧ ∀ e,
        operand.value g db e = s.read g db c.metadata typing e)
      (bindSide c typing s p) := by
  cases s with
  | column column held => exact Keeps.pure sound ⟨rfl, fun _ => rfl⟩
  | count select => exact Keeps.pure sound ⟨rfl, fun _ => rfl⟩
  | null => exact Keeps.pure sound ⟨rfl, fun _ => rfl⟩
  | value v =>
    refine Keeps.map_expected (keeps_bindLiteral g db sound
      (Known.literal c.metadata typing v)) ?_
    rintro literal operand q found ⟨null, reads⟩
    refine ⟨null, fun e => ?_⟩
    rw [reads, Side.read, found]
    rfl

/-- On all rows, a comparison has the truth that it has on the graph. -/
theorem keeps_comparison (honoured : db.Honours g c.metadata) (sound : Sound c root r p)
    (fit : FitsFields c r fits) (operator : Comparison) (left right : Request.Operand) :
    Keeps c root r fits p (c.metadata.checkOperands r operator left right)
      (fun _ condition q => OnRows g db c root r q fun row e =>
        condition.truth g db e = Graph.compared g db c r row operator left right)
      (comparison c root operator left right p) := by
  refine Keeps.bind (keeps_side honoured sound fit left) ?_
  rintro _ a q sound _ first ⟨rfl, means⟩
  refine Keeps.bind (keeps_side honoured sound fit right) ?_
  rintro _ b s sound later second ⟨rfl, means'⟩
  have means := (means.later later).and means'
  refine Keeps.bind (Keeps.ofExcept sound _) ?_
  rintro _ typing _ _ _ typed ⟨rfl, rfl⟩
  dsimp only
  refine Keeps.bind (Keeps.ofExcept sound _) ?_
  rintro _ _ _ _ _ _ ⟨rfl, rfl⟩
  refine Keeps.bind (keeps_bindSide g db sound typing a) ?_
  rintro _ x s sound later _ ⟨null, reads⟩
  have means := means.later later
  refine Keeps.map (keeps_bindSide g db sound typing b) ?_
  rintro _ y s later ⟨null', reads'⟩
  refine (means.later later).imp ?_
  rintro row e ⟨same, same'⟩
  have typed : Graph.typing c r left right = typing := by
    rw [Known.typing_eq typed, Graph.typing, Metadata.attribute_of_operandOf first,
      Metadata.attribute_of_operandOf second]
  rw [Sql.Condition.truth_comparison, null, null', reads, reads', same, same']
  rw [Graph.compared, typed, Metadata.isNull_of_operandOf first, Metadata.isNull_of_operandOf second]

/-! ## Matches and lists -/

theorem keeps_textMatch (honoured : db.Honours g c.metadata) (sound : Sound c root r p)
    (fit : FitsFields c r fits) (place : TextMatch) (path : List String) (text : String) :
    Keeps c root r fits p (c.metadata.checkFilter r (.textMatch place path text))
      (fun _ condition q => OnRows g db c root r q fun row e =>
        condition.truth g db e = Graph.meaning g db c r (.textMatch place path text) row)
      (textMatch c root place path text p) := by
  rw [Metadata.checkFilter]
  refine Keeps.bind (keeps_field honoured sound fit path) ?_
  rintro _ ⟨column, held⟩ q sound _ _ ⟨rfl, means⟩
  refine Keeps.guard sound fun _ => ?_
  refine Keeps.bind_silent (keeps_bindValue sound _) ?_
  intro pattern s sound later bound
  refine Keeps.pure sound ((means.later later).imp fun row e same => ?_)
  rw [Sql.Condition.truth, Graph.meaning, bound, same]

theorem keeps_bindValues (g : Engine) (db : Database) (held : Attribute) {values : List Json} (sound : Sound c root r p) :
    Keeps c root r fits p (c.metadata.checkValues held values)
      (fun literals operands _ => ∀ e, Sql.operandValues g db operands e = literals)
      (forEach (fun value => do
        return Sql.Operand.parameter (← bindValue (← ofExcept (held.literal c.metadata value))))
        values p) := by
  induction values generalizing p with
  | nil => exact Keeps.pure sound fun _ => rfl
  | cons value values ih =>
    refine Keeps.bind (keeps_bindLiteral g db sound (held.literal c.metadata value)) ?_
    intro literal operand q sound _ _ first
    refine Keeps.bind (ih sound) ?_
    intro literals operands s sound _ _ rest
    refine Keeps.pure sound fun e => ?_
    rw [Sql.operandValues, first.2, rest]

theorem keeps_anyOf (honoured : db.Honours g c.metadata) (sound : Sound c root r p)
    (fit : FitsFields c r fits) (path : List String) (values : List Json) :
    Keeps c root r fits p (c.metadata.checkFilter r (.any path values))
      (fun _ condition q => OnRows g db c root r q fun row e =>
        condition.truth g db e = Graph.meaning g db c r (.any path values) row)
      (anyOf c root path values p) := by
  rw [Metadata.checkFilter]
  refine Keeps.guard sound fun _ => ?_
  refine Keeps.bind (keeps_field honoured sound fit path) ?_
  rintro _ ⟨column, held⟩ q sound _ found ⟨rfl, means⟩
  refine Keeps.bind (keeps_bindValues g db held sound) ?_
  intro literals operands s sound later listed bound
  refine Keeps.pure sound ((means.later later).imp fun row e same => ?_)
  rw [Sql.Condition.truth, Graph.meaning, bound, same, Metadata.checkValues_eq_ok listed]
  simp only [Graph.listed, found]
  rfl

end Compile

end

end ResourceSql
