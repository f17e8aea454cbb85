/-
The types of bound values. A value has the type of what it meets in a statement: of
the attribute that describes a column (`Metadata.Describes`), which for a foreign
key is the primary key that it references, or of a number of rows. Null belongs to
no type and is bound only in lists. What a JSON value is read as for an attribute
belongs to it (`Attribute.admits_of_literal`).
-/
import ResourceSql.Proofs.Identifiers
import ResourceSql.Proofs.Uses

namespace ResourceSql

/-! ## Values of attributes -/

/-- Whether a value is one of the type. -/
def ScalarType.holds : ScalarType → Value → Bool
  | boolean, .boolean _ => true
  | byte, .byte _ => true
  | smallint, .int16 _ => true
  | integer, .int32 _ => true
  | bigint, .int64 _ => true
  | real, .single _ => true
  | double, .double _ => true
  | decimal, .decimal _ => true
  | character, .char _ => true
  | text, .text _ => true
  | uuid, .uuid _ => true
  | enum, .enum _ _ => true
  | _, _ => false

/-- A value belongs to an attribute: it is of its type, and a declared member of its enum type if it
has one. Null belongs to none. -/
structure Attribute.Admits (m : Metadata) (a : Attribute) (v : Value) : Prop where
  holds : a.type.holds v = true
  declared : ∀ typeName member, v = .enum typeName member → a.enumType = some typeName ∧
    ∃ type, m.findEnumType typeName = .ok type ∧ member ∈ type.members

namespace ScalarType

variable {type : ScalarType} {value : Value}

theorem holds_of_bounded {low high n : Int} {make : Int → Value}
    (each : ∀ n, type.holds (make n) = true) (found : Value.bounded low high make n = some value) : type.holds value = true := by
  unfold Value.bounded at found
  split at found
  · cases found
    exact each n
  · cases found

theorem holds_of_integer {n : Int} (found : type.ofInteger? n = some value) :
    type.holds value = true := by
  cases type with
  | byte | smallint | integer | bigint =>
    simp only [ofInteger?] at found
    exact holds_of_bounded (fun _ => rfl) found
  | _ => cases found

theorem holds_of_decimal {text : List Char} (found : decimalOfChars? text = some value) :
    decimal.holds value = true := by
  obtain ⟨d, -, rfl⟩ := Option.map_eq_some_iff.1 found
  rfl

theorem holds_of_number {n : JsonNumber} (found : type.ofNumber? n = some value) :
    type.holds value = true := by
  cases type with
  | real | double =>
    cases found
    rfl
  | decimal => exact holds_of_decimal found
  | _ =>
    cases n with
    | integer n =>
      simp only [ofNumber?] at found
      exact holds_of_integer found
    | _ => cases found

theorem holds_of_text {text : String} (found : type.ofText? text = some value) :
    type.holds value = true := by
  cases type with
  | byte | smallint | integer | bigint =>
    obtain ⟨n, -, found⟩ := Option.bind_eq_some_iff.1 found
    exact holds_of_bounded (fun _ => rfl) found
  | decimal => exact holds_of_decimal found
  | character | uuid =>
    obtain ⟨_, -, rfl⟩ := Option.map_eq_some_iff.1 found
    rfl
  | text =>
    cases found
    rfl
  | _ => cases found

/-- What a JSON value other than null is read as is of the type. -/
theorem holds_of_literal {json : Json} (given : json.isNull = false)
    (read : type.literal json = .ok value) : type.holds value = true := by
  cases json with
  | null => cases given
  | bool b =>
    by_cases boolean : type = .boolean
    · simp only [literal, boolean, if_true, Except.ok.injEq] at read
      rw [boolean, ← read]
      rfl
    · simp [literal, boolean] at read
  | number n =>
    simp only [literal] at read
    split at read
    · next found =>
      cases read
      exact holds_of_number found
    · cases read
  | string s =>
    simp only [literal] at read
    split at read
    · next found =>
      cases read
      exact holds_of_text found
    · cases read
  | array _ | object _ => cases read

end ScalarType

namespace Attribute

variable {m : Metadata} {a : Attribute} {json : Json} {value : Value}

theorem admits_of_literal (given : json.isNull = false) (read : a.literal m json = .ok value) :
    a.Admits m value := by
  unfold literal at read
  split at read
  · next enumerated =>
    split at read
    · cases given
    · split at read
      · next named =>
        obtain ⟨type, found, read⟩ := Except.bind_eq_ok.1 read
        split at read
        · next declared =>
          cases read
          refine ⟨by rw [enumerated]; rfl, fun typeName member same => ?_⟩
          cases same
          exact ⟨named, type, found, declared⟩
        · cases read
      · cases read
    · cases read
  · next plain =>
    have held := ScalarType.holds_of_literal given read
    refine ⟨held, fun typeName member same => ?_⟩
    subst same
    cases typed : a.type with
    | enum => exact absurd typed plain
    | _ =>
      rw [typed] at held
      cases held

/-- Null is read as null. -/
theorem null_or_admits_of_literal (read : a.literal m json = .ok value) :
    value = .null ∨ a.Admits m value := by
  cases null : json.isNull with
  | false => exact .inr (admits_of_literal null read)
  | true =>
    cases json with
    | null =>
      unfold literal at read
      split at read
      · exact .inl (Except.ok.inj read).symm
      · exact .inl (Except.ok.inj read).symm
    | _ => cases null

end Attribute

theorem Metadata.Identifies.admits {m : Metadata} {r : Resource} {id : Json} {value : Value}
    {primaryKey : Attribute} (h : m.Identifies r id value)
    (identified : r.primaryKey = .ok primaryKey) : primaryKey.Admits m value := by
  obtain ⟨other, same, given, read⟩ := h
  obtain rfl := Except.ok.inj (identified.symm.trans same)
  exact Attribute.admits_of_literal given read

/-! ## Types of columns -/

/-- A column in the table of a type of resources holds primary keys of another one, because of a
relationship that one of the two declares. -/
inductive Metadata.References (m : Metadata) (r : Resource) (column : String) (other : Resource) :
    Prop
  | held {relationship : String} {key : ForeignKey} :
    ForeignKey.resolve m r relationship = .ok key → key.atLeftSide = true → key.column = column →
    m.findResource key.target = .ok other → References m r column other
  | remote {relationship : String} {key : ForeignKey} : m.findResource other.name = .ok other →
    ForeignKey.resolve m other relationship = .ok key → key.atLeftSide = false →
    key.column = column → m.findResource key.target = .ok r → References m r column other

/-- An attribute that tells the type of a column of one of the tables: one that is mapped to the
column, or for a foreign key, the primary key that it references. -/
def Metadata.Describes (m : Metadata) (tables : List Sql.Table) (column : Sql.TableColumn)
    (a : Attribute) : Prop :=
  ∃ r, m.findResource r.name = .ok r ∧ r.table column.tableAlias ∈ tables ∧
    match column.role with
    | .scalar => a.column = column.name ∧ ∃ name, r.type.attributes.get? name = some a
    | .foreignKey => ∃ other, m.References r column.name other ∧ other.primaryKey = .ok a

theorem Metadata.Describes.mono {m : Metadata} {tables others : List Sql.Table}
    {column : Sql.TableColumn} {a : Attribute} (h : m.Describes tables column a)
    (sub : tables ⊆ others) : m.Describes others column a := by
  obtain ⟨r, found, stored, rest⟩ := h
  exact ⟨r, found, sub stored, rest⟩

namespace Sql

/-- The value of a placeholder has the type of what it meets. -/
def Use.Typed (m : Metadata) (tables : List Table) (use : Use) : Prop :=
  let value := use.parameter.value
  match use.role with
  | .compared column | .assigned column => ∃ a, m.Describes tables column a ∧ a.Admits m value
  | .listed column => ∃ a, m.Describes tables column a ∧ (value = .null ∨ a.Admits m value)
  | .matched column =>
    ∃ a, m.Describes tables column a ∧ a.type.matchesText = true ∧ ∃ text, value = .text text
  | .counted => ∃ n, value = .int64 n
  | .alone => False

/-- Values have the types of what they meet in the tables around a part of a statement, or in those
of the part. -/
def AllTyped (m : Metadata) (around : List Table) (uses : List Use) (tables : List Table) : Prop :=
  ∀ use ∈ uses, use.Typed m (around ++ tables)

theorem Use.Typed.mono {m : Metadata} {tables others : List Table} {use : Use}
    (h : use.Typed m tables) (sub : tables ⊆ others) : use.Typed m others := by
  obtain ⟨parameter, role⟩ := use
  cases role with
  | compared column | assigned column | listed column | matched column =>
    obtain ⟨a, described, rest⟩ := h
    exact ⟨a, described.mono sub, rest⟩
  | counted => exact h
  | alone => exact h

namespace AllTyped

variable {m : Metadata} {around others tables tables' : List Table} {uses uses' : List Use}

theorem nil : AllTyped m around [] tables := by simp [AllTyped]

theorem around_mono (h : AllTyped m around uses tables) (sub : around ⊆ others) :
    AllTyped m others uses tables := by
  intro use member
  refine (h use member).mono (List.append_subset.2 ⟨?_, List.subset_append_right _ _⟩)
  exact List.subset_append_of_subset_left _ sub

theorem append (h : AllTyped m around uses tables) (h' : AllTyped m around uses' tables') :
    AllTyped m around (uses ++ uses') (tables ++ tables') := by
  refine List.forall_mem_append.2 ⟨fun use member => ?_, fun use member => ?_⟩
  · rw [← List.append_assoc]
    exact (h use member).mono (List.subset_append_left _ _)
  · refine (h' use member).mono (List.append_subset.2 ⟨List.subset_append_left _ _, ?_⟩)
    exact fun t given => List.mem_append_right _ (List.mem_append_right _ given)

/-- The tables around a part are in turn those of a part. -/
theorem of_subset (h : AllTyped m around uses tables) (sub : around ++ tables ⊆ tables') :
    AllTyped m [] uses tables' := fun use member => (h use member).mono sub

end AllTyped

end Sql

end ResourceSql
