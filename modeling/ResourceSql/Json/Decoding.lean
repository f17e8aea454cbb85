/-
Making values of outlines. Parts are decoded independently of each other; of
the faults of several parts the one that stands first in the text is reported,
so that the outcome is that of reading from left to right.

A structure is an object with its fields as members, or a list with its fields
in order. A variant is an object with a member `type`, or a list whose first
item is the type; nothing is made of its other members before all of them were
read.
-/
import ResourceSql.Json.Outline

namespace ResourceSql

/-- A decoded value, or the first fault. -/
inductive Decoded (α : Type) where
  | ok (value : α)
  | fault (fault : Fault)

namespace Decoded

variable {α β : Type}

/-- Applies a decoded function to a decoded value; of two faults the earlier one stays. -/
def ap : Decoded (α → β) → Decoded α → Decoded β
  | ok f, ok a => ok (f a)
  | ok _, fault b => fault b
  | fault a, ok _ => fault a
  | fault a, fault b => fault (a.earlier b)

instance : Applicative Decoded where
  pure := ok
  seq f a := f.ap (a ())

/-- The value, unless something was wrong beside it. -/
def withFault (d : Decoded α) (beside : Option Fault) : Decoded α :=
  match d, beside with
  | d, none => d
  | ok _, some b => fault b
  | fault a, some b => fault (a.earlier b)

/-- In a value that was read before, whatever is wrong is a mismatch. -/
def afterReading : Decoded α → Decoded α
  | ok a => ok a
  | fault f => fault { f with kind := .mismatch }

def toOption : Decoded α → Option α
  | ok a => some a
  | fault _ => none

def traverse (f : β → Decoded α) : List β → Decoded (List α)
  | [] => ok []
  | b :: bs => (List.cons <$> f b).ap (traverse f bs)

end Decoded

abbrev Decoder (α : Type) := Outline → Decoded α

namespace Decoder

variable {α : Type}

def text : Decoder String
  | .string value _ => .ok value
  | o => .fault o.mismatch

def flag : Decoder Bool
  | .bool value _ => .ok value
  | o => .fault o.mismatch

/-- A whole number of 32 bits without a sign. -/
def count : Decoder Nat
  | .number (.integer n) after =>
    if 0 ≤ n ∧ n < Int.pow 2 32 then .ok n.toNat else .fault ⟨.mismatch, after⟩
  | o => .fault o.mismatch

/-- Any value. -/
def value : Decoder Json := fun o => (Decoded.ok o.toJson).withFault o.fault?

def list (item : Decoder α) : Decoder (List α)
  | .array _ tooDeep items after =>
    (Decoded.traverse item items).withFault (Fault.earliest? tooDeep (Outline.endFault? after))
  | o => .fault o.mismatch

/-- An object with any names; of several members of one name the last one counts. -/
def map (item : Decoder α) : Decoder (NameMap α)
  | .object _ tooDeep members after =>
    let decoded := Decoded.traverse
      (fun (name, _, value) =>
        ((fun a => (name.toOption.getD "", a)) <$> item value).withFault (Outline.nameFault? name))
      members
    (NameMap.ofList <$> decoded).withFault (Fault.earliest? tooDeep (Outline.endFault? after))
  | o => .fault o.mismatch

/-- Null is no value. -/
def option (item : Decoder α) : Decoder (Option α)
  | .null _ => .ok none
  | o => some <$> item o

/-- One of several names. An object with the name as its only member and null for its value
stands for the name, too; in a value that was read before, the value may also be an empty object.
Anything else is out of place where a name begins. -/
def oneOf (readBefore : Bool) (names : List (String × α)) : Decoder α
  | .string name after =>
    match names.lookup name with
    | some a => .ok a
    | none => .fault ⟨.mismatch, after⟩
  | .object _ tooDeep ((name, place, value) :: rest) after =>
    let named : Decoded α := match name with
      | .ok name =>
        match names.lookup name with
        | some a => .ok a
        | none => .fault ⟨.mismatch, place⟩
      | .error fault => .fault fault
    let empty : Option Fault := match value with
      | .null _ => none
      | .object _ _ [] (.ok _) => if readBefore then none else some value.mismatch
      | o => some o.mismatch
    let single : Option Fault := match rest, after with
      | (_, place, _) :: _, _ => some ⟨.malformed, place⟩
      | [], after => Outline.endFault? after
    named.withFault (Fault.earliest? tooDeep (Fault.earliest? empty single))
  | .object _ tooDeep [] after =>
    match after, tooDeep with
    | _, some fault => .fault fault
    | .ok place, none => .fault ⟨.malformed, place⟩
    | .error fault, none => .fault fault
  | .null place | .bool _ place | .number _ place => .fault ⟨.malformed, place⟩
  | .array before _ _ _ => .fault ⟨.malformed, before⟩
  | .unreadable _ (.number _ place) => .fault ⟨.malformed, place⟩
  | .unreadable _ (.broken (some place) _) => .fault ⟨.malformed, place⟩
  | .unreadable fault _ => .fault fault
  | .broken (some place) _ => .fault ⟨.malformed, place⟩
  | .broken none fault => .fault fault

/-! ## Structures -/

/-- The fields of a structure that a text gives, and the fault of not giving another one. -/
structure Fields where
  given : List (String × Outline)
  absent : Fault

namespace Fields

def required (fields : Fields) (name : String) (item : Decoder α) : Decoded α :=
  match fields.given.lookup name with
  | some o => item o
  | none => .fault fields.absent

def withDefault (fields : Fields) (name : String) (default : α) (item : Decoder α) : Decoded α :=
  match fields.given.lookup name with
  | some o => item o
  | none => .ok default

/-- A field that may be null, and may be left out. -/
def optional (fields : Fields) (name : String) (item : Decoder α) : Decoded (Option α) :=
  fields.withDefault name none (Decoder.option item)

end Fields

/-- What is wrong with a member apart from the value of a field: its name, a field given again,
or something in a value that is passed over. -/
def memberFault? (names seen : List String) :
    List (Except Fault String × Place × Outline) → Option Fault
  | [] => none
  | (.error fault, _, _) :: _ => some fault
  | (.ok name, place, value) :: members =>
    if names.contains name then
      if seen.contains name then some ⟨.mismatch, place⟩
      else memberFault? names (name :: seen) members
    else Fault.earliest? value.passFault? (memberFault? names seen members)

/-- A field is absent if the end is reached without it, which lies behind all that is there. -/
def absentFault : Except Fault Place → Fault
  | .ok place => ⟨.mismatch, place⟩
  | .error fault => ⟨.mismatch, { fault.place with offset := fault.place.offset + 1 }⟩

/-- The members that have a name. -/
def namedMembers : List (Except Fault String × Place × Outline) → List (String × Outline)
  | [] => []
  | (.ok name, _, value) :: members => (name, value) :: namedMembers members
  | (.error _, _, _) :: members => namedMembers members

/-- The place in front of an item, or of what follows a scalar. -/
def itemPlace : Outline → Place
  | .null p | .bool _ p | .number _ p | .string _ p => p
  | .array p _ _ _ | .object p _ _ _ => p
  | .unreadable fault _ => fault.place
  | .broken (some p) _ => p
  | .broken none fault => fault.place

/-- A structure with the given names of fields. -/
def record (names : List String) (build : Fields → Decoded α) : Decoder α
  | .object _ tooDeep members after =>
    (build ⟨namedMembers members, absentFault after⟩).withFault
      (Fault.earliest? tooDeep
        (Fault.earliest? (memberFault? names [] members) (Outline.endFault? after)))
  | .array _ tooDeep items after =>
    let surplus := match items.drop names.length with
      | [] => Outline.endFault? after
      | item :: _ => some ⟨.malformed, itemPlace item⟩
    (build ⟨names.zip items, absentFault after⟩).withFault (Fault.earliest? tooDeep surplus)
  | o => .fault o.mismatch

/-! ## Variants -/

/-- The name of the member that tells the variants apart. -/
def tagName : String := "type"

/-- The type of a variant. In a value that was read before, the number of a type stands for it. -/
def tag (types : List String) (readBefore : Bool) : Decoder String
  | .string name after => if types.contains name then .ok name else .fault ⟨.mismatch, after⟩
  | .number (.integer n) after =>
    match readBefore, n, types[n.toNat]? with
    | true, .ofNat _, some name => .ok name
    | _, _, _ => .fault ⟨.mismatch, after⟩
  | o => .fault o.mismatch

def isTag (member : Except Fault String × Place × Outline) : Bool :=
  match member.1 with
  | .ok name => name == tagName
  | .error _ => false

/-- One of several variants; `build` makes something of the type and the value without it. -/
def variant (types : List String) (readBefore : Bool) (build : String → Decoder α) : Decoder α
  | .object before tooDeep members after =>
    let rest := members.filter (fun member => !isTag member)
    let type : Decoded String := match members.filter isTag with
      | [] => .fault (absentFault after)
      | [(_, _, value)] => tag types readBefore value
      | (_, _, value) :: (_, place, _) :: _ =>
        (tag types readBefore value).withFault (some ⟨.mismatch, place⟩)
    let beside := Fault.earliest? tooDeep
      (Fault.earliest? (Outline.membersFault? rest) (Outline.endFault? after))
    match type.withFault beside with
    | .ok type => (build type (.object before none rest after)).afterReading
    | .fault fault => .fault fault
  | .array before tooDeep items after =>
    let type : Decoded String := match items with
      | [] => .fault (absentFault after)
      | item :: _ => tag types readBefore item
    let beside := Fault.earliest? tooDeep
      (Fault.earliest? (Outline.itemsFault? (items.drop 1)) (Outline.endFault? after))
    match type.withFault beside with
    | .ok type => (build type (.array before none (items.drop 1) after)).afterReading
    | .fault fault => .fault fault
  | o => .fault o.mismatch

/-- A variant without fields. Members without a meaning are passed over, items are not. -/
def nothing (a : α) : Decoder α
  | .array _ _ (item :: _) _ => .fault ⟨.mismatch, itemPlace item⟩
  | _ => .ok a

end Decoder

end ResourceSql
