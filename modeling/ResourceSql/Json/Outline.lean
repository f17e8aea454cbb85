/-
The outline of a JSON text: its values with the places where they stand, as far
as the text can be read. A text that breaks off leaves an outline too, which
ends in the fault that was met. Whoever makes something of an outline can so
report, of all that is wrong with a text, what a reader going from left to right
meets first.
-/
import ResourceSql.Json.Value

namespace ResourceSql

/-- A place between two characters: how many come before it, and the line it is on. -/
structure Place where
  offset : Nat
  line : Nat
  deriving DecidableEq

namespace Place

def first : Place := ⟨0, 1⟩

/-- The place behind a character. -/
def after (p : Place) (c : Char) : Place := ⟨p.offset + 1, if c = '\n' then p.line + 1 else p.line⟩

end Place

/-- What is wrong with a text: a value is not what is called for, the text ends too early, or it
is not JSON. -/
inductive FaultKind where
  | mismatch
  | incomplete
  | malformed
  deriving DecidableEq

structure Fault where
  kind : FaultKind
  place : Place
  deriving DecidableEq

namespace Fault

/-- Of two faults the one that is met first. At one place a value is refused before anything is
looked for behind it. -/
def earlier (a b : Fault) : Fault :=
  if b.place.offset < a.place.offset then b
  else if b.place.offset = a.place.offset ∧ b.kind = .mismatch then b
  else a

def earliest? : Option Fault → Option Fault → Option Fault
  | some a, some b => some (a.earlier b)
  | some a, none => some a
  | none, b => b

end Fault

/-- A value in a text. Scalars keep the place behind them, lists and objects the place before
them and the place behind them, if they have an end. -/
inductive Outline where
  | null (after : Place)
  | bool (value : Bool) (after : Place)
  | number (value : JsonNumber) (after : Place)
  | string (value : String) (after : Place)
  /-- A list; `tooDeep` is the fault of entering it, if it is nested too deeply. -/
  | array (before : Place) (tooDeep : Option Fault) (items : List Outline)
    (after : Except Fault Place)
  /-- An object. Each name is followed by the place at which its value was looked for. -/
  | object (before : Place) (tooDeep : Option Fault)
    (members : List (Except Fault String × Place × Outline)) (after : Except Fault Place)
  /-- A value that has no meaning, but can be passed over as if it were another one. -/
  | unreadable (fault : Fault) (passed : Outline)
  /-- A word or a number that breaks off, with the place before it, or no value at all. -/
  | broken (before : Option Place) (fault : Fault)

namespace Outline

/-- The fault of a list or an object that has no end. -/
def endFault? : Except Fault Place → Option Fault
  | .error fault => some fault
  | .ok _ => none

def nameFault? : Except Fault String → Option Fault
  | .error fault => some fault
  | .ok _ => none

mutual

/-- The first fault that a reader of the value meets. -/
def fault? : Outline → Option Fault
  | null _ | bool _ _ | number _ _ | string _ _ => none
  | array _ tooDeep items after =>
    Fault.earliest? tooDeep (Fault.earliest? (itemsFault? items) (endFault? after))
  | object _ tooDeep members after =>
    Fault.earliest? tooDeep (Fault.earliest? (membersFault? members) (endFault? after))
  | unreadable fault _ => some fault
  | broken _ fault => some fault

def itemsFault? : List Outline → Option Fault
  | [] => none
  | item :: items => Fault.earliest? (fault? item) (itemsFault? items)

def membersFault? : List (Except Fault String × Place × Outline) → Option Fault
  | [] => none
  | (name, _, value) :: members =>
    Fault.earliest? (nameFault? name) (Fault.earliest? (fault? value) (membersFault? members))

end

mutual

/-- The first fault that a reader meets who passes over the value. -/
def passFault? : Outline → Option Fault
  | null _ | bool _ _ | number _ _ | string _ _ => none
  | array _ _ items after => Fault.earliest? (passItemsFault? items) (endFault? after)
  | object _ _ members after => Fault.earliest? (passMembersFault? members) (endFault? after)
  | unreadable _ passed => passFault? passed
  | broken _ fault => some fault

def passItemsFault? : List Outline → Option Fault
  | [] => none
  | item :: items => Fault.earliest? (passFault? item) (passItemsFault? items)

def passMembersFault? : List (Except Fault String × Place × Outline) → Option Fault
  | [] => none
  | (_, _, value) :: members => Fault.earliest? (passFault? value) (passMembersFault? members)

end

mutual

/-- The value, where nothing is wrong with it. -/
def toJson : Outline → Json
  | null _ => .null
  | bool value _ => .bool value
  | number value _ => .number value
  | string value _ => .string value
  | array _ _ items _ => .array (itemsToJson items)
  | object _ _ members _ => .ofMembers (membersToJson members)
  | unreadable _ _ => .null
  | broken _ _ => .null

def itemsToJson : List Outline → List Json
  | [] => []
  | item :: items => toJson item :: itemsToJson items

def membersToJson : List (Except Fault String × Place × Outline) → List (String × Json)
  | [] => []
  | (.ok name, _, value) :: members => (name, toJson value) :: membersToJson members
  | (.error _, _, _) :: members => membersToJson members

end

/-- The fault of a value that is not of the kind that is called for. A scalar is read before it
is refused, a list or an object is not. -/
def mismatch : Outline → Fault
  | null p | bool _ p | number _ p | string _ p => ⟨.mismatch, p⟩
  | array p _ _ _ | object p _ _ _ => ⟨.mismatch, p⟩
  | unreadable fault _ => fault
  | broken _ fault => fault

end Outline

end ResourceSql
