/-
Windows on a sequence of rows or resources.
-/

namespace ResourceSql

/-- How many elements are kept, and how many are left out before them. -/
structure Window where
  limit : Option Nat
  offset : Option Nat
  deriving DecidableEq

namespace Window

/-- The window on everything. -/
def all : Window := ⟨none, none⟩

def isAll (w : Window) : Bool := w.limit.isNone && w.offset.isNone

end Window

end ResourceSql
