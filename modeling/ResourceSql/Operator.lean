/-
The operators that requests and statements share.
-/

namespace ResourceSql

/-- Comparisons of two values. -/
inductive Comparison where
  | equals
  | lessThan
  | lessOrEqual
  | greaterThan
  | greaterOrEqual
  deriving DecidableEq

namespace Comparison

/-- All comparisons, in the order in which they are listed. -/
def all : List Comparison := [equals, lessThan, lessOrEqual, greaterThan, greaterOrEqual]

/-- The name in requests. -/
def name : Comparison → String
  | equals => "equals"
  | lessThan => "less_than"
  | lessOrEqual => "less_or_equal"
  | greaterThan => "greater_than"
  | greaterOrEqual => "greater_or_equal"

/-- The sign in statements. -/
def sign : Comparison → String
  | equals => "="
  | lessThan => "<"
  | lessOrEqual => "<="
  | greaterThan => ">"
  | greaterOrEqual => ">="

end Comparison

/-- Where a text that is looked for has to occur. -/
inductive TextMatch where
  | startsWith
  | endsWith
  | contains
  deriving DecidableEq

namespace TextMatch

def all : List TextMatch := [startsWith, endsWith, contains]

def name : TextMatch → String
  | startsWith => "starts_with"
  | endsWith => "ends_with"
  | contains => "contains"

end TextMatch

/-- How conditions are joined to one. -/
inductive Connective where
  | and
  | or
  deriving DecidableEq

namespace Connective

def name : Connective → String
  | and => "and"
  | or => "or"

/-- The word in statements. -/
def word : Connective → String
  | and => "AND"
  | or => "OR"

end Connective

end ResourceSql
