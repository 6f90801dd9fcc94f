namespace BuildDesc

inductive Comparison where
  | equal | notEqual | member | notMember
  deriving DecidableEq

/-- A condition as it is written; parentheses leave no trace. -/
inductive Condition where
  | text (s : String)
  | integer (n : Int64)
  | boolean (b : Bool)
  | name (x : String)
  | list (items : List Condition)
  | compare (lhs : Condition) (op : Comparison) (rhs : Condition)
  | not (c : Condition)
  | and (a b : Condition)
  | or (a b : Condition)

namespace Condition

def reserved : List String :=
  ["and", "or", "not", "in", "True", "False", "None"]

end Condition

end BuildDesc
