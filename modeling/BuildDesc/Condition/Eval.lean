import BuildDesc.Condition.Basic
import Std.Data.ExtTreeMap

namespace BuildDesc

abbrev Bindings := Std.ExtTreeMap String String

inductive Operand where
  | text (s : String)
  | integer (n : Int64)
  | boolean (b : Bool)
  | list (items : List Operand)

namespace Operand

/-- Empty texts, empty lists, zero and `false` count as false. -/
def truthy : Operand → Bool
  | text s => !s.isEmpty
  | integer n => n != 0
  | boolean b => b
  | list items => !items.isEmpty

mutual

def same : Operand → Operand → Bool
  | text s, text t => s == t
  | integer m, integer n => m == n
  | boolean a, boolean b => a == b
  | list xs, list ys => sameList xs ys
  | _, _ => false

def sameList : List Operand → List Operand → Bool
  | [], [] => true
  | x :: xs, y :: ys => same x y && sameList xs ys
  | _, _ => false

end

mutual

theorem same_iff : ∀ {x y : Operand}, same x y ↔ x = y
  | text _, y => by cases y <;> simp [same]
  | integer _, y => by cases y <;> simp [same]
  | boolean _, y => by cases y <;> simp [same]
  | list _, y => by cases y <;> simp [same, sameList_iff]

theorem sameList_iff : ∀ {xs ys : List Operand}, sameList xs ys ↔ xs = ys
  | [], ys => by cases ys <;> simp [sameList]
  | _ :: _, ys => by cases ys <;> simp [sameList, same_iff, sameList_iff]

end

instance : DecidableEq Operand := fun _ _ => decidable_of_iff _ same_iff

/-- Whether an operand occurs in another, where that can be asked: a text in a text, and anything
in a list. -/
def occursIn? (x : Operand) : Operand → Option Bool
  | text s =>
    match x with
    | text t => some (s.contains t)
    | _ => none
  | list items => some (decide (x ∈ items))
  | _ => none

end Operand

def Comparison.holds (l r : Operand) : Comparison → Bool
  | .equal => decide (l = r)
  | .notEqual => decide (l ≠ r)
  | .member => l.occursIn? r == some true
  | .notMember => l.occursIn? r == some false

structure Unbound where
  name : String
  deriving DecidableEq

namespace Condition

mutual

/-- The value of a condition, from left to right. The right operand of `and` and `or` is looked
at only if the left one does not decide. -/
def eval (b : Bindings) : Condition → Except Unbound Operand
  | text s => return .text s
  | integer n => return .integer n
  | boolean v => return .boolean v
  | name x =>
    match b[x]? with
    | some s => return .text s
    | none => throw ⟨x⟩
  | list items => return .list (← evalList b items)
  | compare lhs op rhs => do
    let l ← eval b lhs
    let r ← eval b rhs
    return .boolean (op.holds l r)
  | not c => return .boolean (!(← eval b c).truthy)
  | and lhs rhs => do
    let l ← eval b lhs
    if l.truthy then eval b rhs else return l
  | or lhs rhs => do
    let l ← eval b lhs
    if l.truthy then return l else eval b rhs

def evalList (b : Bindings) : List Condition → Except Unbound (List Operand)
  | [] => return []
  | c :: cs => return (← eval b c) :: (← evalList b cs)

end

def holds (b : Bindings) (c : Condition) : Bool :=
  match c.eval b with
  | .ok (.boolean v) => v
  | _ => false

def unbound? (b : Bindings) (c : Condition) : Option String :=
  match c.eval b with
  | .error e => some e.name
  | .ok _ => none

end Condition

end BuildDesc
