import BuildDesc.Condition.Basic
import BuildDesc.Error
import BuildDesc.Reading
import BuildDesc.Text.Space
import BuildDesc.Token

namespace BuildDesc.Condition

inductive Sign where
  | openList | closeList | openGroup | closeGroup | comma | equal | notEqual
  deriving DecidableEq

def Sign.read : List Char → Option (Sign × List Char)
  | '[' :: cs => some (openList, cs)
  | ']' :: cs => some (closeList, cs)
  | '(' :: cs => some (openGroup, cs)
  | ')' :: cs => some (closeGroup, cs)
  | ',' :: cs => some (comma, cs)
  | '=' :: '=' :: cs => some (equal, cs)
  | '!' :: '=' :: cs => some (notEqual, cs)
  | _ => none

theorem Sign.length_lt_of_read {s : List Char} {t : Sign} {rest : List Char}
    (h : read s = some (t, rest)) : rest.length < s.length := by
  unfold read at h
  split at h
  all_goals first
    | simp only [reduceCtorEq] at h
    | (obtain ⟨-, rfl⟩ := Prod.mk.inj (Option.some.inj h)
       simp only [List.length_cons]
       omega)

def lexicon : Lexicon Sign where
  skip := Space.skip
  readSign := Sign.read
  length_skip_le := Space.length_skip_le
  length_lt_of_readSign := Sign.length_lt_of_read

def ofWord? (w : String) : Option Condition :=
  if w = "True" then some (boolean true)
  else if w = "False" then some (boolean false)
  else if w ∈ reserved then none
  else some (name w)

def readComparison? : (ts : List (Token Sign)) →
    Option (Reading (Token Sign) Comparison ts.length)
  | .sign .equal :: ts => some ⟨.equal, ts, Nat.lt_succ_self _⟩
  | .sign .notEqual :: ts => some ⟨.notEqual, ts, Nat.lt_succ_self _⟩
  | .word "in" :: ts => some ⟨.member, ts, Nat.lt_succ_self _⟩
  | .word "not" :: .word "in" :: ts =>
    some ⟨.notMember, ts, Nat.lt_succ_of_lt (Nat.lt_succ_self _)⟩
  | _ => none

mutual

def readOr (ts : List (Token Sign)) : Option (Reading (Token Sign) Condition ts.length) := do
  let r ← readAnd ts
  have := r.length_rest_lt
  readOrTail r
termination_by 8 * ts.length + 5

/-- Reads what `or` adds to a condition. -/
def readOrTail {n : Nat} (r : Reading (Token Sign) Condition n) :
    Option (Reading (Token Sign) Condition n) :=
  match h : r.rest with
  | .word "or" :: ts => do
    have := r.length_rest_lt
    have : r.rest.length = ts.length + 1 := by rw [h, List.length_cons]
    let b ← readAnd ts
    have := b.length_rest_lt
    readOrTail ⟨or r.value b.value, b.rest, by omega⟩
  | _ => some r
termination_by 8 * r.rest.length

def readAnd (ts : List (Token Sign)) : Option (Reading (Token Sign) Condition ts.length) := do
  let r ← readNot ts
  have := r.length_rest_lt
  readAndTail r
termination_by 8 * ts.length + 4

def readAndTail {n : Nat} (r : Reading (Token Sign) Condition n) :
    Option (Reading (Token Sign) Condition n) :=
  match h : r.rest with
  | .word "and" :: ts => do
    have := r.length_rest_lt
    have : r.rest.length = ts.length + 1 := by rw [h, List.length_cons]
    let b ← readNot ts
    have := b.length_rest_lt
    readAndTail ⟨and r.value b.value, b.rest, by omega⟩
  | _ => some r
termination_by 8 * r.rest.length

def readNot : (ts : List (Token Sign)) → Option (Reading (Token Sign) Condition ts.length)
  | .word "not" :: ts => (readNot ts).map fun r => (r.map not).weaken (Nat.le_succ _)
  | ts => readCompare ts
termination_by ts => 8 * ts.length + 3

def readCompare (ts : List (Token Sign)) :
    Option (Reading (Token Sign) Condition ts.length) := do
  let lhs ← readOperand ts
  have := lhs.length_rest_lt
  match readComparison? lhs.rest with
  | none => some lhs
  | some op => do
    have := op.length_rest_lt
    let rhs ← readOperand op.rest
    have := rhs.length_rest_lt
    some ⟨compare lhs.value op.value rhs.value, rhs.rest, by omega⟩
termination_by 8 * ts.length + 2

def readOperand : (ts : List (Token Sign)) → Option (Reading (Token Sign) Condition ts.length)
  | .quoted s :: ts => some ⟨text s, ts, Nat.lt_succ_self _⟩
  | .numeral n :: ts => some ⟨integer n, ts, Nat.lt_succ_self _⟩
  | .word w :: ts => (ofWord? w).map fun c => ⟨c, ts, Nat.lt_succ_self _⟩
  | .sign .openList :: ts => (readItems ts).map fun r => (r.map list).weaken (Nat.le_succ _)
  | .sign .openGroup :: ts => do
    let r ← readOr ts
    match h : r.rest with
    | .sign .closeGroup :: rest =>
      have := Reading.length_lt_of_rest_eq h
      some ⟨r.value, rest, by simp only [List.length_cons]; omega⟩
    | _ => none
  | _ => none
termination_by ts => 8 * ts.length + 1

/-- Reads the items of a list that are still to come, and the bracket that closes it. -/
def readItems : (ts : List (Token Sign)) →
    Option (Reading (Token Sign) (List Condition) ts.length)
  | .sign .closeList :: ts => some ⟨[], ts, Nat.lt_succ_self _⟩
  | ts => do
    let item ← readOr ts
    match h : item.rest with
    | .sign .closeList :: rest =>
      have := Reading.length_lt_of_rest_eq h
      some ⟨[item.value], rest, by omega⟩
    | .sign .comma :: rest => do
      have := Reading.length_lt_of_rest_eq h
      let items ← readItems rest
      have := items.length_rest_lt
      some ⟨item.value :: items.value, items.rest, by omega⟩
    | _ => none
termination_by ts => 8 * ts.length + 6

end

def ofText? (s : String) : Option Condition := do
  let ts ← lexicon.tokens s.toList
  let r ← readOr ts
  r.complete?

/-- Reads the condition that a text denotes. -/
def parse (s : String) : Except Error Condition :=
  match ofText? s with
  | some c => return c
  | none => throw (.notCondition s)

end BuildDesc.Condition
