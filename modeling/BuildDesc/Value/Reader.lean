import BuildDesc.Error
import BuildDesc.Reading
import BuildDesc.Text.Layout
import BuildDesc.Token

namespace BuildDesc.Value

inductive Sign where
  | openList | closeList | openMapping | closeMapping | comma | colon
  deriving DecidableEq

def Sign.char : Sign → Char
  | .openList => '['
  | .closeList => ']'
  | .openMapping => '\x7b'
  | .closeMapping => '\x7d'
  | .comma => ','
  | .colon => ':'

def Sign.ofChar? (c : Char) : Option Sign :=
  [openList, closeList, openMapping, closeMapping, comma, colon].find? fun s => s.char == c

def Sign.read : List Char → Option (Sign × List Char)
  | [] => none
  | c :: cs => (ofChar? c).map fun s => (s, cs)

theorem Sign.length_lt_of_read {s : List Char} {t : Sign} {rest : List Char}
    (h : read s = some (t, rest)) : rest.length < s.length := by
  cases s with
  | nil => simp [read] at h
  | cons c cs =>
    obtain ⟨u, -, h⟩ := Option.map_eq_some_iff.1 h
    obtain ⟨-, rfl⟩ := Prod.mk.inj h
    exact Nat.lt_succ_self _

def lexicon : Lexicon Sign where
  skip := Layout.skip
  readSign := Sign.read
  length_skip_le := Layout.length_skip_le
  length_lt_of_readSign := Sign.length_lt_of_read

def ofWord? (w : String) : Option Value :=
  if w = "True" then some (boolean true)
  else if w = "False" then some (boolean false)
  else if w = "None" then some null
  else none

/-- Appends the quoted strings that begin the tokens to `s`. -/
def readText (s : String) : (ts : List (Token Sign)) → Reading (Token Sign) String (ts.length + 1)
  | .quoted t :: ts => (readText (s ++ t) ts).weaken (Nat.le_succ _)
  | ts => ⟨s, ts, Nat.lt_succ_self _⟩

mutual

def read : (ts : List (Token Sign)) → Option (Reading (Token Sign) Value ts.length)
  | .quoted s :: ts => some ((readText s ts).map text)
  | .numeral n :: ts => some ⟨integer n, ts, Nat.lt_succ_self _⟩
  | .word w :: ts => (ofWord? w).map fun v => ⟨v, ts, Nat.lt_succ_self _⟩
  | .sign .openList :: ts =>
    (readItems ts).map fun r => (r.map list).weaken (Nat.le_succ _)
  | .sign .openMapping :: ts =>
    (readEntries ts).map fun r => (r.map fun es => mapping (Dict.ofList es)).weaken (Nat.le_succ _)
  | _ => none
termination_by ts => 2 * ts.length

/-- Reads the items of a list that are still to come, and the bracket that closes it. -/
def readItems : (ts : List (Token Sign)) → Option (Reading (Token Sign) (List Value) ts.length)
  | .sign .closeList :: ts => some ⟨[], ts, Nat.lt_succ_self _⟩
  | ts => do
    let item ← read ts
    match h : item.rest with
    | .sign .closeList :: rest =>
      have := Reading.length_lt_of_rest_eq h
      some ⟨[item.value], rest, by omega⟩
    | .sign .comma :: rest => do
      have := Reading.length_lt_of_rest_eq h
      let items ← readItems rest
      have := items.length_rest_lt
      some ⟨item.value :: items.value, items.rest, by omega⟩
    | _ => none
termination_by ts => 2 * ts.length + 1

def readEntries : (ts : List (Token Sign)) →
    Option (Reading (Token Sign) (List (String × Value)) ts.length)
  | .sign .closeMapping :: ts => some ⟨[], ts, Nat.lt_succ_self _⟩
  | .quoted k :: .sign .colon :: ts => do
    let v ← read ts
    match h : v.rest with
    | .sign .closeMapping :: rest =>
      have := Reading.length_lt_of_rest_eq h
      some ⟨[(k, v.value)], rest, by simp only [List.length_cons]; omega⟩
    | .sign .comma :: rest => do
      have := Reading.length_lt_of_rest_eq h
      let es ← readEntries rest
      have := es.length_rest_lt
      some ⟨(k, v.value) :: es.value, es.rest, by simp only [List.length_cons]; omega⟩
    | _ => none
  | _ => none
termination_by ts => 2 * ts.length + 1

end

def ofText? (s : String) : Option Value := do
  let ts ← lexicon.tokens s.toList
  let r ← read ts
  r.complete?

def parse (s : String) : Except Error Value :=
  match ofText? s with
  | some v => return v
  | none => throw .notValue

end BuildDesc.Value
