import BuildDesc.Text.Word

namespace BuildDesc.Numeral

/-- Reads the digits of a natural number: a lone zero, or the longest run that begins with a
nonzero digit. -/
def readDigits : List Char → Option (List Char × List Char)
  | [] => none
  | c :: cs =>
    if c = '0' then some (['0'], cs)
    else if c.isDigit then some (c :: cs.takeWhile Char.isDigit, cs.dropWhile Char.isDigit)
    else none

def int64? (n : Int) : Option Int64 :=
  if Int64.minValue.toInt ≤ n ∧ n ≤ Int64.maxValue.toInt then some (Int64.ofInt n) else none

def readScaled (sign : Int) (s : List Char) : Option (Int64 × List Char) :=
  (readDigits s).bind fun (digits, rest) =>
    (int64? (sign * Nat.ofDigitChars 10 digits 0)).map fun n => (n, rest)

def read : List Char → Option (Int64 × List Char)
  | '-' :: cs => readScaled (-1) cs
  | cs => readScaled 1 cs

theorem length_lt_of_readDigits {s ds rest : List Char} (h : readDigits s = some (ds, rest)) :
    rest.length < s.length := by
  cases s with
  | nil => simp [readDigits] at h
  | cons c cs =>
    simp only [readDigits] at h
    split at h
    · obtain ⟨-, rfl⟩ := Prod.mk.inj (Option.some.inj h)
      exact Nat.lt_succ_self _
    · split at h
      · obtain ⟨-, rfl⟩ := Prod.mk.inj (Option.some.inj h)
        exact Nat.lt_succ_of_le (Word.length_dropWhile_le Char.isDigit cs)
      · simp at h

theorem length_lt_of_readScaled {sign : Int} {s rest : List Char} {n : Int64}
    (h : readScaled sign s = some (n, rest)) : rest.length < s.length := by
  obtain ⟨⟨ds, r⟩, hr, h⟩ := Option.bind_eq_some_iff.1 h
  obtain ⟨m, -, h⟩ := Option.map_eq_some_iff.1 h
  obtain ⟨-, rfl⟩ := Prod.mk.inj h
  exact length_lt_of_readDigits hr

theorem length_lt_of_read {s rest : List Char} {n : Int64} (h : read s = some (n, rest)) :
    rest.length < s.length := by
  unfold read at h
  split at h
  · exact Nat.lt_succ_of_lt (length_lt_of_readScaled h)
  · exact length_lt_of_readScaled h

end BuildDesc.Numeral
