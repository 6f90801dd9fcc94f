namespace BuildDesc.Layout

def isLineEnd (c : Char) : Bool :=
  c == '\r' || c == '\n'

def isBlank (c : Char) : Bool :=
  c == ' ' || c == '\t' || isLineEnd c

mutual

/-- The text after the blanks and comments that begin it. -/
def skip : List Char → List Char
  | [] => []
  | c :: cs => if c = '#' then skipComment cs else if isBlank c then skip cs else c :: cs

def skipComment : List Char → List Char
  | [] => []
  | c :: cs => if isLineEnd c then skip cs else skipComment cs

end

mutual

theorem length_skip_le : ∀ s : List Char, (skip s).length ≤ s.length
  | [] => Nat.le_refl _
  | c :: cs => by
    rw [skip]
    split
    · exact Nat.le_succ_of_le (length_skipComment_le cs)
    · split
      · exact Nat.le_succ_of_le (length_skip_le cs)
      · exact Nat.le_refl _

theorem length_skipComment_le : ∀ s : List Char, (skipComment s).length ≤ s.length
  | [] => Nat.le_refl _
  | c :: cs => by
    rw [skipComment]
    split
    · exact Nat.le_succ_of_le (length_skip_le cs)
    · exact Nat.le_succ_of_le (length_skipComment_le cs)

end

end BuildDesc.Layout
