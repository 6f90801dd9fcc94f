namespace BuildDesc.Word

def isHead (c : Char) : Bool :=
  c.isAlpha || c == '_'

def isTail (c : Char) : Bool :=
  c.isAlphanum || c == '_'

/-- Reads the longest word that begins the text. -/
def read : List Char → Option (String × List Char)
  | [] => none
  | c :: cs =>
    if isHead c then some (String.ofList (c :: cs.takeWhile isTail), cs.dropWhile isTail)
    else none

theorem length_dropWhile_le (p : Char → Bool) (s : List Char) :
    (s.dropWhile p).length ≤ s.length := by
  have h := congrArg List.length (List.takeWhile_append_dropWhile (p := p) (l := s))
  rw [List.length_append] at h
  omega

theorem length_lt_of_read {s rest : List Char} {w : String} (h : read s = some (w, rest)) :
    rest.length < s.length := by
  cases s with
  | nil => simp [read] at h
  | cons c cs =>
    simp only [read] at h
    split at h
    · obtain ⟨-, rfl⟩ := Prod.mk.inj (Option.some.inj h)
      exact Nat.lt_succ_of_le (length_dropWhile_le isTail cs)
    · simp at h

end BuildDesc.Word
