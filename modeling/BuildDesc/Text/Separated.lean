namespace BuildDesc.Separated

/-- The pieces of a text between the occurrences of a separator; there is always one. -/
def split (sep : Char) : List Char → List (List Char)
  | [] => [[]]
  | c :: cs =>
    if c = sep then [] :: split sep cs
    else
      match split sep cs with
      | [] => [[c]]
      | p :: ps => (c :: p) :: ps

def join (sep : Char) (ps : List (List Char)) : List Char :=
  [sep].intercalate ps

theorem split_ne_nil (sep : Char) (s : List Char) : split sep s ≠ [] := by
  cases s with
  | nil => exact List.cons_ne_nil _ _
  | cons c cs =>
    rw [split]
    split
    · exact List.cons_ne_nil _ _
    · split <;> exact List.cons_ne_nil _ _

theorem join_split (sep : Char) (s : List Char) : join sep (split sep s) = s := by
  induction s with
  | nil => rfl
  | cons c cs ih =>
    rw [split]
    split
    · next h =>
      subst h
      cases hp : split c cs with
      | nil => exact absurd hp (split_ne_nil c cs)
      | cons p ps =>
        rw [hp] at ih
        rw [← ih]
        rfl
    · cases hp : split sep cs with
      | nil => exact absurd hp (split_ne_nil sep cs)
      | cons p ps =>
        rw [hp] at ih
        rw [← ih]
        cases ps <;> rfl

end BuildDesc.Separated
