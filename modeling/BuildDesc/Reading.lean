namespace BuildDesc

/-- A value read from the front of a list of `n` items, and the items after it. -/
structure Reading (τ α : Type) (n : Nat) where
  value : α
  rest : List τ
  length_rest_lt : rest.length < n

namespace Reading

variable {τ α β : Type} {m n : Nat}

def map (f : α → β) (r : Reading τ α n) : Reading τ β n :=
  ⟨f r.value, r.rest, r.length_rest_lt⟩

def weaken (h : m ≤ n) (r : Reading τ α m) : Reading τ α n :=
  ⟨r.value, r.rest, Nat.lt_of_lt_of_le r.length_rest_lt h⟩

def complete? (r : Reading τ α n) : Option α :=
  if r.rest.isEmpty then some r.value else none

theorem length_lt_of_rest_eq {r : Reading τ α n} {t : τ} {ts : List τ} (h : r.rest = t :: ts) :
    ts.length + 1 < n := by
  have := r.length_rest_lt
  rwa [h] at this

end Reading

def Yields {τ α : Type} {n : Nat} (x : Option (Reading τ α n)) (a : α) (rest : List τ) : Prop :=
  ∃ h, x = some ⟨a, rest, h⟩

end BuildDesc
