import BuildDesc.Text.Numeral
import BuildDesc.Text.Quoted

namespace BuildDesc

inductive Token (σ : Type) where
  | word (w : String)
  | quoted (s : String)
  | numeral (n : Int64)
  | sign (s : σ)
  deriving DecidableEq

/-- The signs of a notation and the gaps between its tokens. -/
structure Lexicon (σ : Type) where
  skip : List Char → List Char
  readSign : List Char → Option (σ × List Char)
  length_skip_le : ∀ s, (skip s).length ≤ s.length
  length_lt_of_readSign : ∀ {s t rest}, readSign s = some (t, rest) → rest.length < s.length

namespace Lexicon

variable {σ : Type} (L : Lexicon σ)

def readToken (s : List Char) : Option (Token σ × List Char) :=
  match Word.read s with
  | some (w, rest) => some (.word w, rest)
  | none =>
    match Quoted.read s with
    | some (t, rest) => some (.quoted t, rest)
    | none =>
      match Numeral.read s with
      | some (n, rest) => some (.numeral n, rest)
      | none => (L.readSign s).map fun (t, rest) => (.sign t, rest)

theorem length_lt_of_readToken {s rest : List Char} {t : Token σ}
    (h : L.readToken s = some (t, rest)) : rest.length < s.length := by
  unfold readToken at h
  split at h
  · next hr =>
    obtain ⟨-, rfl⟩ := Prod.mk.inj (Option.some.inj h)
    exact Word.length_lt_of_read hr
  · split at h
    · next hr =>
      obtain ⟨-, rfl⟩ := Prod.mk.inj (Option.some.inj h)
      exact Quoted.length_lt_of_read hr
    · split at h
      · next hr =>
        obtain ⟨-, rfl⟩ := Prod.mk.inj (Option.some.inj h)
        exact Numeral.length_lt_of_read hr
      · obtain ⟨⟨u, r⟩, hr, h⟩ := Option.map_eq_some_iff.1 h
        obtain ⟨-, rfl⟩ := Prod.mk.inj h
        exact L.length_lt_of_readSign hr

def tokens (s : List Char) : Option (List (Token σ)) :=
  match h : L.skip s with
  | [] => some []
  | c :: cs =>
    match hr : L.readToken (c :: cs) with
    | none => none
    | some (t, rest) =>
      have : rest.length < s.length := by
        have hskip := L.length_skip_le s
        rw [h] at hskip
        exact Nat.lt_of_lt_of_le (L.length_lt_of_readToken hr) hskip
      (tokens rest).map (t :: ·)
termination_by s.length

end Lexicon

end BuildDesc
