import BuildDesc.Proofs.Spelling

namespace BuildDesc

namespace Quoted

def escape (q : Char) (s : List Char) : List Char :=
  s.flatMap fun c => if c = '\\' ∨ c = q then ['\\', c] else [c]

def write (q : Char) (s : String) : List Char :=
  q :: (escape q s.toList ++ [q])

variable {q : Char}

theorem unescape_eq_singleton {c : Char} (h : c = '\\' ∨ isQuote c = true) : unescape c = [c] := by
  have hc : c = '\\' ∨ c = '\'' ∨ c = '"' := h.imp_right isQuote_eq
  rw [unescape, if_pos hc]

theorem escape_cons (c : Char) (s : List Char) :
    escape q (c :: s) = (if c = '\\' ∨ c = q then ['\\', c] else [c]) ++ escape q s :=
  List.flatMap_cons

theorem writes_escape (hq : isQuote q = true) (s : List Char) : Writes q (escape q s) s := by
  induction s with
  | nil => exact .nil
  | cons c s ih =>
    rw [escape_cons]
    by_cases h : c = '\\' ∨ c = q
    · have hc : c = '\\' ∨ isQuote c = true := by
        rcases h with h | rfl
        · exact .inl h
        · exact .inr hq
      have hr : c = '\r' → (escape q s).head? ≠ some '\n' := by
        intro hr
        subst hr
        rcases hc with hc | hc <;> cases hc
      have hw := Writes.escape hr ih
      rw [unescape_eq_singleton hc] at hw
      rwa [if_pos h]
    · rw [if_neg h]
      rw [not_or] at h
      exact .plain h.1 h.2 ih

end Quoted

namespace Numeral

/-- The decimal form of an integer, which has a minus sign if the integer is below zero. -/
def write (n : Int64) : List Char :=
  if n.toInt < 0 then '-' :: Nat.toDigits 10 n.toInt.natAbs else Nat.toDigits 10 n.toInt.natAbs

theorem digitChar_ne_zero : ∀ d < 10, 0 < d → d.digitChar ≠ '0' := by
  decide

theorem exists_toDigits_eq_cons {n : Nat} (h : 0 < n) :
    ∃ c cs, Nat.toDigits 10 n = c :: cs ∧ c ≠ '0' := by
  induction n using Nat.strongRecOn with
  | _ n ih =>
    by_cases hn : n < 10
    · exact ⟨n.digitChar, [], Nat.toDigits_of_lt_base hn, digitChar_ne_zero n hn h⟩
    · obtain ⟨c, cs, hcs, hc⟩ := ih (n / 10) (by omega) (by omega)
      rw [Nat.toDigits_of_base_le (by decide) (Nat.le_of_not_lt hn), hcs]
      exact ⟨c, cs ++ [(n % 10).digitChar], rfl, hc⟩

theorem isDigits_toDigits (n : Nat) : IsDigits (Nat.toDigits 10 n) := by
  cases n with
  | zero => exact .inl (Nat.toDigits_zero 10)
  | succ n =>
    obtain ⟨c, cs, hcs, hc⟩ := exists_toDigits_eq_cons (Nat.succ_pos n)
    refine .inr ⟨c, cs, hcs, hc, ?_⟩
    intro d hd
    exact Nat.isDigit_of_mem_toDigits (by decide) (by decide) hd

theorem spells_write (n : Int64) : Spells n (write n) := by
  have hdigits := isDigits_toDigits n.toInt.natAbs
  have hvalue : Nat.ofDigitChars 10 (Nat.toDigits 10 n.toInt.natAbs) 0 = n.toInt.natAbs :=
    Nat.ofDigitChars_ten_toDigits
  rw [write]
  by_cases h : n.toInt < 0
  · rw [if_pos h]
    apply Spells.minus hdigits
    rw [hvalue]
    omega
  · rw [if_neg h]
    apply Spells.plain hdigits
    rw [hvalue]
    omega

end Numeral

end BuildDesc
