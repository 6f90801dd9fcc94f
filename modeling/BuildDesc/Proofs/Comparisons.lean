import BuildDesc.Proofs.Lookups
import BuildDesc.Resolution

namespace BuildDesc

def Operand.kind : Operand → Kind
  | text _ => .text
  | integer _ => .integer
  | boolean _ => .boolean
  | list _ => .list

namespace Comparison

variable {l r : Operand}

/-- Holds of operands that a comparison is meant for: equality is asked between operands of one
kind, and membership of anything in a list and of a text in a text. -/
def Suits (l r : Operand) : Comparison → Prop
  | equal | notEqual => l.kind = r.kind
  | member | notMember => r.kind = .list ∨ l.kind = .text ∧ r.kind = .text

theorem isSome_occursIn?_iff : (l.occursIn? r).isSome = true ↔ member.Suits l r := by
  cases r with
  | text s => cases l <;> simp [Operand.occursIn?, Suits, Operand.kind]
  | integer n => simp [Operand.occursIn?, Suits, Operand.kind]
  | boolean v => simp [Operand.occursIn?, Suits, Operand.kind]
  | list items => simp [Operand.occursIn?, Suits, Operand.kind]

theorem occursIn?_eq_none (h : ¬member.Suits l r) : l.occursIn? r = none := by
  rwa [← isSome_occursIn?_iff, Option.not_isSome_iff_eq_none] at h

theorem holds_of_not_suits {op : Comparison} (h : ¬op.Suits l r) :
    op.holds l r = decide (op = notEqual) := by
  cases op with
  | equal =>
    have hne : l ≠ r := fun he => h (congrArg Operand.kind he)
    exact decide_eq_false hne
  | notEqual =>
    have hne : l ≠ r := fun he => h (congrArg Operand.kind he)
    exact decide_eq_true hne
  | member =>
    rw [holds, occursIn?_eq_none h]
    rfl
  | notMember =>
    rw [holds, occursIn?_eq_none h]
    rfl

theorem holds_equal (l r : Operand) : equal.holds l r = !notEqual.holds l r := by
  rw [holds, holds, decide_not, Bool.not_not]

/-- The two forms of membership are opposites only of operands that they are meant for. -/
theorem holds_member_iff : member.holds l r = !notMember.holds l r ↔ member.Suits l r := by
  rw [holds, holds, ← isSome_occursIn?_iff]
  cases l.occursIn? r with
  | none => simp
  | some found => cases found <;> simp

end Comparison

namespace Condition

variable {b : Bindings} {lhs rhs : Condition} {l r : Operand}

theorem holds_compare (hl : eval b lhs = .ok l) (hr : eval b rhs = .ok r) (op : Comparison) :
    (compare lhs op rhs).holds b = op.holds l r := by
  rw [holds, eval, hl, hr]
  rfl

/-- Between operands that it is not meant for, a comparison holds only if it is the one for
inequality, and it selects the first settings of a clause only then. -/
theorem holds_compare_mismatched (hl : eval b lhs = .ok l) (hr : eval b rhs = .ok r) :
    (∀ op : Comparison, ¬op.Suits l r →
      (compare lhs op rhs).holds b = decide (op = .notEqual) ∧
      ∀ c : Clause, c.condition = compare lhs op rhs →
        c.selected? b = if op = .notEqual then some c.thenBranch else c.elseBranch) ∧
    (compare lhs .equal rhs).holds b = !(compare lhs .notEqual rhs).holds b ∧
    ((compare lhs .member rhs).holds b = !(compare lhs .notMember rhs).holds b ↔
      Comparison.member.Suits l r) := by
  simp only [holds_compare hl hr]
  refine ⟨?_, Comparison.holds_equal l r, Comparison.holds_member_iff⟩
  intro op h
  have hholds := Comparison.holds_of_not_suits h
  refine ⟨hholds, ?_⟩
  intro c hc
  rw [Clause.selected?, hc, holds_compare hl hr, hholds]
  simp only [decide_eq_true_eq]

theorem holds_compare_mismatched_skipped :
    (eval (system "win") (.name "OS") = .ok (.text "win") ∧
      eval (system "win") (.and (.integer 0) (.name "x")) = .ok (.integer 0)) ∧
    ¬Comparison.notEqual.Suits (.text "win") (.integer 0) ∧
    (compare (.name "OS") .notEqual (.and (.integer 0) (.name "x"))).holds (system "win") = true ∧
    ¬Comparison.notMember.Suits (.text "win") (.integer 0) ∧
    (compare (.name "OS") .notMember (.and (.integer 0) (.name "x"))).holds (system "win") =
      false := by
  have hl : eval (system "win") (.name "OS") = .ok (.text "win") := rfl
  have hr : eval (system "win") (.and (.integer 0) (.name "x")) = .ok (.integer 0) := rfl
  have hnotEqual : ¬Comparison.notEqual.Suits (.text "win") (.integer 0) := by
    intro h
    cases h
  have hnotMember : ¬Comparison.notMember.Suits (.text "win") (.integer 0) := by
    rintro (h | ⟨-, h⟩) <;> cases h
  obtain ⟨hmismatched, -, -⟩ := holds_compare_mismatched hl hr
  exact ⟨⟨hl, hr⟩, hnotEqual, (hmismatched _ hnotEqual).1, hnotMember,
    (hmismatched _ hnotMember).1⟩

theorem exists_mismatched_notEqual :
    ¬∀ (b : Bindings) (lhs rhs : Condition) (l r : Operand),
      eval b lhs = .ok l → eval b rhs = .ok r → l.kind ≠ r.kind →
        (compare lhs .equal rhs).holds b = false ∧ (compare lhs .notEqual rhs).holds b = false := by
  intro h
  have hkind : (Operand.integer 1).kind ≠ (Operand.text "1").kind := by decide
  have hfalse := (h ∅ (.integer 1) (.text "1") _ _ rfl rfl hkind).2
  rw [holds_compare (l := .integer 1) (r := .text "1") rfl rfl] at hfalse
  exact absurd hfalse (by decide)

end Condition

end BuildDesc
