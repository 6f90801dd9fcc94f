import BuildDesc.Proofs.ConditionGrammar

namespace BuildDesc

namespace Space

theorem isSpace_eq_false {c : Char} (hl : 0x21 ≤ c.toNat) (hu : c.toNat ≤ 0x7E) :
    isSpace c = false := by
  simp only [isSpace, Bool.or_eq_false_iff, Bool.and_eq_false_iff, decide_eq_false_iff_not,
    beq_eq_false_iff_ne]
  omega

theorem isSpace_of_begins {c : Char} (h : Token.begins c = true) : isSpace c = false := by
  rw [Token.begins, Bool.or_eq_true, Bool.or_eq_true, Bool.or_eq_true, beq_iff_eq] at h
  rcases h with ((h | h) | h) | rfl
  · rcases Word.toNat_of_isHead h with h | h | rfl
    · exact isSpace_eq_false (by omega) (by omega)
    · exact isSpace_eq_false (by omega) (by omega)
    · decide
  · rcases Quoted.isQuote_eq h with rfl | rfl
    · decide
    · decide
  · have hdigit : 48 ≤ c.toNat ∧ c.toNat ≤ 57 := Char.isDigit_iff_toNat.1 h
    exact isSpace_eq_false (by omega) (by omega)
  · decide

theorem skip_cons {c : Char} (h : isSpace c = false) (cs : List Char) :
    skip (c :: cs) = c :: cs :=
  List.dropWhile_cons_of_neg (Bool.eq_false_iff.1 h)

end Space

namespace Condition

def Sign.spell : Sign → List Char
  | openList => ['[']
  | closeList => [']']
  | openGroup => ['(']
  | closeGroup => [')']
  | comma => [',']
  | equal => ['=', '=']
  | notEqual => ['!', '=']

theorem Sign.read_eq_some_iff {s rest : List Char} {t : Sign} :
    Sign.read s = some (t, rest) ↔ s = t.spell ++ rest := by
  apply Iff.intro
  · intro h
    unfold Sign.read at h
    split at h
    all_goals cases h
    all_goals rfl
  · intro h
    subst h
    cases t
    all_goals rfl

def orthography : Orthography lexicon where
  Gap g _ := ∀ c ∈ g, Space.isSpace c = true
  sign := Sign.spell
  skip_gap hg := List.dropWhile_append_of_pos hg
  exists_gap s := ⟨s.takeWhile Space.isSpace, List.takeWhile_append_dropWhile.symm,
    List.all_eq_true.1 List.all_takeWhile⟩
  skip_begins cs h := Space.skip_cons (Space.isSpace_of_begins h) cs
  skip_sign t rest := by
    cases t
    all_goals rfl
  head_sign t := by
    cases t
    all_goals exact ⟨_, _, rfl, by decide⟩
  readSign_iff := Sign.read_eq_some_iff

theorem isChain_append_cons {ts us : List (Token Sign)} {t : Token Sign}
    (hts : ts.IsChain Token.Apart) (ht : ∀ n, t ≠ .numeral n) (hus : us.IsChain Token.Apart) :
    (ts ++ t :: us).IsChain Token.Apart := by
  have hleft : ∀ u, Token.Apart t u := fun u ⟨⟨n, hn⟩, _⟩ => ht n hn
  have hright : ∀ u, Token.Apart u t := fun u ⟨_, n, hn⟩ => ht n hn
  apply List.isChain_append.2
  refine ⟨hts, ?_, ?_⟩
  · cases us with
    | nil => exact List.isChain_singleton t
    | cons u us => exact List.isChain_cons_cons.2 ⟨hleft u, hus⟩
  · intro u _ v hv
    cases hv
    exact hright u

theorem IsOperator.isChain_append {ts os us : List (Token Sign)} {op : Comparison}
    (h : IsOperator os op) (hts : ts.IsChain Token.Apart) (hus : us.IsChain Token.Apart) :
    (ts ++ (os ++ us)).IsChain Token.Apart := by
  cases h with
  | equal => exact isChain_append_cons hts nofun hus
  | notEqual => exact isChain_append_cons hts nofun hus
  | member => exact isChain_append_cons hts nofun hus
  | notMember => exact isChain_append_cons hts nofun (isChain_append_cons .nil nofun hus)

mutual

/-- No numeral stands right behind another one. -/
theorem IsOr.isChain {ts : List (Token Sign)} {c : Condition} (h : IsOr ts c) :
    ts.IsChain Token.Apart := by
  cases h with
  | single h => exact h.isChain
  | or ha hb => exact isChain_append_cons ha.isChain nofun hb.isChain
termination_by 8 * ts.length + 5

theorem IsAnd.isChain {ts : List (Token Sign)} {c : Condition} (h : IsAnd ts c) :
    ts.IsChain Token.Apart := by
  cases h with
  | single h => exact h.isChain
  | and ha hb => exact isChain_append_cons ha.isChain nofun hb.isChain
termination_by 8 * ts.length + 4

theorem IsNot.isChain {ts : List (Token Sign)} {c : Condition} (h : IsNot ts c) :
    ts.IsChain Token.Apart := by
  cases h with
  | not h => exact isChain_append_cons .nil nofun h.isChain
  | compare h => exact h.isChain
termination_by 8 * ts.length + 3

theorem IsCompare.isChain {ts : List (Token Sign)} {c : Condition} (h : IsCompare ts c) :
    ts.IsChain Token.Apart := by
  cases h with
  | single h => exact h.isChain
  | compare ha ho hb => exact ho.isChain_append ha.isChain hb.isChain
termination_by 8 * ts.length + 2

theorem IsOperand.isChain {ts : List (Token Sign)} {c : Condition} (h : IsOperand ts c) :
    ts.IsChain Token.Apart := by
  cases h with
  | list h => exact isChain_append_cons .nil nofun (isChain_append_cons h.isChain nofun .nil)
  | group h => exact isChain_append_cons .nil nofun (isChain_append_cons h.isChain nofun .nil)
  | _ => exact List.isChain_singleton _
termination_by 8 * ts.length + 1

theorem IsItems.isChain {ts : List (Token Sign)} {cs : List Condition} (h : IsItems ts cs) :
    ts.IsChain Token.Apart := by
  cases h with
  | nil => exact .nil
  | last h => exact h.isChain
  | cons h hs => exact isChain_append_cons h.isChain nofun hs.isChain
termination_by 8 * ts.length + 6

end

/-- Holds of the conditions that a text denotes by the grammar. -/
def Denotes (s : String) (c : Condition) : Prop :=
  ∃ ts, orthography.Splits s.toList ts ∧ IsOr ts c

theorem ofText?_eq_some_iff {s : String} {c : Condition} : ofText? s = some c ↔ Denotes s c := by
  rw [ofText?]
  apply Iff.intro
  · intro h
    obtain ⟨ts, hts, h⟩ := Option.bind_eq_some_iff.1 h
    exact ⟨ts, orthography.splits_of_tokens hts, readOr_complete?_eq_some_iff.1 h⟩
  · intro h
    obtain ⟨ts, hts, hc⟩ := h
    rw [Orthography.tokens_of_splits hts hc.isChain]
    exact readOr_complete?_eq_some_iff.2 hc

theorem parse_eq_ok_iff {s : String} {c : Condition} : parse s = .ok c ↔ Denotes s c := by
  rw [← ofText?_eq_some_iff, parse]
  cases ofText? s with
  | none => exact ⟨nofun, nofun⟩
  | some a =>
    rw [Option.some.injEq]
    exact ⟨Except.ok.inj, congrArg Except.ok⟩

theorem denotes_word {cs : List Char} {c : Condition} (hw : Word.IsWord cs)
    (h : IsOperand [.word (String.ofList cs)] c) : Denotes (String.ofList cs) c := by
  have hspell : Spelling Sign.spell (.word (String.ofList cs)) cs [] := .word hw nofun
  have hend : orthography.Splits [] [] := .nil nofun
  have hsplit : orthography.Splits ([] ++ (cs ++ [])) [.word (String.ofList cs)] :=
    .cons nofun hspell hend
  rw [List.nil_append, List.append_nil] at hsplit
  refine ⟨[.word (String.ofList cs)], ?_, .single (.single (.compare (.single h)))⟩
  rwa [String.toList_ofList]

/-- A text is read as the condition that it denotes by the grammar, and refused if it denotes
none. -/
theorem parse_iff_denotes (s : String) :
    (∀ c, parse s = .ok c ↔ Denotes s c) ∧
      ((¬∃ c, Denotes s c) → parse s = .error (.notCondition s)) := by
  apply And.intro
  · exact fun c => parse_eq_ok_iff
  · intro hno
    have hnone : ofText? s = none := by
      rw [Option.eq_none_iff_forall_ne_some]
      intro c hc
      exact hno ⟨c, ofText?_eq_some_iff.1 hc⟩
    rw [parse, hnone]
    rfl

example : parse "1in[1,]" = .ok (.compare (.integer 1) .member (.list [.integer 1])) := by
  cbv

end Condition

end BuildDesc
