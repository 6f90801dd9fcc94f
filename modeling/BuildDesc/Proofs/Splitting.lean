import BuildDesc.Proofs.Spelling
import BuildDesc.Token
import Mathlib.Data.List.Chain

namespace BuildDesc

variable {σ : Type}

def Token.begins (c : Char) : Bool :=
  Word.isHead c || Quoted.isQuote c || c.isDigit || c == '-'

/-- Holds of two tokens of which one at least is no numeral. -/
def Token.Apart (t u : Token σ) : Prop :=
  ¬((∃ m, t = .numeral m) ∧ ∃ n, u = .numeral n)

namespace Lexicon

variable {L : Lexicon σ} {s rest : List Char} {t : Token σ}

theorem skip_nil (L : Lexicon σ) : L.skip [] = [] :=
  List.eq_nil_of_length_eq_zero (Nat.le_zero.1 (L.length_skip_le []))

theorem tokens_of_skip_eq_nil (h : L.skip s = []) : L.tokens s = some [] := by
  rw [tokens]
  split
  · rfl
  · next h' =>
    rw [h] at h'
    cases h'

theorem tokens_of_readToken (h : L.readToken (L.skip s) = some (t, rest)) (hne : L.skip s ≠ []) :
    L.tokens s = (L.tokens rest).map (t :: ·) := by
  rw [tokens]
  split
  · next h' => exact absurd h' hne
  · next h' =>
    rw [h'] at h
    split
    · next hr =>
      rw [h] at hr
      cases hr
    · next hr =>
      rw [h] at hr
      cases hr
      rfl

theorem tokens_of_readToken_eq_none (h : L.readToken (L.skip s) = none) (hne : L.skip s ≠ []) :
    L.tokens s = none := by
  rw [tokens]
  split
  · next h' => exact absurd h' hne
  · next h' =>
    rw [h'] at h
    split
    · rfl
    · next hr =>
      rw [h] at hr
      cases hr

theorem tokens_eq_of_skip_eq {u : List Char} (h : L.skip s = L.skip u) :
    L.tokens s = L.tokens u := by
  by_cases hnil : L.skip u = []
  · rw [tokens_of_skip_eq_nil hnil, tokens_of_skip_eq_nil (h.trans hnil)]
  · have hnil' : L.skip s ≠ [] := by rwa [h]
    cases hr : L.readToken (L.skip u) with
    | none =>
      rw [tokens_of_readToken_eq_none hr hnil, tokens_of_readToken_eq_none (h ▸ hr) hnil']
    | some r => rw [tokens_of_readToken hr hnil, tokens_of_readToken (h ▸ hr) hnil']

end Lexicon

/-- How the texts of a lexicon are written: what may stand before a text as a gap, and how the signs
are spelled. -/
structure Orthography (L : Lexicon σ) where
  Gap : List Char → List Char → Prop
  sign : σ → List Char
  skip_gap : ∀ {g rest}, Gap g rest → L.skip (g ++ rest) = L.skip rest
  exists_gap : ∀ s, ∃ g, s = g ++ L.skip s ∧ Gap g (L.skip s)
  skip_begins : ∀ {c} cs, Token.begins c = true → L.skip (c :: cs) = c :: cs
  skip_sign : ∀ t rest, L.skip (sign t ++ rest) = sign t ++ rest
  head_sign : ∀ t, ∃ c cs, sign t = c :: cs ∧ Token.begins c = false
  readSign_iff : ∀ {s t rest}, L.readSign s = some (t, rest) ↔ s = sign t ++ rest

/-- The spellings of a token in front of a text. A word takes all characters that could continue
it. -/
inductive Spelling (sign : σ → List Char) : Token σ → List Char → List Char → Prop
  | word {cs rest : List Char} (hw : Word.IsWord cs)
    (hr : ∀ c ∈ rest.head?, Word.isTail c = false) :
    Spelling sign (.word (String.ofList cs)) cs rest
  | quoted {q : Char} {raw body rest : List Char} (hq : Quoted.isQuote q = true)
    (hw : Quoted.Writes q raw body) :
    Spelling sign (.quoted (String.ofList body)) (q :: raw ++ [q]) rest
  | numeral {n : Int64} {ds rest : List Char} (hn : Numeral.Spells n ds) :
    Spelling sign (.numeral n) ds rest
  | sign (t : σ) (rest : List Char) : Spelling sign (.sign t) (sign t) rest

namespace Orthography

variable {L : Lexicon σ} (O : Orthography L)

/-- The ways to split a text into tokens and the gaps around them. -/
inductive Splits : List Char → List (Token σ) → Prop
  | nil {g : List Char} (hg : O.Gap g []) : Splits g []
  | cons {g s rest : List Char} {t : Token σ} {ts : List (Token σ)} (hg : O.Gap g (s ++ rest))
    (hs : Spelling O.sign t s rest) (h : Splits rest ts) : Splits (g ++ (s ++ rest)) (t :: ts)

variable {O} {s rest g : List Char} {t : Token σ} {ts : List (Token σ)}

theorem spelling_begins (h : Spelling O.sign t s rest) :
    (∃ u, t = .sign u ∧ s = O.sign u) ∨
      ∃ c cs, s = c :: cs ∧ Token.begins c = true ∧
        ((∃ n, t = .numeral n) ∨ c.isDigit = false) := by
  cases h with
  | word hw hr =>
    obtain ⟨c, cs, rfl, hc, -⟩ := hw
    exact .inr ⟨c, cs, rfl, by simp [Token.begins, hc], .inr (Word.isDigit_eq_false hc)⟩
  | quoted hq hw =>
    refine .inr ⟨_, _, rfl, by simp [Token.begins, hq], .inr ?_⟩
    rcases Quoted.isQuote_eq hq with rfl | rfl <;> rfl
  | @numeral n ds _ hn =>
    cases hn with
    | plain hd =>
      obtain ⟨c, cs, rfl, hc⟩ := hd.head
      exact .inr ⟨c, cs, rfl, by simp [Token.begins, hc], .inl ⟨n, rfl⟩⟩
    | minus => exact .inr ⟨'-', _, rfl, rfl, .inl ⟨n, rfl⟩⟩
  | sign u => exact .inl ⟨u, rfl, rfl⟩

theorem spelling_ne_nil (h : Spelling O.sign t s rest) : s ≠ [] := by
  rcases spelling_begins h with ⟨u, -, rfl⟩ | ⟨c, cs, rfl, -, -⟩
  · obtain ⟨c, cs, hu, -⟩ := O.head_sign u
    rw [hu]
    exact List.cons_ne_nil c cs
  · exact List.cons_ne_nil c cs

theorem skip_spelling (h : Spelling O.sign t s rest) : L.skip (s ++ rest) = s ++ rest := by
  rcases spelling_begins h with ⟨u, -, rfl⟩ | ⟨c, cs, rfl, hc, -⟩
  · exact O.skip_sign u rest
  · exact O.skip_begins _ hc

theorem readToken_spelling (h : Spelling O.sign t s rest)
    (hn : (∃ n, t = .numeral n) → ∀ c ∈ rest.head?, c.isDigit = false) :
    L.readToken (s ++ rest) = some (t, rest) := by
  rw [Lexicon.readToken]
  cases h with
  | word hw hr => rw [Word.read_eq_some_iff.2 ⟨s, hw, rfl, rfl, hr⟩]
  | @quoted q raw body _ hq hw =>
    have hword : Word.isHead q = false := by
      rcases Quoted.isQuote_eq hq with rfl | rfl <;> rfl
    have hread : Quoted.read (q :: raw ++ [q] ++ rest) = some (String.ofList body, rest) := by
      rw [List.append_assoc]
      exact Quoted.read_eq_some_iff.2 ⟨q, raw, body, hq, hw, rfl, rfl⟩
    rw [hread, List.cons_append, List.cons_append, Word.read_eq_none hword]
  | numeral hs =>
    have hread := Numeral.read_append hs (hn ⟨_, rfl⟩)
    obtain ⟨c, cs, rfl, hword, hquote⟩ := hs.head
    rw [hread, List.cons_append, Word.read_eq_none hword, Quoted.read_eq_none hquote]
  | sign u =>
    have hread := O.readSign_iff.2 (rfl : O.sign u ++ rest = O.sign u ++ rest)
    obtain ⟨c, cs, hu, hc⟩ := O.head_sign u
    simp only [Token.begins, Bool.or_eq_false_iff, beq_eq_false_iff_ne] at hc
    rw [hread, hu, List.cons_append, Word.read_eq_none hc.1.1.1, Quoted.read_eq_none hc.1.1.2,
      Numeral.read_eq_none hc.1.2 hc.2]
    rfl

theorem Splits.exists_numeral {c : Char} (h : O.Splits s ts) (hc : c ∈ s.head?)
    (hd : c.isDigit = true) : ∃ n us, ts = .numeral n :: us := by
  have hb : Token.begins c = true := by simp [Token.begins, hd]
  cases h with
  | nil hg =>
    obtain ⟨cs, rfl⟩ := List.head?_eq_some_iff.1 hc
    have hskip := O.skip_gap hg
    rw [List.append_nil, O.skip_begins cs hb, L.skip_nil] at hskip
    cases hskip
  | @cons g s rest t ts hg hs =>
    have hnil : g = [] := by
      cases g with
      | nil => rfl
      | cons d g =>
        -- the gap would have to be skipped and kept
        cases hc
        have hskip := O.skip_gap hg
        rw [List.cons_append, O.skip_begins _ hb, skip_spelling hs] at hskip
        have hlen := congrArg List.length hskip
        simp only [List.length_cons, List.length_append] at hlen
        omega
    subst hnil
    rcases spelling_begins hs with ⟨u, -, rfl⟩ | ⟨d, cs, rfl, -, ⟨n, rfl⟩ | hdigit⟩
    · obtain ⟨d, cs, hu, hsign⟩ := O.head_sign u
      rw [List.nil_append, hu] at hc
      cases hc
      rw [hb] at hsign
      cases hsign
    · exact ⟨n, ts, rfl⟩
    · cases hc
      rw [hd] at hdigit
      cases hdigit

theorem tokens_spelling (h : Spelling O.sign t s rest)
    (hn : (∃ n, t = .numeral n) → ∀ c ∈ rest.head?, c.isDigit = false) :
    L.tokens (s ++ rest) = (L.tokens rest).map (t :: ·) := by
  have hskip := skip_spelling h
  have hread := readToken_spelling h hn
  have hne : s ++ rest ≠ [] := by
    intro hnil
    exact spelling_ne_nil h (List.append_eq_nil_iff.1 hnil).1
  rw [← hskip] at hread hne
  exact Lexicon.tokens_of_readToken hread hne

theorem tokens_of_splits (h : O.Splits s ts) (hc : ts.IsChain Token.Apart) :
    L.tokens s = some ts := by
  induction h with
  | @nil g hg =>
    apply Lexicon.tokens_of_skip_eq_nil
    have hskip := O.skip_gap hg
    rwa [List.append_nil, L.skip_nil] at hskip
  | @cons g s rest t ts hg hs hrest ih =>
    have hn : (∃ n, t = .numeral n) → ∀ c ∈ rest.head?, c.isDigit = false := by
      intro ht c hhead
      rw [Bool.eq_false_iff]
      intro hd
      obtain ⟨n, us, rfl⟩ := hrest.exists_numeral hhead hd
      exact (List.isChain_cons_cons.1 hc).1 ⟨ht, n, rfl⟩
    rw [Lexicon.tokens_eq_of_skip_eq (O.skip_gap hg), tokens_spelling hs hn, ih hc.tail]
    rfl

theorem spelling_of_readToken (O : Orthography L) (h : L.readToken s = some (t, rest)) :
    ∃ cs, s = cs ++ rest ∧ Spelling O.sign t cs rest := by
  rw [Lexicon.readToken] at h
  split at h
  · next hr =>
    cases h
    obtain ⟨cs, hw, rfl, rfl, hrest⟩ := Word.read_eq_some_iff.1 hr
    exact ⟨cs, rfl, .word hw hrest⟩
  · split at h
    · next hr =>
      cases h
      obtain ⟨q, raw, body, hq, hw, rfl, rfl⟩ := Quoted.read_eq_some_iff.1 hr
      exact ⟨q :: raw ++ [q], by simp, .quoted hq hw⟩
    · split at h
      · next hr =>
        cases h
        obtain ⟨ds, hs, rfl⟩ := Numeral.spells_of_read hr
        exact ⟨ds, rfl, .numeral hs⟩
      · obtain ⟨⟨u, r⟩, hr, he⟩ := Option.map_eq_some_iff.1 h
        cases he
        exact ⟨O.sign u, O.readSign_iff.1 hr, .sign u _⟩

theorem splits_of_tokens (O : Orthography L) (h : L.tokens s = some ts) : O.Splits s ts := by
  induction hl : s.length using Nat.strong_induction_on generalizing s ts with
  | _ n ih =>
    obtain ⟨g, hs, hg⟩ := O.exists_gap s
    cases hk : L.skip s with
    | nil =>
      rw [Lexicon.tokens_of_skip_eq_nil hk] at h
      cases h
      rw [hk] at hs hg
      rw [List.append_nil] at hs
      exact hs ▸ .nil hg
    | cons c cs =>
      have hne : L.skip s ≠ [] := by
        rw [hk]
        exact List.cons_ne_nil c cs
      cases hr : L.readToken (L.skip s) with
      | none =>
        rw [Lexicon.tokens_of_readToken_eq_none hr hne] at h
        cases h
      | some r =>
        obtain ⟨t, rest⟩ := r
        rw [Lexicon.tokens_of_readToken hr hne] at h
        obtain ⟨us, hus, rfl⟩ := Option.map_eq_some_iff.1 h
        have hlt := Nat.lt_of_lt_of_le (L.length_lt_of_readToken hr) (L.length_skip_le s)
        obtain ⟨u, hu, hspell⟩ := spelling_of_readToken O hr
        rw [hu] at hs hg
        rw [hs]
        exact .cons hg hspell (ih _ (hl ▸ hlt) hus rfl)

end Orthography

end BuildDesc
