import BuildDesc.Text.Numeral
import BuildDesc.Text.Quoted

namespace BuildDesc

namespace Word

def IsWord (s : List Char) : Prop :=
  ∃ c cs, s = c :: cs ∧ isHead c = true ∧ ∀ d ∈ cs, isTail d = true

variable {s rest : List Char} {w : String}

theorem isWord_cons_iff {c : Char} : IsWord (c :: s) ↔ isHead c = true ∧ s.all isTail = true := by
  rw [List.all_eq_true]
  constructor
  · rintro ⟨c, cs, h, hc, hs⟩
    cases h
    exact ⟨hc, hs⟩
  · rintro ⟨hc, hs⟩
    exact ⟨c, s, rfl, hc, hs⟩

instance : DecidablePred IsWord
  | [] => isFalse fun ⟨_, _, h, _⟩ => nomatch h
  | c :: s => decidable_of_iff (isHead c = true ∧ s.all isTail = true) isWord_cons_iff.symm

theorem toNat_of_isHead {c : Char} (h : isHead c = true) :
    (65 ≤ c.toNat ∧ c.toNat ≤ 90) ∨ (97 ≤ c.toNat ∧ c.toNat ≤ 122) ∨ c = '_' := by
  rw [isHead, Bool.or_eq_true, beq_iff_eq] at h
  rcases h with h | h
  · have hcases : c.isUpper = true ∨ c.isLower = true := Bool.or_eq_true_iff.1 h
    rcases hcases with h | h
    · have hbounds : 65 ≤ c.val ∧ c.val ≤ 90 := of_decide_eq_true h
      exact .inl hbounds
    · have hbounds : decide (97 ≤ c.val) = true ∧ decide (c.val ≤ 122) = true :=
        Bool.and_eq_true_iff.1 h
      exact .inr (.inl ⟨of_decide_eq_true hbounds.1, of_decide_eq_true hbounds.2⟩)
  · exact .inr (.inr h)

theorem isDigit_eq_false {c : Char} (h : isHead c = true) : c.isDigit = false := by
  rw [Bool.eq_false_iff]
  intro hd
  have hdigit : 48 ≤ c.toNat ∧ c.toNat ≤ 57 := Char.isDigit_iff_toNat.1 hd
  rcases toNat_of_isHead h with h | h | rfl
  · omega
  · omega
  · cases hd

theorem head?_dropWhile (p : Char → Bool) (s : List Char) :
    ∀ c ∈ (s.dropWhile p).head?, p c = false := by
  intro c hc
  have h := List.head?_dropWhile_not p s
  rw [Option.mem_def.1 hc] at h
  simpa using h

theorem takeWhile_append_eq {p : Char → Bool} (hs : ∀ c ∈ s, p c = true)
    (hr : ∀ c ∈ rest.head?, p c = false) :
    (s ++ rest).takeWhile p = s ∧ (s ++ rest).dropWhile p = rest := by
  rw [List.takeWhile_append_of_pos hs, List.dropWhile_append_of_pos hs]
  cases rest with
  | nil => exact ⟨List.append_nil s, rfl⟩
  | cons c cs =>
    have hc : p c = false := hr c rfl
    rw [List.takeWhile_cons_of_neg (Bool.eq_false_iff.1 hc),
      List.dropWhile_cons_of_neg (Bool.eq_false_iff.1 hc)]
    exact ⟨List.append_nil s, rfl⟩

theorem read_eq_some_iff :
    read s = some (w, rest) ↔
      ∃ cs, IsWord cs ∧ w = String.ofList cs ∧ s = cs ++ rest ∧
        ∀ c ∈ rest.head?, isTail c = false := by
  apply Iff.intro
  · intro h
    cases s with
    | nil => cases h
    | cons c cs =>
      rw [read] at h
      by_cases hc : isHead c = true
      · rw [if_pos hc] at h
        cases h
        refine ⟨c :: cs.takeWhile isTail, ⟨c, _, rfl, hc, ?_⟩, rfl, ?_, head?_dropWhile isTail cs⟩
        · exact List.all_eq_true.1 List.all_takeWhile
        · rw [List.cons_append, List.takeWhile_append_dropWhile]
      · rw [if_neg hc] at h
        cases h
  · intro h
    obtain ⟨cs, ⟨c, ds, rfl, hc, hds⟩, rfl, rfl, hr⟩ := h
    obtain ⟨htake, hdrop⟩ := takeWhile_append_eq hds hr
    rw [List.cons_append, read, if_pos hc, htake, hdrop]

theorem read_eq_none {c : Char} (h : isHead c = false) (s : List Char) : read (c :: s) = none := by
  rw [read, h]
  rfl

end Word

namespace Quoted

theorem isQuote_eq {q : Char} (h : isQuote q = true) : q = '\'' ∨ q = '"' := by
  rwa [isQuote, Bool.or_eq_true, beq_iff_eq, beq_iff_eq] at h

theorem ne_backslash {q : Char} (h : isQuote q = true) : q ≠ '\\' := by
  rcases isQuote_eq h with rfl | rfl <;> decide

theorem ne_lineFeed {q : Char} (h : isQuote q = true) : q ≠ '\n' := by
  rcases isQuote_eq h with rfl | rfl <;> decide

end Quoted

namespace Numeral

/-- Holds of the digits of natural numbers, without a leading zero. -/
def IsDigits (ds : List Char) : Prop :=
  ds = ['0'] ∨ ∃ c cs, ds = c :: cs ∧ c ≠ '0' ∧ ∀ d ∈ ds, d.isDigit = true

/-- The spellings of an integer: digits, with a minus sign directly before them if it is to be
subtracted from zero. -/
inductive Spells (n : Int64) : List Char → Prop
  | plain {ds : List Char} (hd : IsDigits ds) (hn : n.toInt = Nat.ofDigitChars 10 ds 0) :
    Spells n ds
  | minus {ds : List Char} (hd : IsDigits ds) (hn : n.toInt = -Nat.ofDigitChars 10 ds 0) :
    Spells n ('-' :: ds)

variable {s ds rest : List Char} {n : Int64}

theorem IsDigits.head (h : IsDigits ds) : ∃ c cs, ds = c :: cs ∧ c.isDigit = true := by
  rcases h with rfl | ⟨c, cs, rfl, -, hall⟩
  · exact ⟨'0', [], rfl, rfl⟩
  · exact ⟨c, cs, rfl, hall c List.mem_cons_self⟩

theorem Spells.head (h : Spells n ds) :
    ∃ c cs, ds = c :: cs ∧ Word.isHead c = false ∧ Quoted.isQuote c = false := by
  cases h with
  | plain hd =>
    obtain ⟨c, cs, rfl, hc⟩ := hd.head
    refine ⟨c, cs, rfl, ?_, ?_⟩
    · rw [Bool.eq_false_iff]
      intro hh
      rw [Word.isDigit_eq_false hh] at hc
      cases hc
    · rw [Bool.eq_false_iff]
      intro hq
      rcases Quoted.isQuote_eq hq with rfl | rfl <;> cases hc
  | @minus ds => exact ⟨'-', ds, rfl, rfl, rfl⟩

theorem isDigits_of_readDigits (h : readDigits s = some (ds, rest)) :
    IsDigits ds ∧ s = ds ++ rest := by
  cases s with
  | nil => cases h
  | cons c cs =>
    rw [readDigits] at h
    by_cases h0 : c = '0'
    · rw [if_pos h0] at h
      cases h
      exact ⟨.inl rfl, by rw [h0]; rfl⟩
    · rw [if_neg h0] at h
      by_cases hc : c.isDigit = true
      · rw [if_pos hc] at h
        cases h
        refine ⟨.inr ⟨c, _, rfl, h0, ?_⟩, ?_⟩
        · rw [List.forall_mem_cons]
          exact ⟨hc, List.all_eq_true.1 List.all_takeWhile⟩
        · rw [List.cons_append, List.takeWhile_append_dropWhile]
      · rw [if_neg hc] at h
        cases h

theorem readDigits_append (h : IsDigits ds) (hr : ∀ c ∈ rest.head?, c.isDigit = false) :
    readDigits (ds ++ rest) = some (ds, rest) := by
  rcases h with rfl | ⟨c, cs, rfl, h0, hall⟩
  · rfl
  · rw [List.forall_mem_cons] at hall
    obtain ⟨htake, hdrop⟩ := Word.takeWhile_append_eq hall.2 hr
    rw [List.cons_append, readDigits, if_neg h0, if_pos hall.1, htake, hdrop]

theorem int64?_eq_some_iff {k : Int} : int64? k = some n ↔ n.toInt = k := by
  rw [int64?]
  apply Iff.intro
  · intro h
    by_cases hk : Int64.minValue.toInt ≤ k ∧ k ≤ Int64.maxValue.toInt
    · rw [if_pos hk] at h
      cases h
      have hlt : k < 2 ^ 63 := by
        rw [← Int64.toInt_maxValue_add_one]
        exact Int.lt_add_one_of_le hk.2
      exact Int64.toInt_ofInt_of_le hk.1 hlt
    · rw [if_neg hk] at h
      cases h
  · intro h
    subst h
    rw [if_pos ⟨n.minValue_le_toInt, n.toInt_le⟩, Int64.ofInt_toInt]

theorem readScaled_eq_some_iff {sign : Int} :
    readScaled sign s = some (n, rest) ↔
      ∃ ds, readDigits s = some (ds, rest) ∧ n.toInt = sign * Nat.ofDigitChars 10 ds 0 := by
  rw [readScaled, Option.bind_eq_some_iff]
  apply Iff.intro
  · intro h
    obtain ⟨⟨ds, r⟩, hd, h⟩ := h
    obtain ⟨m, hm, h⟩ := Option.map_eq_some_iff.1 h
    cases h
    exact ⟨ds, hd, int64?_eq_some_iff.1 hm⟩
  · intro h
    obtain ⟨ds, hd, hn⟩ := h
    exact ⟨(ds, rest), hd, Option.map_eq_some_iff.2 ⟨n, int64?_eq_some_iff.2 hn, rfl⟩⟩

theorem read_of_ne {c : Char} {cs : List Char} (h : c ≠ '-') :
    read (c :: cs) = readScaled 1 (c :: cs) := by
  rw [read]
  intro ds hds
  exact h (List.cons.inj hds).1

theorem spells_of_read (h : read s = some (n, rest)) : ∃ ds, Spells n ds ∧ s = ds ++ rest := by
  cases s with
  | nil => cases h
  | cons c cs =>
    by_cases hc : c = '-'
    · subst hc
      obtain ⟨ds, hr, hn⟩ := readScaled_eq_some_iff.1 h
      obtain ⟨hd, rfl⟩ := isDigits_of_readDigits hr
      rw [Int.neg_one_mul] at hn
      exact ⟨'-' :: ds, .minus hd hn, rfl⟩
    · rw [read_of_ne hc] at h
      obtain ⟨ds, hr, hn⟩ := readScaled_eq_some_iff.1 h
      obtain ⟨hd, hs⟩ := isDigits_of_readDigits hr
      rw [Int.one_mul] at hn
      exact ⟨ds, .plain hd hn, hs⟩

theorem read_append (h : Spells n ds) (hr : ∀ c ∈ rest.head?, c.isDigit = false) :
    read (ds ++ rest) = some (n, rest) := by
  cases h with
  | plain hd hn =>
    obtain ⟨c, cs, rfl, hc⟩ := hd.head
    have hne : c ≠ '-' := by
      intro h
      subst h
      cases hc
    rw [List.cons_append, read_of_ne hne, ← List.cons_append]
    refine readScaled_eq_some_iff.2 ⟨_, readDigits_append hd hr, ?_⟩
    rw [hn, Int.one_mul]
  | minus hd hn =>
    refine readScaled_eq_some_iff.2 ⟨_, readDigits_append hd hr, ?_⟩
    rw [hn, Int.neg_one_mul]

theorem read_eq_none {c : Char} (hd : c.isDigit = false) (hm : c ≠ '-') (s : List Char) :
    read (c :: s) = none := by
  have h0 : c ≠ '0' := by
    intro h
    subst h
    cases hd
  rw [read_of_ne hm, readScaled, readDigits, if_neg h0, hd]
  rfl

end Numeral

namespace Quoted

/-- The ways to write a text between two quotes `q`, with a backslash and what follows it for what
they stand for. -/
inductive Writes (q : Char) : List Char → List Char → Prop
  | nil : Writes q [] []
  | plain {c : Char} {raw body : List Char} (hb : c ≠ '\\') (hq : c ≠ q) (h : Writes q raw body) :
    Writes q (c :: raw) (c :: body)
  | escape {c : Char} {raw body : List Char} (hc : c = '\r' → raw.head? ≠ some '\n')
    (h : Writes q raw body) : Writes q ('\\' :: c :: raw) (unescape c ++ body)
  | join {raw body : List Char} (h : Writes q raw body) :
    Writes q ('\\' :: '\r' :: '\n' :: raw) body

variable {q : Char} {s raw body rest : List Char} {t : String}

theorem readBody_cons {c : Char} (hb : c ≠ '\\') (s : List Char) :
    readBody q (c :: s) =
      if c = q then some ([], s)
      else (readBody q s).map fun (body, rest) => (c :: body, rest) := by
  rw [readBody]
  · exact fun h => absurd h hb
  · exact fun _ h => absurd h hb
  · exact fun _ _ h => absurd h hb

theorem readBody_escape {c : Char} (hc : c = '\r' → s.head? ≠ some '\n') :
    readBody q ('\\' :: c :: s) =
      (readBody q s).map fun (body, rest) => (unescape c ++ body, rest) := by
  rw [readBody]
  rintro cs rfl rfl
  exact hc rfl rfl

/-- Only a backslash is read together with what comes behind it. -/
theorem ne_backslash_of_plain {c : Char} (hnil : c = '\\' → s = [] → False)
    (hcons : ∀ d ds, c = '\\' → s = d :: ds → False) : c ≠ '\\' := by
  intro hb
  cases s with
  | nil => exact hnil hb rfl
  | cons d ds => exact hcons d ds hb rfl

theorem readBody_join (s : List Char) : readBody q ('\\' :: '\r' :: '\n' :: s) = readBody q s := by
  rw [readBody]

theorem writes_of_readBody (h : readBody q s = some (body, rest)) :
    ∃ raw, Writes q raw body ∧ s = raw ++ q :: rest := by
  fun_induction readBody q s generalizing body with
  | case1 => cases h
  | case2 => cases h
  | case3 cs ih =>
    obtain ⟨raw, hw, rfl⟩ := ih h
    exact ⟨_, .join hw, rfl⟩
  | case4 c cs hne ih =>
    obtain ⟨⟨b, r⟩, hr, he⟩ := Option.map_eq_some_iff.1 h
    cases he
    obtain ⟨raw, hw, rfl⟩ := ih hr
    refine ⟨_, .escape ?_ hw, rfl⟩
    intro hc hn
    obtain ⟨ys, rfl⟩ := List.head?_eq_some_iff.1 hn
    exact hne _ hc rfl
  | case5 cs =>
    cases h
    exact ⟨[], .nil, rfl⟩
  | case6 c cs hnil _ hcons hq ih =>
    obtain ⟨⟨b, r⟩, hr, he⟩ := Option.map_eq_some_iff.1 h
    cases he
    obtain ⟨raw, hw, rfl⟩ := ih hr
    exact ⟨_, .plain (ne_backslash_of_plain hnil hcons) hq hw, rfl⟩

theorem readBody_append (hq : isQuote q = true) (h : Writes q raw body) (rest : List Char) :
    readBody q (raw ++ q :: rest) = some (body, rest) := by
  induction h with
  | nil => rw [List.nil_append, readBody_cons (ne_backslash hq), if_pos rfl]
  | plain hb hq _ ih =>
    rw [List.cons_append, readBody_cons hb, if_neg hq, ih]
    rfl
  | @escape c raw body hc _ ih =>
    have hc' : c = '\r' → (raw ++ q :: rest).head? ≠ some '\n' := by
      intro hr hhead
      cases raw with
      | nil => exact ne_lineFeed hq (Option.some.inj hhead)
      | cons d raw => exact hc hr hhead
    rw [List.cons_append, List.cons_append, readBody_escape hc', ih]
    rfl
  | join _ ih => rw [List.cons_append, List.cons_append, List.cons_append, readBody_join, ih]

theorem read_eq_some_iff :
    read s = some (t, rest) ↔
      ∃ q raw body, isQuote q = true ∧ Writes q raw body ∧ t = String.ofList body ∧
        s = q :: raw ++ q :: rest := by
  apply Iff.intro
  · intro h
    cases s with
    | nil => cases h
    | cons q cs =>
      rw [read] at h
      by_cases hq : isQuote q = true
      · rw [if_pos hq] at h
        obtain ⟨⟨body, r⟩, hr, he⟩ := Option.map_eq_some_iff.1 h
        cases he
        obtain ⟨raw, hw, rfl⟩ := writes_of_readBody hr
        exact ⟨q, raw, body, hq, hw, rfl, rfl⟩
      · rw [if_neg hq] at h
        cases h
  · intro h
    obtain ⟨q, raw, body, hq, hw, rfl, rfl⟩ := h
    rw [List.cons_append, read, if_pos hq, readBody_append hq hw]
    rfl

theorem read_eq_none {c : Char} (h : isQuote c = false) (s : List Char) : read (c :: s) = none := by
  rw [read, h]
  rfl

end Quoted

end BuildDesc
