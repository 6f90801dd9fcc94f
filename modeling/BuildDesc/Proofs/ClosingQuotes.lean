import BuildDesc.Proofs.Literals
import Mathlib.Algebra.Group.Nat.Even

namespace BuildDesc.Quoted

/-- How many backslashes there are in a row at the end of a text. -/
def backslashes (raw : List Char) : Nat :=
  (raw.reverse.takeWhile (· == '\\')).length

def Unclosed (q : Char) (s : List Char) : Prop :=
  ∀ before after, s = before ++ q :: after → ¬Even (backslashes before)

/-- Holds of what stands between an opening quote `q` and the first quote that closes it. -/
structure IsBody (q : Char) (raw : List Char) : Prop where
  even : Even (backslashes raw)
  unclosed : Unclosed q raw

def decode : List Char → List Char
  | [] => []
  | '\\' :: '\\' :: cs => '\\' :: decode cs
  | '\\' :: '\'' :: cs => '\'' :: decode cs
  | '\\' :: '"' :: cs => '"' :: decode cs
  | '\\' :: 'n' :: cs => '\n' :: decode cs
  | '\\' :: 't' :: cs => '\t' :: decode cs
  | '\\' :: 'r' :: cs => '\r' :: decode cs
  | '\\' :: '\n' :: cs => decode cs
  | '\\' :: '\r' :: '\n' :: cs => decode cs
  | '\\' :: c :: cs => '\\' :: c :: decode cs
  | c :: cs => c :: decode cs

variable {q c : Char} {s raw raw' body rest rest' : List Char} {t : String}

section Backslashes

theorem backslashes_le (raw : List Char) : backslashes raw ≤ raw.length := by
  have h := (List.takeWhile_prefix (l := raw.reverse) (· == '\\')).length_le
  rwa [List.length_reverse] at h

theorem backslashes_cons (c : Char) (raw : List Char) :
    backslashes (c :: raw) =
      if backslashes raw = raw.length ∧ c = '\\' then raw.length + 1 else backslashes raw := by
  rw [backslashes, List.reverse_cons, List.takeWhile_append, List.length_reverse]
  change (if backslashes raw = raw.length then _ else _ : List Char).length = _
  by_cases h : backslashes raw = raw.length
  · rw [if_pos h, List.length_append, List.length_reverse]
    by_cases hc : c = '\\'
    · subst hc
      rw [if_pos ⟨h, rfl⟩]
      rfl
    · rw [if_neg fun hall => hc hall.2, h, List.takeWhile_cons_of_neg (by rwa [beq_iff_eq])]
      rfl
  · rw [if_neg h, if_neg fun hall => h hall.1]
    rfl

theorem backslashes_cons_of_ne (h : c ≠ '\\') (raw : List Char) :
    backslashes (c :: raw) = backslashes raw := by
  rw [backslashes_cons, if_neg fun hc => h hc.2]

/-- A backslash and the character that it escapes do not change whether a quote closes. -/
theorem even_backslashes_escape (c : Char) (raw : List Char) :
    Even (backslashes ('\\' :: c :: raw)) ↔ Even (backslashes raw) := by
  have hle := backslashes_le raw
  -- the run at the end grows by both characters, or it begins behind them
  by_cases hall : backslashes raw = raw.length ∧ c = '\\'
  · have hc : backslashes (c :: raw) = raw.length + 1 := by
      rw [backslashes_cons, if_pos hall]
    rw [backslashes_cons, if_pos ⟨hc, rfl⟩, hall.1, List.length_cons, Nat.even_add_one,
      Nat.even_add_one, not_not]
  · have hc : backslashes (c :: raw) = backslashes raw := by
      rw [backslashes_cons, if_neg hall]
    have hne : backslashes (c :: raw) ≠ (c :: raw).length := by
      rw [hc, List.length_cons]
      omega
    rw [backslashes_cons, if_neg fun h => hne h.1, hc]

theorem not_even_backslashes_singleton : ¬Even (backslashes ['\\']) := by
  decide

end Backslashes

section Closing

theorem unclosed_nil (q : Char) : Unclosed q [] := by
  intro before after h
  cases before <;> cases h

theorem unclosed_cons (hb : c ≠ '\\') (hq : c ≠ q) : Unclosed q (c :: s) ↔ Unclosed q s := by
  apply Iff.intro
  · intro h before after hs
    rw [← backslashes_cons_of_ne hb]
    exact h (c :: before) after (congrArg (c :: ·) hs)
  · intro h before after hs
    cases before with
    | nil => exact absurd (List.cons.inj hs).1 hq
    | cons d before =>
      cases hs
      rw [backslashes_cons_of_ne hb]
      exact h before after rfl

theorem unclosed_escape (hq : q ≠ '\\') : Unclosed q ('\\' :: c :: s) ↔ Unclosed q s := by
  apply Iff.intro
  · intro h before after hs
    rw [← even_backslashes_escape c]
    exact h ('\\' :: c :: before) after (congrArg ('\\' :: c :: ·) hs)
  · intro h before after hs
    match before with
    | [] => exact absurd (List.cons.inj hs).1.symm hq
    | [d] =>
      -- the quote is the character that is escaped
      cases hs
      exact not_even_backslashes_singleton
    | d :: e :: before =>
      cases hs
      rw [even_backslashes_escape]
      exact h before after rfl

theorem unclosed_backslash (hq : q ≠ '\\') : Unclosed q ['\\'] := by
  intro before after h
  match before with
  | [] => exact absurd (List.cons.inj h).1.symm hq
  | [_] => cases h
  | _ :: _ :: _ => cases h

/-- A line end that is joined is a carriage return that is escaped and a line feed that is not. -/
theorem unclosed_join (hq : isQuote q = true) :
    Unclosed q ('\\' :: '\r' :: '\n' :: s) ↔ Unclosed q s := by
  rw [unclosed_escape (ne_backslash hq), unclosed_cons (by decide) (Ne.symm (ne_lineFeed hq))]

theorem Writes.isBody (hq : isQuote q = true) (h : Writes q raw body) : IsBody q raw := by
  induction h with
  | nil => exact ⟨by decide, unclosed_nil q⟩
  | plain hb hc _ ih =>
    refine ⟨?_, (unclosed_cons hb hc).2 ih.unclosed⟩
    rw [backslashes_cons_of_ne hb]
    exact ih.even
  | escape _ _ ih =>
    exact ⟨(even_backslashes_escape _ _).2 ih.even,
      (unclosed_escape (ne_backslash hq)).2 ih.unclosed⟩
  | join _ ih =>
    refine ⟨?_, (unclosed_join hq).2 ih.unclosed⟩
    rw [even_backslashes_escape, backslashes_cons_of_ne (by decide)]
    exact ih.even

theorem unclosed_of_readBody (hq : isQuote q = true) (h : readBody q s = none) : Unclosed q s := by
  fun_induction readBody q s with
  | case1 => exact unclosed_nil q
  | case2 => exact unclosed_backslash (ne_backslash hq)
  | case3 cs ih => exact (unclosed_join hq).2 (ih h)
  | case4 c cs _ ih => exact (unclosed_escape (ne_backslash hq)).2 (ih (Option.map_eq_none_iff.1 h))
  | case5 cs => cases h
  | case6 c cs hnil _ hcons hc ih =>
    have hb : c ≠ '\\' := ne_backslash_of_plain hnil hcons
    exact (unclosed_cons hb hc).2 (ih (Option.map_eq_none_iff.1 h))

end Closing

section Decoding

theorem decode_cons (h : c ≠ '\\') (raw : List Char) : decode (c :: raw) = c :: decode raw := by
  rw [decode] <;> simp [h]

theorem decode_escape (hc : c = '\r' → raw.head? ≠ some '\n') :
    decode ('\\' :: c :: raw) = unescape c ++ decode raw := by
  have hpair : ∀ cs, c = '\r' → raw = '\n' :: cs → False := by
    rintro cs hr rfl
    exact hc hr rfl
  rw [unescape]
  split_ifs with hself hn ht hr hl
  · rcases hself with rfl | rfl | rfl <;> rfl
  · rw [hn]
    rfl
  · rw [ht]
    rfl
  · rw [hr]
    rfl
  · rw [hl]
    rfl
  · rw [not_or, not_or] at hself
    obtain ⟨hback, hsingle, hdouble⟩ := hself
    rw [decode]
    · rfl
    all_goals assumption

theorem Writes.eq_decode (h : Writes q raw body) : body = decode raw := by
  induction h with
  | nil => rfl
  | plain hb _ _ ih => rw [decode_cons hb, ih]
  | escape hc _ ih => rw [decode_escape hc, ih]
  | join _ ih => exact ih

end Decoding

section Reading

theorem IsBody.eq_nil {more : List Char} (h : IsBody q (raw ++ more))
    (heven : Even (backslashes raw)) (hrest : q :: rest = more ++ q :: rest') : more = [] := by
  cases more with
  | nil => rfl
  | cons a more =>
    obtain ⟨rfl, -⟩ := List.cons.inj hrest
    exact absurd heven (h.unclosed raw more rfl)

theorem IsBody.unique (hraw : IsBody q raw) (hraw' : IsBody q raw')
    (h : raw ++ q :: rest = raw' ++ q :: rest') : raw = raw' ∧ rest = rest' := by
  have hbodies : raw = raw' := by
    rcases List.append_eq_append_iff.1 h with ⟨more, rfl, hrest⟩ | ⟨more, rfl, hrest⟩
    · rw [hraw'.eq_nil hraw.even hrest, List.append_nil]
    · rw [hraw.eq_nil hraw'.even hrest, List.append_nil]
  subst hbodies
  exact ⟨rfl, (List.cons.inj (List.append_cancel_left h)).2⟩

theorem exists_readBody_iff (hq : isQuote q = true) :
    (∃ r, readBody q s = some r) ↔ ∃ raw rest, s = raw ++ q :: rest ∧ Even (backslashes raw) := by
  apply Iff.intro
  · intro h
    obtain ⟨⟨body, rest⟩, hr⟩ := h
    obtain ⟨raw, hw, hs⟩ := writes_of_readBody hr
    exact ⟨raw, rest, hs, (hw.isBody hq).even⟩
  · intro h
    obtain ⟨raw, rest, hs, heven⟩ := h
    rw [← Option.ne_none_iff_exists']
    exact fun hnone => unclosed_of_readBody hq hnone raw rest hs heven

theorem readBody_eq_some_iff (hq : isQuote q = true) :
    readBody q s = some (body, rest) ↔
      ∃ raw, s = raw ++ q :: rest ∧ IsBody q raw ∧ body = decode raw := by
  apply Iff.intro
  · intro h
    obtain ⟨raw, hw, hs⟩ := writes_of_readBody h
    exact ⟨raw, hs, hw.isBody hq, hw.eq_decode⟩
  · intro h
    obtain ⟨raw, hs, hraw, rfl⟩ := h
    obtain ⟨⟨body, rest'⟩, hr⟩ := (exists_readBody_iff hq).2 ⟨raw, rest, hs, hraw.even⟩
    obtain ⟨raw', hw, hs'⟩ := writes_of_readBody hr
    obtain ⟨rfl, rfl⟩ := hraw.unique (hw.isBody hq) (hs.symm.trans hs')
    rw [hr, hw.eq_decode]

theorem read_cons (hq : isQuote q = true) (s : List Char) :
    read (q :: s) = (readBody q s).map fun (body, rest) => (String.ofList body, rest) :=
  if_pos hq

theorem exists_read_iff (hq : isQuote q = true) :
    (∃ t rest, read (q :: s) = some (t, rest)) ↔
      ∃ raw rest, s = raw ++ q :: rest ∧ Even (backslashes raw) := by
  rw [← exists_readBody_iff hq, read_cons hq]
  apply Iff.intro
  · intro h
    obtain ⟨t, rest, h⟩ := h
    obtain ⟨r, hr, -⟩ := Option.map_eq_some_iff.1 h
    exact ⟨r, hr⟩
  · intro h
    obtain ⟨⟨body, rest⟩, hr⟩ := h
    exact ⟨String.ofList body, rest, Option.map_eq_some_iff.2 ⟨(body, rest), hr, rfl⟩⟩

theorem read_cons_eq_some_iff (hq : isQuote q = true) :
    read (q :: s) = some (t, rest) ↔
      ∃ raw, s = raw ++ q :: rest ∧ IsBody q raw ∧ t = String.ofList (decode raw) := by
  rw [read_cons hq, Option.map_eq_some_iff]
  apply Iff.intro
  · intro h
    obtain ⟨⟨body, rest⟩, hr, he⟩ := h
    cases he
    obtain ⟨raw, hs, hraw, rfl⟩ := (readBody_eq_some_iff hq).1 hr
    exact ⟨raw, hs, hraw, rfl⟩
  · intro h
    obtain ⟨raw, hs, hraw, rfl⟩ := h
    exact ⟨(decode raw, rest), (readBody_eq_some_iff hq).2 ⟨raw, hs, hraw, rfl⟩, rfl⟩

theorem read_write (hq : isQuote q = true) (t : String) (rest : List Char) :
    read (write q t ++ rest) = some (t, rest) := by
  rw [read_eq_some_iff]
  refine ⟨q, escape q t.toList, t.toList, hq, writes_escape hq t.toList, ?_, ?_⟩
  · rw [String.ofList_toList]
  · rw [write, List.cons_append, List.append_assoc]
    rfl

/-- A quoted string is read exactly if some quote closes it: up to and including the first quote
that does, and as what the text before that quote decodes to. -/
theorem read_closes (hq : isQuote q = true) :
    (∀ s, (∃ t rest, read (q :: s) = some (t, rest)) ↔
      ∃ raw rest, s = raw ++ q :: rest ∧ Even (backslashes raw)) ∧
    (∀ s t rest, read (q :: s) = some (t, rest) ↔
      ∃ raw, s = raw ++ q :: rest ∧ IsBody q raw ∧ t = String.ofList (decode raw)) ∧
    ∀ t rest, read (write q t ++ rest) = some (t, rest) :=
  ⟨fun _ => exists_read_iff hq, fun _ _ _ => read_cons_eq_some_iff hq, read_write hq⟩

theorem read_closes_escaped :
    IsBody '"' ['\\', '"', '\\', '\r', '\n', '\\', '\\'] ∧
    read ['"', '\\', '"', '\\', '\r', '\n', '\\', '\\', '"', 'x', '"'] =
      some ("\"\\", ['x', '"']) ∧
    Unclosed '\'' ['a', '\\', '\''] ∧
    (¬∃ t rest, read ['\'', 'a', '\\', '\''] = some (t, rest)) ∧
    read (write '\'' "it's" ++ ['\'']) = some ("it's", ['\'']) := by
  have hdouble : isQuote '"' = true := rfl
  have hsingle : isQuote '\'' = true := rfl
  obtain ⟨-, hread, -⟩ := read_closes hdouble
  obtain ⟨hexists, -, hwrite⟩ := read_closes hsingle
  have hunclosed : Unclosed '"' ['\\', '"', '\\', '\r', '\n', '\\', '\\'] := by
    rw [unclosed_escape (ne_backslash hdouble), unclosed_join hdouble,
      unclosed_escape (ne_backslash hdouble)]
    exact unclosed_nil '"'
  have hbody : IsBody '"' ['\\', '"', '\\', '\r', '\n', '\\', '\\'] := ⟨by decide, hunclosed⟩
  have hopen : Unclosed '\'' ['a', '\\', '\''] := by
    rw [unclosed_cons (by decide) (by decide), unclosed_escape (ne_backslash hsingle)]
    exact unclosed_nil '\''
  refine ⟨hbody, (hread _ _ _).2 ⟨_, rfl, hbody, rfl⟩, hopen, ?_, hwrite "it's" ['\'']⟩
  rw [hexists]
  rintro ⟨raw, rest, hs, heven⟩
  exact hopen raw rest hs heven

end Reading

end BuildDesc.Quoted
