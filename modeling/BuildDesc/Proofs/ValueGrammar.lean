import BuildDesc.Proofs.Layouts

namespace BuildDesc.Value

inductive IsQuoted : List Char → List Char → String → Prop
  | mk {q raw body t} (hq : Quoted.isQuote q = true) (hw : Quoted.Writes q raw body) :
    IsQuoted (q :: raw ++ q :: t) t (String.ofList body)

/-- One or more quoted strings with layout between them, which stand for one text. -/
inductive IsText : List Char → List Char → String → Prop
  | single {s t x} (h : IsQuoted s t x) : IsText s t x
  | append {s s' t' t x y} (h : IsQuoted s s' x) (hg : Layout.Gap s' t') (hy : IsText t' t y) :
    IsText s t (x ++ y)

mutual

/-- A value with layout around it. -/
inductive IsValue : List Char → List Char → Value → Prop
  | mk {s s' t' t v} (hs : Layout.Gap s s') (h : IsCore s' t' v) (ht : Layout.Gap t' t) :
    IsValue s t v

/-- A value without the layout around it. -/
inductive IsCore : List Char → List Char → Value → Prop
  | mapping {s t es} (h : IsEntries s ('\x7d' :: t) es) :
    IsCore ('\x7b' :: s) t (.mapping (Dict.ofList es))
  | list {s t vs} (h : IsItems s (']' :: t) vs) : IsCore ('[' :: s) t (.list vs)
  | text {s t x} (h : IsText s t x) : IsCore s t (.text x)
  | integer {ds n} (t : List Char) (h : Numeral.Spells n ds) : IsCore (ds ++ t) t (.integer n)
  | true (t : List Char) : IsCore ("True".toList ++ t) t (.boolean true)
  | false (t : List Char) : IsCore ("False".toList ++ t) t (.boolean false)
  | null (t : List Char) : IsCore ("None".toList ++ t) t .null

/-- The items of a list with commas between them, and perhaps one behind the last. -/
inductive IsItems : List Char → List Char → List Value → Prop
  | nil {s t} (h : Layout.Gap s t) : IsItems s t []
  | last {s t' t v} (h : IsValue s t' v) (ht : Layout.Gap t' t) : IsItems s t [v]
  | cons {s t' t v vs} (h : IsValue s (',' :: t') v) (hs : IsItems t' t vs) : IsItems s t (v :: vs)

/-- The entries of a mapping with commas between them, and perhaps one behind the last. -/
inductive IsEntries : List Char → List Char → List (String × Value) → Prop
  | nil {s t} (h : Layout.Gap s t) : IsEntries s t []
  | last {s t' t k v} (h : IsEntry s t' k v) (ht : Layout.Gap t' t) : IsEntries s t [(k, v)]
  | cons {s t' t k v es} (h : IsEntry s (',' :: t') k v) (hs : IsEntries t' t es) :
    IsEntries s t ((k, v) :: es)

/-- A key, which is a single quoted string, and a value. -/
inductive IsEntry : List Char → List Char → String → Value → Prop
  | mk {s k' c' s' t k v} (hs : Layout.Gap s k') (hk : IsQuoted k' c' k)
    (hc : Layout.Gap c' (':' :: s')) (h : IsValue s' t v) : IsEntry s t k v

end

section Inversion

variable {s rest : List Char} {ts : List (Token Sign)} {x w : String} {n : Int64} {u : Sign}

theorem splits_nil (h : orthography.Splits s []) : Layout.Gap s [] := by
  cases h with
  | nil hg =>
    have hgap : Layout.Gap (s ++ []) [] := hg
    rwa [List.append_nil] at hgap

theorem splits_sign (h : orthography.Splits s (.sign u :: ts)) :
    ∃ t, Layout.Gap s (u.char :: t) ∧ orthography.Splits t ts := by
  cases h with
  | cons hg hs hrest =>
    cases hs
    exact ⟨_, hg, hrest⟩

theorem splits_quoted (h : orthography.Splits s (.quoted x :: ts)) :
    ∃ s' t, Layout.Gap s s' ∧ IsQuoted s' t x ∧ orthography.Splits t ts := by
  cases h with
  | @cons g cs t _ _ hg hs hrest =>
    cases hs with
    | quoted hq hw =>
      refine ⟨_, t, hg, ?_, hrest⟩
      rw [List.append_assoc]
      exact .mk hq hw

theorem splits_word (h : orthography.Splits s (.word w :: ts)) :
    ∃ t, Layout.Gap s (w.toList ++ t) ∧ orthography.Splits t ts := by
  cases h with
  | @cons g cs t _ _ hg hs hrest =>
    cases hs
    rw [String.toList_ofList]
    exact ⟨t, hg, hrest⟩

theorem splits_numeral (h : orthography.Splits s (.numeral n :: ts)) :
    ∃ ds t, Layout.Gap s (ds ++ t) ∧ Numeral.Spells n ds ∧ orthography.Splits t ts := by
  cases h with
  | @cons g ds t _ _ hg hs hrest =>
    cases hs with
    | numeral hn => exact ⟨ds, t, hg, hn, hrest⟩

end Inversion

section Soundness

theorem readText_append (x y : String) (ts : List (Token Sign)) :
    (readText (x ++ y) ts).value = x ++ (readText y ts).value ∧
      (readText (x ++ y) ts).rest = (readText y ts).rest := by
  induction ts generalizing y with
  | nil => exact ⟨rfl, rfl⟩
  | cons t ts ih =>
    cases t with
    | quoted z =>
      have h := ih (y ++ z)
      rw [← String.append_assoc] at h
      exact h
    | _ => exact ⟨rfl, rfl⟩

theorem isText_of_readText {s t : List Char} {x : String} {ts : List (Token Sign)}
    (h : IsQuoted s t x) (ht : orthography.Splits t ts) :
    ∃ t', IsText s t' (readText x ts).value ∧ orthography.Splits t' (readText x ts).rest := by
  induction ts generalizing s t x with
  | nil => exact ⟨t, .single h, ht⟩
  | cons u ts ih =>
    cases u with
    | quoted y =>
      obtain ⟨s', t', hg, hy, hs⟩ := splits_quoted ht
      obtain ⟨t'', htext, hrest⟩ := ih hy hs
      obtain ⟨hvalue, hrest'⟩ := readText_append x y ts
      change ∃ t', IsText s t' (readText (x ++ y) ts).value ∧
        orthography.Splits t' (readText (x ++ y) ts).rest
      rw [hvalue, hrest']
      exact ⟨t'', .append h hg htext, hrest⟩
    | _ => exact ⟨t, .single h, ht⟩

theorem isCore_of_ofWord? {w : String} {v : Value} (h : ofWord? w = some v) (t : List Char) :
    IsCore (w.toList ++ t) t v := by
  rw [ofWord?] at h
  split at h
  · next hw =>
    cases h
    exact hw ▸ .true t
  · split at h
    · next hw =>
      cases h
      exact hw ▸ .false t
    · split at h
      · next hw =>
        cases h
        exact hw ▸ .null t
      · cases h

mutual

theorem isCore_of_read {ts : List (Token Sign)} {r : Reading (Token Sign) Value ts.length}
    {s : List Char} (h : read ts = some r) (hs : orthography.Splits s ts) :
    ∃ s' t, Layout.Gap s s' ∧ IsCore s' t r.value ∧ orthography.Splits t r.rest := by
  rw [read.eq_def] at h
  split at h
  · next x ts =>
    cases h
    obtain ⟨s', t, hg, hx, ht⟩ := splits_quoted hs
    obtain ⟨t', htext, hrest⟩ := isText_of_readText hx ht
    exact ⟨s', t', hg, .text htext, hrest⟩
  · next n ts =>
    cases h
    obtain ⟨ds, t, hg, hn, ht⟩ := splits_numeral hs
    exact ⟨ds ++ t, t, hg, .integer t hn, ht⟩
  · next w ts =>
    obtain ⟨v, hv, rfl⟩ := Option.map_eq_some_iff.1 h
    obtain ⟨t, hg, ht⟩ := splits_word hs
    exact ⟨_, t, hg, isCore_of_ofWord? hv t, ht⟩
  · next ts =>
    obtain ⟨a, ha, rfl⟩ := Option.map_eq_some_iff.1 h
    obtain ⟨s', hg, hs'⟩ := splits_sign hs
    obtain ⟨t, hitems, ht⟩ := isItems_of_read ha hs'
    exact ⟨_, t, hg, .list hitems, ht⟩
  · next ts =>
    obtain ⟨a, ha, rfl⟩ := Option.map_eq_some_iff.1 h
    obtain ⟨s', hg, hs'⟩ := splits_sign hs
    obtain ⟨t, hentries, ht⟩ := isEntries_of_read ha hs'
    exact ⟨_, t, hg, .mapping hentries, ht⟩
  · cases h
termination_by 2 * ts.length

theorem isItems_of_read {ts : List (Token Sign)} {r : Reading (Token Sign) (List Value) ts.length}
    {s : List Char} (h : readItems ts = some r) (hs : orthography.Splits s ts) :
    ∃ t, IsItems s (']' :: t) r.value ∧ orthography.Splits t r.rest := by
  rw [readItems.eq_def] at h
  split at h
  · cases h
    obtain ⟨t, hg, ht⟩ := splits_sign hs
    exact ⟨t, .nil hg, ht⟩
  · obtain ⟨a, ha, h⟩ := Option.bind_eq_some_iff.1 h
    obtain ⟨s', t, hg, hcore, ht⟩ := isCore_of_read ha hs
    split at h
    · next rest hrest =>
      cases h
      rw [hrest] at ht
      obtain ⟨t', hg', ht'⟩ := splits_sign ht
      exact ⟨t', .last (.mk hg hcore hg') (.nil _), ht'⟩
    · next rest hrest =>
      have := Reading.length_lt_of_rest_eq hrest
      obtain ⟨b, hb, h⟩ := Option.bind_eq_some_iff.1 h
      cases h
      rw [hrest] at ht
      obtain ⟨t', hg', ht'⟩ := splits_sign ht
      obtain ⟨t'', hitems, ht''⟩ := isItems_of_read hb ht'
      exact ⟨t'', .cons (.mk hg hcore hg') hitems, ht''⟩
    · cases h
termination_by 2 * ts.length + 1

theorem isEntries_of_read {ts : List (Token Sign)}
    {r : Reading (Token Sign) (List (String × Value)) ts.length} {s : List Char}
    (h : readEntries ts = some r) (hs : orthography.Splits s ts) :
    ∃ t, IsEntries s ('\x7d' :: t) r.value ∧ orthography.Splits t r.rest := by
  rw [readEntries.eq_def] at h
  split at h
  · cases h
    obtain ⟨t, hg, ht⟩ := splits_sign hs
    exact ⟨t, .nil hg, ht⟩
  · next k vs =>
    obtain ⟨a, ha, h⟩ := Option.bind_eq_some_iff.1 h
    obtain ⟨k', c, hgk, hk, hc⟩ := splits_quoted hs
    obtain ⟨c', hgc, hv⟩ := splits_sign hc
    obtain ⟨s', t, hg, hcore, ht⟩ := isCore_of_read ha hv
    split at h
    · next rest hrest =>
      cases h
      rw [hrest] at ht
      obtain ⟨t', hg', ht'⟩ := splits_sign ht
      exact ⟨t', .last (.mk hgk hk hgc (.mk hg hcore hg')) (.nil _), ht'⟩
    · next rest hrest =>
      have hlt : rest.length < vs.length := Nat.lt_of_succ_lt (Reading.length_lt_of_rest_eq hrest)
      obtain ⟨b, hb, h⟩ := Option.bind_eq_some_iff.1 h
      cases h
      rw [hrest] at ht
      obtain ⟨t', hg', ht'⟩ := splits_sign ht
      obtain ⟨t'', hentries, ht''⟩ := isEntries_of_read hb ht'
      exact ⟨t'', .cons (.mk hgk hk hgc (.mk hg hcore hg')) hentries, ht''⟩
    · cases h
  · cases h
termination_by 2 * ts.length + 1
decreasing_by
  all_goals subst_eqs
  all_goals simp only [List.length_cons]
  all_goals omega

end

end Soundness

section Steps

variable {ts us : List (Token Sign)} {v : Value} {vs : List Value} {k : String}
  {es : List (String × Value)}

theorem read_closeList (ts : List (Token Sign)) : read (.sign .closeList :: ts) = none := by
  rw [read]
  all_goals simp

theorem read_list (h : Yields (readItems ts) vs us) :
    Yields (read (.sign .openList :: ts)) (.list vs) us := by
  obtain ⟨hlt, h⟩ := h
  rw [read, h]
  exact ⟨_, rfl⟩

theorem read_mapping (h : Yields (readEntries ts) es us) :
    Yields (read (.sign .openMapping :: ts)) (.mapping (Dict.ofList es)) us := by
  obtain ⟨hlt, h⟩ := h
  rw [read, h]
  exact ⟨_, rfl⟩

theorem read_integer (n : Int64) (us : List (Token Sign)) :
    Yields (read (.numeral n :: us)) (.integer n) us := by
  rw [read]
  exact ⟨_, rfl⟩

theorem read_word {w : String} (h : ofWord? w = some v) (us : List (Token Sign)) :
    Yields (read (.word w :: us)) v us := by
  rw [read, h]
  exact ⟨_, rfl⟩

theorem readItems_nil (us : List (Token Sign)) :
    Yields (readItems (.sign .closeList :: us)) [] us := by
  rw [readItems]
  exact ⟨_, rfl⟩

theorem readItems_last (h : Yields (read ts) v (.sign .closeList :: us)) :
    Yields (readItems ts) [v] us := by
  obtain ⟨hlt, h⟩ := h
  rw [readItems.eq_def]
  split
  · rw [read_closeList] at h
    cases h
  · rw [h]
    exact ⟨Nat.lt_of_succ_lt hlt, rfl⟩

theorem readItems_cons (h : Yields (read ts) v (.sign .comma :: us)) {rest : List (Token Sign)}
    (hs : Yields (readItems us) vs rest) : Yields (readItems ts) (v :: vs) rest := by
  obtain ⟨hlt, h⟩ := h
  obtain ⟨hlt', hs⟩ := hs
  rw [readItems.eq_def]
  split
  · rw [read_closeList] at h
    cases h
  · refine ⟨Nat.lt_trans hlt' (Nat.lt_of_succ_lt hlt), ?_⟩
    rw [h]
    change (readItems us).bind _ = _
    rw [hs]
    rfl

theorem readEntries_nil (us : List (Token Sign)) :
    Yields (readEntries (.sign .closeMapping :: us)) [] us := by
  rw [readEntries]
  exact ⟨_, rfl⟩

theorem readEntries_last (h : Yields (read ts) v (.sign .closeMapping :: us)) :
    Yields (readEntries (.quoted k :: .sign .colon :: ts)) [(k, v)] us := by
  obtain ⟨hlt, h⟩ := h
  rw [readEntries, h]
  exact ⟨_, rfl⟩

theorem readEntries_cons (h : Yields (read ts) v (.sign .comma :: us)) {rest : List (Token Sign)}
    (hs : Yields (readEntries us) es rest) :
    Yields (readEntries (.quoted k :: .sign .colon :: ts)) ((k, v) :: es) rest := by
  obtain ⟨hlt, h⟩ := h
  obtain ⟨hlt', hs⟩ := hs
  have hlt'' : rest.length < (.quoted k :: .sign .colon :: ts : List (Token Sign)).length := by
    simp only [List.length_cons] at hlt ⊢
    omega
  refine ⟨hlt'', ?_⟩
  rw [readEntries, h]
  change (readEntries us).bind _ = _
  rw [hs]
  rfl

end Steps

section Completeness

/-- What may follow a value. -/
inductive Closed : List (Token Sign) → Prop
  | nil : Closed []
  | closeList (ts : List (Token Sign)) : Closed (.sign .closeList :: ts)
  | closeMapping (ts : List (Token Sign)) : Closed (.sign .closeMapping :: ts)
  | comma (ts : List (Token Sign)) : Closed (.sign .comma :: ts)

variable {s t : List Char} {us : List (Token Sign)}

theorem begins_eq_false_of_gap {c : Char} (h : Layout.Gap s t) (hc : c ∈ s.head?)
    (ht : ∀ d ∈ t.head?, Token.begins d = false) : Token.begins c = false := by
  cases h with
  | nil => exact ht c hc
  | blank hb =>
    cases hc
    exact Layout.begins_eq_false_of_isBlank hb
  | comment =>
    cases hc
    decide

/-- No word and no numeral goes on where a value has ended. -/
theorem Closed.begins_eq_false (h : Closed us) (hus : lexicon.tokens t = some us) :
    ∀ c ∈ t.head?, Token.begins c = false := by
  intro c hc
  have hsplits := orthography.splits_of_tokens hus
  cases h with
  | nil =>
    apply begins_eq_false_of_gap (splits_nil hsplits) hc
    intro d hd
    cases hd
  | closeList | closeMapping | comma =>
    obtain ⟨t', hg, -⟩ := splits_sign hsplits
    apply begins_eq_false_of_gap hg hc
    intro d hd
    cases hd
    decide

theorem isTail_eq_false {c : Char} (h : Token.begins c = false) : Word.isTail c = false := by
  simp only [Token.begins, Word.isHead, Bool.or_eq_false_iff] at h
  rw [Word.isTail, Char.isAlphanum, h.1.1.1.1, h.1.1.1.2, h.1.2]
  rfl

theorem tokens_of_gap (h : Layout.Gap s t) : lexicon.tokens s = lexicon.tokens t :=
  Lexicon.tokens_eq_of_skip_eq (Layout.skip_eq_of_gap h)

theorem tokens_sign (u : Sign) (h : lexicon.tokens t = some us) :
    lexicon.tokens (u.char :: t) = some (.sign u :: us) := by
  have htokens := orthography.tokens_spelling (.sign u t) nofun
  rw [h] at htokens
  exact htokens

theorem IsQuoted.tokens {x : String} (h : IsQuoted s t x) (hus : lexicon.tokens t = some us) :
    lexicon.tokens s = some (.quoted x :: us) := by
  cases h with
  | @mk q raw body _ hq hw =>
    have hspell : Spelling orthography.sign (.quoted (String.ofList body)) (q :: raw ++ [q]) t :=
      .quoted hq hw
    have htokens := orthography.tokens_spelling hspell nofun
    rw [List.append_assoc, hus] at htokens
    exact htokens

theorem tokens_word {w : String} (hw : Word.IsWord w.toList) (h : Closed us)
    (hus : lexicon.tokens t = some us) : lexicon.tokens (w.toList ++ t) = some (.word w :: us) := by
  have hspell : Spelling orthography.sign (.word (String.ofList w.toList)) w.toList t := by
    apply Spelling.word hw
    intro c hc
    exact isTail_eq_false (h.begins_eq_false hus c hc)
  rw [orthography.tokens_spelling hspell nofun, hus, String.ofList_toList]
  rfl

theorem isWord_of_ofWord? {w : String} {v : Value} (h : ofWord? w = some v) :
    Word.IsWord w.toList := by
  rw [ofWord?] at h
  split at h
  · next hw =>
    subst hw
    exact ⟨'T', ['r', 'u', 'e'], rfl, rfl, List.all_eq_true.1 rfl⟩
  · split at h
    · next hw =>
      subst hw
      exact ⟨'F', ['a', 'l', 's', 'e'], rfl, rfl, List.all_eq_true.1 rfl⟩
    · split at h
      · next hw =>
        subst hw
        exact ⟨'N', ['o', 'n', 'e'], rfl, rfl, List.all_eq_true.1 rfl⟩
      · cases h

theorem yields_word {w : String} {v : Value} (hv : ofWord? w = some v) (h : Closed us)
    (hus : lexicon.tokens t = some us) :
    ∃ ts, lexicon.tokens (w.toList ++ t) = some ts ∧ Yields (read ts) v us :=
  ⟨.word w :: us, tokens_word (isWord_of_ofWord? hv) h hus, read_word hv us⟩

theorem tokens_numeral {ds : List Char} {n : Int64} (hn : Numeral.Spells n ds) (h : Closed us)
    (hus : lexicon.tokens t = some us) : lexicon.tokens (ds ++ t) = some (.numeral n :: us) := by
  have hdigit : ∀ c ∈ t.head?, c.isDigit = false := by
    intro c hc
    have hbegins := h.begins_eq_false hus c hc
    simp only [Token.begins, Bool.or_eq_false_iff] at hbegins
    exact hbegins.1.2
  rw [orthography.tokens_spelling (.numeral hn) fun _ => hdigit, hus]
  rfl

theorem readText_of_closed (h : Closed us) (x : String) :
    (readText x us).value = x ∧ (readText x us).rest = us := by
  cases h
  all_goals exact ⟨rfl, rfl⟩

theorem IsText.tokens {x : String} (h : IsText s t x) (hc : Closed us)
    (hus : lexicon.tokens t = some us) :
    ∃ y ts, lexicon.tokens s = some (.quoted y :: ts) ∧ (readText y ts).value = x ∧
      (readText y ts).rest = us := by
  induction h with
  | @single s t x h => exact ⟨x, us, h.tokens hus, readText_of_closed hc x⟩
  | @append s s' t' t x y h hg _ ih =>
    obtain ⟨z, ts, hts, hvalue, hrest⟩ := ih hus
    rw [← tokens_of_gap hg] at hts
    have happend := readText_append x z ts
    have hvalue' := happend.1.trans (congrArg _ hvalue)
    exact ⟨x, .quoted z :: ts, h.tokens hts, hvalue', happend.2.trans hrest⟩

theorem read_text {x y : String} {ts : List (Token Sign)} (hvalue : (readText y ts).value = x)
    (hrest : (readText y ts).rest = us) : Yields (read (.quoted y :: ts)) (.text x) us := by
  subst hvalue hrest
  rw [read]
  exact ⟨_, rfl⟩

-- The recursion is on the derivation. What follows has been split into tokens already.
mutual

theorem IsValue.yields {s t : List Char} {v : Value} {us : List (Token Sign)} (h : IsValue s t v)
    (hc : Closed us) (hus : lexicon.tokens t = some us) :
    ∃ ts, lexicon.tokens s = some ts ∧ Yields (read ts) v us := by
  match h with
  | .mk hs h ht =>
    rw [← tokens_of_gap ht] at hus
    rw [tokens_of_gap hs]
    exact h.yields hc hus
termination_by structural h

theorem IsCore.yields {s t : List Char} {v : Value} {us : List (Token Sign)} (h : IsCore s t v)
    (hc : Closed us) (hus : lexicon.tokens t = some us) :
    ∃ ts, lexicon.tokens s = some ts ∧ Yields (read ts) v us := by
  match h with
  | .mapping h =>
    obtain ⟨ts, hts, hread⟩ := h.yields (tokens_sign .closeMapping hus)
    exact ⟨.sign .openMapping :: ts, tokens_sign .openMapping hts, read_mapping hread⟩
  | .list h =>
    obtain ⟨ts, hts, hread⟩ := h.yields (tokens_sign .closeList hus)
    exact ⟨.sign .openList :: ts, tokens_sign .openList hts, read_list hread⟩
  | .text h =>
    obtain ⟨y, ts, hts, hvalue, hrest⟩ := h.tokens hc hus
    exact ⟨.quoted y :: ts, hts, read_text hvalue hrest⟩
  | .integer t hn => exact ⟨_, tokens_numeral hn hc hus, read_integer _ us⟩
  | .true t => exact yields_word rfl hc hus
  | .false t => exact yields_word rfl hc hus
  | .null t => exact yields_word rfl hc hus
termination_by structural h

theorem IsItems.yields {s t : List Char} {vs : List Value} {us : List (Token Sign)}
    (h : IsItems s t vs) (hus : lexicon.tokens t = some (.sign .closeList :: us)) :
    ∃ ts, lexicon.tokens s = some ts ∧ Yields (readItems ts) vs us := by
  match h with
  | .nil h =>
    rw [tokens_of_gap h, hus]
    exact ⟨_, rfl, readItems_nil us⟩
  | .last h ht =>
    rw [← tokens_of_gap ht] at hus
    obtain ⟨ts, hts, hread⟩ := h.yields (.closeList us) hus
    exact ⟨ts, hts, readItems_last hread⟩
  | .cons h hs =>
    obtain ⟨ts', hts', hread'⟩ := hs.yields hus
    obtain ⟨ts, hts, hread⟩ := h.yields (.comma ts') (tokens_sign .comma hts')
    exact ⟨ts, hts, readItems_cons hread hread'⟩
termination_by structural h

theorem IsEntries.yields {s t : List Char} {es : List (String × Value)} {us : List (Token Sign)}
    (h : IsEntries s t es) (hus : lexicon.tokens t = some (.sign .closeMapping :: us)) :
    ∃ ts, lexicon.tokens s = some ts ∧ Yields (readEntries ts) es us := by
  match h with
  | .nil h =>
    rw [tokens_of_gap h, hus]
    exact ⟨_, rfl, readEntries_nil us⟩
  | .last h ht =>
    rw [← tokens_of_gap ht] at hus
    obtain ⟨ts, hts, hread⟩ := h.yields (.closeMapping us) hus
    exact ⟨_, hts, readEntries_last hread⟩
  | .cons h hs =>
    obtain ⟨ts', hts', hread'⟩ := hs.yields hus
    obtain ⟨ts, hts, hread⟩ := h.yields (.comma ts') (tokens_sign .comma hts')
    exact ⟨_, hts, readEntries_cons hread hread'⟩
termination_by structural h

theorem IsEntry.yields {s t : List Char} {k : String} {v : Value} {us : List (Token Sign)}
    (h : IsEntry s t k v) (hc : Closed us) (hus : lexicon.tokens t = some us) :
    ∃ ts, lexicon.tokens s = some (.quoted k :: .sign .colon :: ts) ∧ Yields (read ts) v us := by
  match h with
  | .mk hs hk hcolon h =>
    obtain ⟨ts, hts, hread⟩ := h.yields hc hus
    have hcolon' := (tokens_of_gap hcolon).trans (tokens_sign .colon hts)
    rw [tokens_of_gap hs]
    exact ⟨ts, hk.tokens hcolon', hread⟩
termination_by structural h

end

end Completeness

def Denotes (s : String) (v : Value) : Prop :=
  IsValue s.toList [] v

theorem ofText?_eq_some_iff {s : String} {v : Value} : ofText? s = some v ↔ Denotes s v := by
  rw [ofText?]
  apply Iff.intro
  · intro h
    obtain ⟨ts, hts, h⟩ := Option.bind_eq_some_iff.1 h
    obtain ⟨r, hr, h⟩ := Option.bind_eq_some_iff.1 h
    obtain ⟨s', t, hg, hcore, ht⟩ := isCore_of_read hr (orthography.splits_of_tokens hts)
    rw [Reading.complete?] at h
    split at h
    · next hrest =>
      cases h
      rw [List.isEmpty_iff.1 hrest] at ht
      exact .mk hg hcore (splits_nil ht)
    · cases h
  · intro h
    have hend : lexicon.tokens [] = some [] :=
      Lexicon.tokens_of_skip_eq_nil (Lexicon.skip_nil lexicon)
    obtain ⟨ts, hts, hlt, hread⟩ := IsValue.yields h .nil hend
    rw [hts]
    change (read ts).bind Reading.complete? = some v
    rw [hread]
    rfl

/-- A text is read as a value exactly if the grammar derives the value from it, and refused exactly
if it derives none. -/
theorem parse_iff_grammar (s : String) :
    (∀ v, parse s = .ok v ↔ Denotes s v) ∧
      (parse s = .error .notValue ↔ ¬∃ v, Denotes s v) := by
  rw [parse]
  cases h : ofText? s with
  | none =>
    have hno : ¬∃ v, Denotes s v := by
      intro hv
      obtain ⟨v, hv⟩ := hv
      rw [← ofText?_eq_some_iff, h] at hv
      cases hv
    exact ⟨fun v => ⟨nofun, fun hv => absurd ⟨v, hv⟩ hno⟩, fun _ => hno, fun _ => rfl⟩
  | some w =>
    have hw : Denotes s w := ofText?_eq_some_iff.1 h
    apply And.intro
    · intro v
      rw [← ofText?_eq_some_iff, h, Option.some.injEq]
      exact ⟨Except.ok.inj, congrArg Except.ok⟩
    · exact ⟨nofun, fun hno => absurd ⟨w, hw⟩ hno⟩

example : parse "['a' # b\n\"c\",] # d" = .ok (.list [.text "ac"]) := by
  cbv

end BuildDesc.Value
