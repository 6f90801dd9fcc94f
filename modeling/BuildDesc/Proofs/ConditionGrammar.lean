import BuildDesc.Condition.Reader
import BuildDesc.Proofs.Splitting

namespace BuildDesc.Condition

inductive IsOperator : List (Token Sign) → Comparison → Prop
  | equal : IsOperator [.sign .equal] .equal
  | notEqual : IsOperator [.sign .notEqual] .notEqual
  | member : IsOperator [.word "in"] .member
  | notMember : IsOperator [.word "not", .word "in"] .notMember

mutual

/-- One or more conditions joined by `or`, which groups to the left. -/
inductive IsOr : List (Token Sign) → Condition → Prop
  | single {ts c} (h : IsAnd ts c) : IsOr ts c
  | or {ts us a b} (ha : IsOr ts a) (hb : IsAnd us b) : IsOr (ts ++ .word "or" :: us) (.or a b)

/-- One or more conditions joined by `and`, which groups to the left. -/
inductive IsAnd : List (Token Sign) → Condition → Prop
  | single {ts c} (h : IsNot ts c) : IsAnd ts c
  | and {ts us a b} (ha : IsAnd ts a) (hb : IsNot us b) :
    IsAnd (ts ++ .word "and" :: us) (.and a b)

/-- A comparison behind any number of `not`. -/
inductive IsNot : List (Token Sign) → Condition → Prop
  | not {ts c} (h : IsNot ts c) : IsNot (.word "not" :: ts) (.not c)
  | compare {ts c} (h : IsCompare ts c) : IsNot ts c

/-- An operand, or two with an operator between them. -/
inductive IsCompare : List (Token Sign) → Condition → Prop
  | single {ts c} (h : IsOperand ts c) : IsCompare ts c
  | compare {ts os us a op b} (ha : IsOperand ts a) (ho : IsOperator os op)
    (hb : IsOperand us b) : IsCompare (ts ++ (os ++ us)) (.compare a op b)

/-- A literal, a name, a list or a condition in parentheses. -/
inductive IsOperand : List (Token Sign) → Condition → Prop
  | text (s : String) : IsOperand [.quoted s] (.text s)
  | integer (n : Int64) : IsOperand [.numeral n] (.integer n)
  | true : IsOperand [.word "True"] (.boolean true)
  | false : IsOperand [.word "False"] (.boolean false)
  | name {x : String} (hx : x ∉ reserved) : IsOperand [.word x] (.name x)
  | list {ts cs} (h : IsItems ts cs) :
    IsOperand (.sign .openList :: (ts ++ [.sign .closeList])) (.list cs)
  | group {ts c} (h : IsOr ts c) : IsOperand (.sign .openGroup :: (ts ++ [.sign .closeGroup])) c

/-- The items of a list with commas between them, and perhaps one behind the last. -/
inductive IsItems : List (Token Sign) → List Condition → Prop
  | nil : IsItems [] []
  | last {ts c} (h : IsOr ts c) : IsItems ts [c]
  | cons {ts us c cs} (h : IsOr ts c) (hs : IsItems us cs) :
    IsItems (ts ++ .sign .comma :: us) (c :: cs)

end

section Soundness

variable {ts : List (Token Sign)}

theorem isOperator_of_read {r : Reading (Token Sign) Comparison ts.length}
    (h : readComparison? ts = some r) : ∃ os, ts = os ++ r.rest ∧ IsOperator os r.value := by
  unfold readComparison? at h
  split at h
  · cases h
    exact ⟨_, rfl, .equal⟩
  · cases h
    exact ⟨_, rfl, .notEqual⟩
  · cases h
    exact ⟨_, rfl, .member⟩
  · cases h
    exact ⟨_, rfl, .notMember⟩
  · cases h

theorem isOperand_of_ofWord? {w : String} {c : Condition} (h : ofWord? w = some c) :
    IsOperand [.word w] c := by
  rw [ofWord?] at h
  split at h
  · next hw =>
    cases h
    exact hw ▸ .true
  · split at h
    · next hw =>
      cases h
      exact hw ▸ .false
    · split at h
      · cases h
      · next hw =>
        cases h
        exact .name hw

mutual

theorem isOr_of_read {ts : List (Token Sign)} {r : Reading (Token Sign) Condition ts.length}
    (h : readOr ts = some r) : ∃ us, ts = us ++ r.rest ∧ IsOr us r.value := by
  rw [readOr] at h
  obtain ⟨a, ha, h⟩ := Option.bind_eq_some_iff.1 h
  have := a.length_rest_lt
  obtain ⟨us, hus, hau⟩ := isAnd_of_read ha
  obtain ⟨vs, hvs, hr⟩ := isOr_of_readTail h
  refine ⟨us ++ vs, ?_, hr us (.single hau)⟩
  rw [List.append_assoc, ← hvs]
  exact hus
termination_by 8 * ts.length + 5

theorem isOr_of_readTail {n : Nat} {r r' : Reading (Token Sign) Condition n}
    (h : readOrTail r = some r') :
    ∃ us, r.rest = us ++ r'.rest ∧ ∀ ts, IsOr ts r.value → IsOr (ts ++ us) r'.value := by
  rw [readOrTail] at h
  split at h
  · next ts hrest =>
    have hlen : r.rest.length = ts.length + 1 := by rw [hrest, List.length_cons]
    obtain ⟨b, hb, h⟩ := Option.bind_eq_some_iff.1 h
    have := b.length_rest_lt
    obtain ⟨us, hus, hbu⟩ := isAnd_of_read hb
    obtain ⟨vs, hvs, hr⟩ := isOr_of_readTail h
    refine ⟨.word "or" :: us ++ vs, ?_, ?_⟩
    · rw [List.append_assoc, ← hvs]
      exact hrest.trans (congrArg _ hus)
    · intro ts ha
      rw [← List.append_assoc]
      exact hr _ (.or ha hbu)
  · cases h
    exact ⟨[], rfl, fun ts ha => (List.append_nil ts).symm ▸ ha⟩
termination_by 8 * r.rest.length

theorem isAnd_of_read {ts : List (Token Sign)} {r : Reading (Token Sign) Condition ts.length}
    (h : readAnd ts = some r) : ∃ us, ts = us ++ r.rest ∧ IsAnd us r.value := by
  rw [readAnd] at h
  obtain ⟨a, ha, h⟩ := Option.bind_eq_some_iff.1 h
  have := a.length_rest_lt
  obtain ⟨us, hus, hau⟩ := isNot_of_read ha
  obtain ⟨vs, hvs, hr⟩ := isAnd_of_readTail h
  refine ⟨us ++ vs, ?_, hr us (.single hau)⟩
  rw [List.append_assoc, ← hvs]
  exact hus
termination_by 8 * ts.length + 4

theorem isAnd_of_readTail {n : Nat} {r r' : Reading (Token Sign) Condition n}
    (h : readAndTail r = some r') :
    ∃ us, r.rest = us ++ r'.rest ∧ ∀ ts, IsAnd ts r.value → IsAnd (ts ++ us) r'.value := by
  rw [readAndTail] at h
  split at h
  · next ts hrest =>
    have hlen : r.rest.length = ts.length + 1 := by rw [hrest, List.length_cons]
    obtain ⟨b, hb, h⟩ := Option.bind_eq_some_iff.1 h
    have := b.length_rest_lt
    obtain ⟨us, hus, hbu⟩ := isNot_of_read hb
    obtain ⟨vs, hvs, hr⟩ := isAnd_of_readTail h
    refine ⟨.word "and" :: us ++ vs, ?_, ?_⟩
    · rw [List.append_assoc, ← hvs]
      exact hrest.trans (congrArg _ hus)
    · intro ts ha
      rw [← List.append_assoc]
      exact hr _ (.and ha hbu)
  · cases h
    exact ⟨[], rfl, fun ts ha => (List.append_nil ts).symm ▸ ha⟩
termination_by 8 * r.rest.length

theorem isNot_of_read {ts : List (Token Sign)} {r : Reading (Token Sign) Condition ts.length}
    (h : readNot ts = some r) : ∃ us, ts = us ++ r.rest ∧ IsNot us r.value := by
  rw [readNot.eq_def] at h
  split at h
  · next ts =>
    obtain ⟨a, ha, rfl⟩ := Option.map_eq_some_iff.1 h
    obtain ⟨us, hus, hau⟩ := isNot_of_read ha
    exact ⟨.word "not" :: us, congrArg _ hus, .not hau⟩
  · obtain ⟨us, hus, hau⟩ := isCompare_of_read h
    exact ⟨us, hus, .compare hau⟩
termination_by 8 * ts.length + 3

theorem isCompare_of_read {ts : List (Token Sign)} {r : Reading (Token Sign) Condition ts.length}
    (h : readCompare ts = some r) : ∃ us, ts = us ++ r.rest ∧ IsCompare us r.value := by
  rw [readCompare] at h
  obtain ⟨a, ha, h⟩ := Option.bind_eq_some_iff.1 h
  have := a.length_rest_lt
  obtain ⟨us, hus, hau⟩ := isOperand_of_read ha
  split at h
  · cases h
    exact ⟨us, hus, .single hau⟩
  · next op ho =>
    have := op.length_rest_lt
    obtain ⟨b, hb, h⟩ := Option.bind_eq_some_iff.1 h
    cases h
    obtain ⟨os, hos, hop⟩ := isOperator_of_read ho
    obtain ⟨vs, hvs, hbv⟩ := isOperand_of_read hb
    refine ⟨us ++ (os ++ vs), ?_, .compare hau hop hbv⟩
    rw [List.append_assoc, List.append_assoc, ← hvs, ← hos]
    exact hus
termination_by 8 * ts.length + 2

theorem isOperand_of_read {ts : List (Token Sign)} {r : Reading (Token Sign) Condition ts.length}
    (h : readOperand ts = some r) : ∃ us, ts = us ++ r.rest ∧ IsOperand us r.value := by
  rw [readOperand.eq_def] at h
  split at h
  · cases h
    exact ⟨_, rfl, .text _⟩
  · cases h
    exact ⟨_, rfl, .integer _⟩
  · next w ts =>
    obtain ⟨c, hc, rfl⟩ := Option.map_eq_some_iff.1 h
    exact ⟨[.word w], rfl, isOperand_of_ofWord? hc⟩
  · next ts =>
    obtain ⟨a, ha, rfl⟩ := Option.map_eq_some_iff.1 h
    obtain ⟨us, hus, hau⟩ := isItems_of_read ha
    refine ⟨.sign .openList :: (us ++ [.sign .closeList]), ?_, .list hau⟩
    rw [List.cons_append, List.append_assoc]
    exact congrArg _ hus
  · next ts =>
    obtain ⟨a, ha, h⟩ := Option.bind_eq_some_iff.1 h
    obtain ⟨us, hus, hau⟩ := isOr_of_read ha
    split at h
    · next rest hrest =>
      cases h
      refine ⟨.sign .openGroup :: (us ++ [.sign .closeGroup]), ?_, .group hau⟩
      rw [List.cons_append, List.append_assoc]
      exact congrArg _ (hus.trans (congrArg _ hrest))
    · cases h
  · cases h
termination_by 8 * ts.length + 1

theorem isItems_of_read {ts : List (Token Sign)}
    {r : Reading (Token Sign) (List Condition) ts.length} (h : readItems ts = some r) :
    ∃ us, ts = us ++ .sign .closeList :: r.rest ∧ IsItems us r.value := by
  rw [readItems.eq_def] at h
  split at h
  · cases h
    exact ⟨[], rfl, .nil⟩
  · obtain ⟨a, ha, h⟩ := Option.bind_eq_some_iff.1 h
    obtain ⟨us, hus, hau⟩ := isOr_of_read ha
    split at h
    · next rest hrest =>
      cases h
      exact ⟨us, hus.trans (congrArg _ hrest), .last hau⟩
    · next rest hrest =>
      have := Reading.length_lt_of_rest_eq hrest
      obtain ⟨b, hb, h⟩ := Option.bind_eq_some_iff.1 h
      cases h
      obtain ⟨vs, hvs, hbv⟩ := isItems_of_read hb
      refine ⟨us ++ .sign .comma :: vs, ?_, .cons hau hbv⟩
      rw [List.append_assoc, List.cons_append, ← hvs]
      exact hus.trans (congrArg _ hrest)
    · cases h
termination_by 8 * ts.length + 6

end

end Soundness

section Steps

variable {ts us vs rest : List (Token Sign)} {a b c : Condition} {cs : List Condition} {n : Nat}

theorem readOrTail_stop {r : Reading (Token Sign) Condition n}
    (h : ∀ us, r.rest ≠ .word "or" :: us) : readOrTail r = some r := by
  rw [readOrTail]
  split
  · next hrest => exact absurd hrest (h _)
  · rfl

theorem readOrTail_or (a : Condition) (hn : (.word "or" :: us : List (Token Sign)).length < n)
    (hb : Yields (readAnd us) b rest) :
    ∃ hn', readOrTail ⟨a, .word "or" :: us, hn⟩ = readOrTail (n := n) ⟨.or a b, rest, hn'⟩ := by
  obtain ⟨hlt, hb⟩ := hb
  refine ⟨Nat.lt_trans hlt (Nat.lt_of_succ_lt hn), ?_⟩
  rw [readOrTail]
  change (readAnd us).bind _ = _
  rw [hb]
  rfl

theorem readAndTail_stop {r : Reading (Token Sign) Condition n}
    (h : ∀ us, r.rest ≠ .word "and" :: us) : readAndTail r = some r := by
  rw [readAndTail]
  split
  · next hrest => exact absurd hrest (h _)
  · rfl

theorem readAndTail_and (a : Condition) (hn : (.word "and" :: us : List (Token Sign)).length < n)
    (hb : Yields (readNot us) b rest) :
    ∃ hn', readAndTail ⟨a, .word "and" :: us, hn⟩ = readAndTail (n := n) ⟨.and a b, rest, hn'⟩ := by
  obtain ⟨hlt, hb⟩ := hb
  refine ⟨Nat.lt_trans hlt (Nat.lt_of_succ_lt hn), ?_⟩
  rw [readAndTail]
  change (readNot us).bind _ = _
  rw [hb]
  rfl

theorem readOperand_not (ts : List (Token Sign)) : readOperand (.word "not" :: ts) = none := by
  rw [readOperand]
  rfl

theorem readOr_closeList (ts : List (Token Sign)) : readOr (.sign .closeList :: ts) = none := by
  rw [readOr, readAnd, readNot, readCompare, readOperand]
  all_goals simp

theorem readNot_not (h : Yields (readNot ts) c rest) :
    Yields (readNot (.word "not" :: ts)) (.not c) rest := by
  obtain ⟨hlt, h⟩ := h
  refine ⟨Nat.lt_succ_of_lt hlt, ?_⟩
  rw [readNot, h]
  rfl

theorem readNot_compare (h : Yields (readCompare ts) c rest) : Yields (readNot ts) c rest := by
  rw [readNot.eq_def]
  split
  · obtain ⟨hlt, h⟩ := h
    rw [readCompare, readOperand_not] at h
    cases h
  · exact h

theorem readCompare_single (h : Yields (readOperand ts) c rest)
    (hr : readComparison? rest = none) : Yields (readCompare ts) c rest := by
  obtain ⟨hlt, h⟩ := h
  refine ⟨hlt, ?_⟩
  rw [readCompare, h]
  simp only [Option.bind_eq_bind, Option.bind_some, hr]

theorem readCompare_compare {op : Comparison} (ha : Yields (readOperand ts) a rest)
    (ho : Yields (readComparison? rest) op us) (hb : Yields (readOperand us) b vs) :
    Yields (readCompare ts) (.compare a op b) vs := by
  obtain ⟨hlt, ha⟩ := ha
  obtain ⟨hlt', ho⟩ := ho
  obtain ⟨hlt'', hb⟩ := hb
  refine ⟨Nat.lt_trans hlt'' (Nat.lt_trans hlt' hlt), ?_⟩
  rw [readCompare, ha]
  simp only [Option.bind_eq_bind, Option.bind_some, ho, hb]

theorem readOperand_list (h : Yields (readItems ts) cs rest) :
    Yields (readOperand (.sign .openList :: ts)) (.list cs) rest := by
  obtain ⟨hlt, h⟩ := h
  refine ⟨Nat.lt_succ_of_lt hlt, ?_⟩
  rw [readOperand, h]
  rfl

theorem readOperand_group (h : Yields (readOr ts) c (.sign .closeGroup :: rest)) :
    Yields (readOperand (.sign .openGroup :: ts)) c rest := by
  obtain ⟨hlt, h⟩ := h
  refine ⟨Nat.lt_succ_of_lt (Nat.lt_of_succ_lt hlt), ?_⟩
  rw [readOperand, h]
  rfl

theorem readItems_last (h : Yields (readOr ts) c (.sign .closeList :: rest)) :
    Yields (readItems ts) [c] rest := by
  obtain ⟨hlt, h⟩ := h
  rw [readItems.eq_def]
  split
  · rw [readOr_closeList] at h
    cases h
  · refine ⟨Nat.lt_of_succ_lt hlt, ?_⟩
    rw [h]
    rfl

theorem readItems_cons (h : Yields (readOr ts) c (.sign .comma :: us))
    (hs : Yields (readItems us) cs rest) : Yields (readItems ts) (c :: cs) rest := by
  obtain ⟨hlt, h⟩ := h
  obtain ⟨hlt', hs⟩ := hs
  rw [readItems.eq_def]
  split
  · rw [readOr_closeList] at h
    cases h
  · refine ⟨Nat.lt_trans hlt' (Nat.lt_of_succ_lt hlt), ?_⟩
    rw [h]
    change (readItems us).bind _ = _
    rw [hs]
    rfl

end Steps

section Completeness

/-- What may follow a whole condition. -/
inductive Closed : List (Token Sign) → Prop
  | nil : Closed []
  | closeList (ts : List (Token Sign)) : Closed (.sign .closeList :: ts)
  | closeGroup (ts : List (Token Sign)) : Closed (.sign .closeGroup :: ts)
  | comma (ts : List (Token Sign)) : Closed (.sign .comma :: ts)

theorem Closed.readComparison?_eq_none {rest : List (Token Sign)} (h : Closed rest) :
    readComparison? rest = none := by
  cases h
  all_goals rfl

theorem Closed.ne_word_cons {rest : List (Token Sign)} (h : Closed rest) (w : String)
    (us : List (Token Sign)) : rest ≠ .word w :: us := by
  intro heq
  cases h
  all_goals cases heq

theorem Closed.yields {rest : List (Token Sign)} {c : Condition} {n : Nat}
    {x : Option (Reading (Token Sign) Condition n)} (h : Closed rest)
    (hx : readComparison? rest = none → (∀ us, rest ≠ .word "and" :: us) →
      ∃ hlt, x = readOrTail ⟨c, rest, hlt⟩) : Yields x c rest := by
  obtain ⟨hlt, hx⟩ := hx h.readComparison?_eq_none (h.ne_word_cons "and")
  rw [readOrTail_stop (h.ne_word_cons "or")] at hx
  exact ⟨hlt, hx⟩

theorem readComparison?_append {os : List (Token Sign)} {op : Comparison} (h : IsOperator os op)
    (rest : List (Token Sign)) : Yields (readComparison? (os ++ rest)) op rest := by
  cases h
  all_goals exact ⟨_, rfl⟩

theorem ofWord?_eq_name {x : String} (h : x ∉ reserved) : ofWord? x = some (.name x) := by
  have htrue : x ≠ "True" := by
    intro h
    subst h
    exact h (by decide)
  have hfalse : x ≠ "False" := by
    intro h
    subst h
    exact h (by decide)
  rw [ofWord?, if_neg htrue, if_neg hfalse, if_neg h]

theorem readOperand_text (s : String) (rest : List (Token Sign)) :
    Yields (readOperand (.quoted s :: rest)) (.text s) rest := by
  rw [readOperand]
  exact ⟨_, rfl⟩

theorem readOperand_integer (n : Int64) (rest : List (Token Sign)) :
    Yields (readOperand (.numeral n :: rest)) (.integer n) rest := by
  rw [readOperand]
  exact ⟨_, rfl⟩

theorem readItems_nil (rest : List (Token Sign)) :
    Yields (readItems (.sign .closeList :: rest)) [] rest := by
  rw [readItems]
  exact ⟨_, rfl⟩

theorem readOperand_word {w : String} {c : Condition} (h : ofWord? w = some c)
    (rest : List (Token Sign)) : Yields (readOperand (.word w :: rest)) c rest := by
  rw [readOperand, h]
  exact ⟨_, rfl⟩

-- The recursion is on the tokens: the parts of a derivation have fewer of them, or the same ones
-- at a tighter level.
mutual

theorem readOr_append {ts rest : List (Token Sign)} {c : Condition} (h : IsOr ts c)
    (hc : readComparison? rest = none) (ha : ∀ us, rest ≠ .word "and" :: us) :
    ∃ hlt, readOr (ts ++ rest) = readOrTail ⟨c, rest, hlt⟩ := by
  cases h with
  | single h =>
    obtain ⟨hlt, he⟩ := readAnd_append h hc
    rw [readAndTail_stop ha] at he
    refine ⟨hlt, ?_⟩
    rw [readOr, he]
    rfl
  | @or ts us a b hta hub =>
    obtain ⟨hlt, he⟩ := readAnd_append hub hc
    rw [readAndTail_stop ha] at he
    -- the left operand stops in front of `or`, which then takes what was read as its own left one
    have hfirst : ∃ hlt, readOr (ts ++ .word "or" :: (us ++ rest)) =
        readOrTail ⟨a, .word "or" :: (us ++ rest), hlt⟩ := by
      apply readOr_append hta rfl
      intro vs hvs
      exact absurd (List.cons.inj hvs).1 (by decide)
    obtain ⟨hlt', he'⟩ := hfirst
    obtain ⟨hlt'', ht⟩ := readOrTail_or a hlt' ⟨hlt, he⟩
    rw [List.append_assoc, List.cons_append]
    exact ⟨hlt'', he'.trans ht⟩
termination_by 8 * ts.length + 5

theorem readAnd_append {ts rest : List (Token Sign)} {c : Condition} (h : IsAnd ts c)
    (hc : readComparison? rest = none) :
    ∃ hlt, readAnd (ts ++ rest) = readAndTail ⟨c, rest, hlt⟩ := by
  cases h with
  | single h =>
    obtain ⟨hlt, he⟩ := readNot_append h hc
    refine ⟨hlt, ?_⟩
    rw [readAnd, he]
    rfl
  | @and ts us a b hta hub =>
    have hfirst : ∃ hlt, readAnd (ts ++ .word "and" :: (us ++ rest)) =
        readAndTail ⟨a, .word "and" :: (us ++ rest), hlt⟩ := readAnd_append hta rfl
    obtain ⟨hlt, he⟩ := hfirst
    obtain ⟨hlt', ht⟩ := readAndTail_and a hlt (readNot_append hub hc)
    rw [List.append_assoc, List.cons_append]
    exact ⟨hlt', he.trans ht⟩
termination_by 8 * ts.length + 4

theorem readNot_append {ts rest : List (Token Sign)} {c : Condition} (h : IsNot ts c)
    (hc : readComparison? rest = none) : Yields (readNot (ts ++ rest)) c rest := by
  cases h with
  | not h => exact readNot_not (readNot_append h hc)
  | compare h => exact readNot_compare (readCompare_append h hc)
termination_by 8 * ts.length + 3

theorem readCompare_append {ts rest : List (Token Sign)} {c : Condition} (h : IsCompare ts c)
    (hc : readComparison? rest = none) : Yields (readCompare (ts ++ rest)) c rest := by
  cases h with
  | single h => exact readCompare_single (readOperand_append h rest) hc
  | @compare ts os us a op b ha ho hb =>
    rw [List.append_assoc, List.append_assoc]
    apply readCompare_compare
    · exact readOperand_append ha (os ++ (us ++ rest))
    · exact readComparison?_append ho (us ++ rest)
    · exact readOperand_append hb rest
termination_by 8 * ts.length + 2

theorem readOperand_append {ts : List (Token Sign)} {c : Condition} (h : IsOperand ts c)
    (rest : List (Token Sign)) : Yields (readOperand (ts ++ rest)) c rest := by
  cases h with
  | text s => exact readOperand_text s rest
  | integer n => exact readOperand_integer n rest
  | true => exact readOperand_word rfl rest
  | false => exact readOperand_word rfl rest
  | name hx => exact readOperand_word (ofWord?_eq_name hx) rest
  | list h =>
    rw [List.cons_append, List.append_assoc]
    exact readOperand_list (readItems_append h rest)
  | group h =>
    rw [List.cons_append, List.append_assoc]
    apply readOperand_group
    exact (Closed.closeGroup rest).yields (readOr_append h)
termination_by 8 * ts.length + 1

theorem readItems_append {ts : List (Token Sign)} {cs : List Condition} (h : IsItems ts cs)
    (rest : List (Token Sign)) :
    Yields (readItems (ts ++ .sign .closeList :: rest)) cs rest := by
  cases h with
  | nil => exact readItems_nil rest
  | last h =>
    apply readItems_last
    exact (Closed.closeList rest).yields (readOr_append h)
  | @cons ts us c cs h hs =>
    rw [List.append_assoc, List.cons_append]
    apply readItems_cons
    · exact (Closed.comma (us ++ .sign .closeList :: rest)).yields (readOr_append h)
    · exact readItems_append hs rest
termination_by 8 * ts.length + 6

end

/-- All tokens are read as a condition exactly if the grammar derives it from them. -/
theorem readOr_complete?_eq_some_iff {ts : List (Token Sign)} {c : Condition} :
    (readOr ts).bind Reading.complete? = some c ↔ IsOr ts c := by
  apply Iff.intro
  · intro h
    obtain ⟨r, hr, h⟩ := Option.bind_eq_some_iff.1 h
    obtain ⟨us, hus, hau⟩ := isOr_of_read hr
    rw [Reading.complete?] at h
    split at h
    · next hrest =>
      cases h
      rw [List.isEmpty_iff.1 hrest, List.append_nil] at hus
      exact hus ▸ hau
    · cases h
  · intro h
    have hread := Closed.nil.yields (readOr_append h)
    rw [List.append_nil] at hread
    obtain ⟨hlt, he⟩ := hread
    rw [he]
    rfl

end Completeness

end BuildDesc.Condition
