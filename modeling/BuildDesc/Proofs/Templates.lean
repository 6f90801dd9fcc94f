import BuildDesc.Proofs.Outcomes
import BuildDesc.Proofs.Spelling
import BuildDesc.Resource.Script
import Mathlib.Data.List.Forall2

namespace BuildDesc

namespace Template

def IsKey (w : List Char) : Prop :=
  w ≠ [] ∧ ∀ c ∈ w, Word.isTail c = true

/-- Holds of a text that makes an at sign in front of it begin a key. -/
def Opens (s : List Char) : Prop :=
  ∃ w rest, IsKey w ∧ s = w ++ '@' :: rest

/-- The ways to split a template into keys and characters that stand for themselves. An at sign does
so only if no key follows it. -/
inductive Splits : List Char → List TemplatePart → Prop
  | nil : Splits [] []
  | key {w rest ps} (hw : IsKey w) (h : Splits rest ps) :
    Splits ('@' :: (w ++ '@' :: rest)) (.key (String.ofList w) :: ps)
  | literal {c s ps} (hc : c = '@' → ¬Opens s) (h : Splits s ps) :
    Splits (c :: s) (.literal c :: ps)

section Parts

variable {s rest : List Char} {k : String} {ps qs : List TemplatePart} {c : Char}

theorem readKey_eq_some_iff :
    readKey s = some (k, rest) ↔ ∃ w, IsKey w ∧ k = String.ofList w ∧ s = w ++ '@' :: rest := by
  apply Iff.intro
  · intro h
    unfold readKey at h
    split at h
    · next c cs rest' htake hdrop =>
      cases h
      refine ⟨c :: cs, ⟨List.cons_ne_nil c cs, ?_⟩, rfl, ?_⟩
      · rw [← htake]
        exact List.all_eq_true.1 List.all_takeWhile
      · rw [← htake, ← hdrop, List.takeWhile_append_dropWhile]
    · cases h
  · intro h
    obtain ⟨w, ⟨hne, hw⟩, rfl, rfl⟩ := h
    have hat : ∀ c ∈ ('@' :: rest).head?, Word.isTail c = false := by
      intro c hc
      cases hc
      rfl
    obtain ⟨htake, hdrop⟩ := Word.takeWhile_append_eq hw hat
    obtain ⟨c, cs, rfl⟩ := List.exists_cons_of_ne_nil hne
    rw [readKey, htake, hdrop]
    rfl

theorem readKey_eq_none_iff : readKey s = none ↔ ¬Opens s := by
  rw [Option.eq_none_iff_forall_not_mem]
  apply Iff.intro
  · intro h ho
    obtain ⟨w, rest, hw, hs⟩ := ho
    exact h _ (readKey_eq_some_iff.2 ⟨w, hw, rfl, hs⟩)
  · intro h r hr
    obtain ⟨w, hw, -, hs⟩ := readKey_eq_some_iff.1 hr
    exact h ⟨w, r.2, hw, hs⟩

theorem parts_nil : parts [] = [] := by
  rw [parts]

theorem parts_key (h : readKey s = some (k, rest)) : parts ('@' :: s) = .key k :: parts rest := by
  rw [parts, if_pos rfl]
  split
  · next hr =>
    rw [h] at hr
    cases hr
    rfl
  · next hr =>
    rw [h] at hr
    cases hr

theorem parts_literal (h : c = '@' → readKey s = none) :
    parts (c :: s) = .literal c :: parts s := by
  rw [parts]
  split
  · next hc =>
    split
    · next hr =>
      rw [h hc] at hr
      cases hr
    · rfl
  · rfl

theorem splits_parts (s : List Char) : Splits s (parts s) := by
  fun_induction parts s with
  | case1 => exact .nil
  | case2 cs k rest hr _ ih =>
    obtain ⟨w, hw, rfl, rfl⟩ := readKey_eq_some_iff.1 hr
    exact .key hw ih
  | case3 cs hr ih => exact .literal (fun _ => readKey_eq_none_iff.1 hr) ih
  | case4 c cs hc ih => exact .literal (fun h => absurd h hc) ih

theorem Splits.parts_eq (h : Splits s ps) : parts s = ps := by
  induction h with
  | nil => exact parts_nil
  | key hw _ ih => rw [parts_key (readKey_eq_some_iff.2 ⟨_, hw, rfl, rfl⟩), ih]
  | literal hc _ ih => rw [parts_literal fun h => readKey_eq_none_iff.2 (hc h), ih]

theorem splits_iff : Splits s ps ↔ ps = parts s := by
  apply Iff.intro
  · exact fun h => h.parts_eq.symm
  · intro h
    rw [h]
    exact splits_parts s

theorem Splits.eq_literals (h : Splits s ps) (hk : ∀ k, .key k ∉ ps) : ps = s.map .literal := by
  induction h with
  | nil => rfl
  | key _ _ _ => exact absurd List.mem_cons_self (hk _)
  | literal _ _ ih => rw [List.map_cons, ih fun k h => hk k (List.mem_cons_of_mem _ h)]

end Parts

section Filling

variable {value? : String → Option String} {p : TemplatePart} {ps qs : List TemplatePart}
  {out : List Char}

def textOf (value? : String → Option String) : TemplatePart → Except Error (List Char)
  | .literal c => return [c]
  | .key k =>
    match value? k with
    | some v => return v.toList
    | none => throw (.unknownTemplateKey k)

theorem fill_cons (value? : String → Option String) (p : TemplatePart) (ps : List TemplatePart) :
    fill value? (p :: ps) = do return (← textOf value? p) ++ (← fill value? ps) := by
  cases p with
  | literal c => rfl
  | key k =>
    rw [fill, textOf]
    cases value? k <;> rfl

theorem fill_eq_ok_iff :
    fill value? ps = .ok out ↔
      ∃ texts, List.Forall₂ (fun p t => textOf value? p = .ok t) ps texts ∧
        out = texts.flatten := by
  induction ps generalizing out with
  | nil =>
    apply Iff.intro
    · intro h
      cases h
      exact ⟨[], .nil, rfl⟩
    · intro h
      obtain ⟨texts, ht, rfl⟩ := h
      cases ht
      rfl
  | cons p ps ih =>
    rw [fill_cons, bind_eq_ok_iff]
    apply Iff.intro
    · intro h
      obtain ⟨t, ht, h⟩ := h
      obtain ⟨rest, hrest, h⟩ := bind_eq_ok_iff.1 h
      obtain ⟨texts, htexts, rfl⟩ := ih.1 hrest
      cases h
      exact ⟨t :: texts, .cons ht htexts, rfl⟩
    · intro h
      obtain ⟨texts, htexts, rfl⟩ := h
      cases htexts with
      | cons ht htexts => exact ⟨_, ht, bind_eq_ok (ih.2 ⟨_, htexts, rfl⟩) rfl⟩

theorem fill_literals (value? : String → Option String) (cs : List Char) :
    fill value? (cs.map .literal) = .ok cs := by
  induction cs with
  | nil => rfl
  | cons c cs ih => exact bind_eq_ok ih rfl

/-- Filling succeeds exactly if every part has a text, and else ends with the error of the first
part that has none. -/
theorem checks_fill (value? : String → Option String) (i : Nat) (ps : List TemplatePart) :
    Checks (fill value? ps) (∀ p ∈ ps, ∃ t, textOf value? p = .ok t)
      (FirstFault (fun p => ∃ t, textOf value? p = .ok t) (fun _ p e => textOf value? p = .error e)
        i ps) := by
  induction ps generalizing i with
  | nil => exact .nil _
  | cons p ps ih =>
    rw [fill_cons]
    have hp : Checks (textOf value? p) (∃ t, textOf value? p = .ok t)
        fun e => textOf value? p = .error e := ⟨Iff.rfl, fun _ => Iff.rfl⟩
    exact Checks.cons hp (ih (i + 1)) (· ++ ·)

end Filling

end Template

namespace ResourceScript

def keys : List String :=
  ["EXECUTABLE", "VERSION", "GIT_COMMIT", "WIN_VERSION"]

/-- The text that stands for a part of a template in the script. -/
inductive Substitutes (s : ResourceScript) : TemplatePart → List Char → Prop
  | literal (c : Char) : Substitutes s (.literal c) [c]
  | executable : Substitutes s (.key "EXECUTABLE") s.executable.toList
  | version : Substitutes s (.key "VERSION") s.version.toList
  | commit : Substitutes s (.key "GIT_COMMIT") s.commit.toList
  | fileVersion : Substitutes s (.key "WIN_VERSION") (FileVersion.ofVersion s.version).toList

variable {s : ResourceScript} {p : TemplatePart} {ps : List TemplatePart} {t : List Char}
  {k : String} {e : Error}

theorem value?_eq_none (h : k ∉ keys) : s.value? k = none := by
  simp only [keys, List.mem_cons, List.not_mem_nil, or_false, not_or] at h
  rw [value?, if_neg h.1, if_neg h.2.1, if_neg h.2.2.1, if_neg h.2.2.2]

theorem exists_substitutes (s : ResourceScript) (h : k ∈ keys) :
    ∃ t, s.Substitutes (.key k) t := by
  simp only [keys, List.mem_cons, List.not_mem_nil, or_false] at h
  rcases h with rfl | rfl | rfl | rfl
  · exact ⟨_, .executable⟩
  · exact ⟨_, .version⟩
  · exact ⟨_, .commit⟩
  · exact ⟨_, .fileVersion⟩

theorem Substitutes.textOf_eq (h : s.Substitutes p t) : Template.textOf s.value? p = .ok t := by
  cases h <;> rfl

theorem textOf_of_not_mem (h : k ∉ keys) :
    Template.textOf s.value? (.key k) = .error (.unknownTemplateKey k) := by
  rw [Template.textOf, value?_eq_none h]
  rfl

theorem substitutes_iff : s.Substitutes p t ↔ Template.textOf s.value? p = .ok t := by
  refine ⟨Substitutes.textOf_eq, fun h => ?_⟩
  cases p with
  | literal c =>
    cases h
    exact .literal c
  | key k =>
    by_cases hk : k ∈ keys
    · obtain ⟨u, hu⟩ := s.exists_substitutes hk
      rw [hu.textOf_eq] at h
      cases h
      exact hu
    · rw [textOf_of_not_mem hk] at h
      cases h

theorem exists_textOf_iff :
    (∃ t, Template.textOf s.value? p = .ok t) ↔ ∀ k, p = .key k → k ∈ keys := by
  apply Iff.intro
  · intro h k hp
    obtain ⟨t, h⟩ := h
    subst hp
    apply Decidable.by_contra
    intro hk
    rw [textOf_of_not_mem hk] at h
    cases h
  · intro h
    cases p with
    | literal c => exact ⟨[c], rfl⟩
    | key k =>
      obtain ⟨t, ht⟩ := s.exists_substitutes (h k rfl)
      exact ⟨t, ht.textOf_eq⟩

theorem textOf_eq_error_iff :
    Template.textOf s.value? p = .error e ↔
      ∃ k, p = .key k ∧ k ∉ keys ∧ e = .unknownTemplateKey k := by
  apply Iff.intro
  · intro h
    have hp : ¬∀ k, p = .key k → k ∈ keys := by
      intro hp
      obtain ⟨t, ht⟩ := exists_textOf_iff.2 hp
      rw [h] at ht
      cases ht
    simp only [not_forall] at hp
    obtain ⟨k, rfl, hk⟩ := hp
    rw [textOf_of_not_mem hk] at h
    cases h
    exact ⟨k, rfl, hk, rfl⟩
  · intro h
    obtain ⟨k, rfl, hk, rfl⟩ := h
    exact textOf_of_not_mem hk

variable {template text : String}

theorem render_eq_ok_iff :
    s.render template = .ok text ↔
      Template.fill s.value? (Template.parts template.toList) = .ok text.toList := by
  rw [render, Template.render, map_eq_ok_iff]
  apply Iff.intro
  · intro h
    obtain ⟨out, h, rfl⟩ := h
    rwa [String.toList_ofList]
  · exact fun h => ⟨_, h, String.ofList_toList⟩

theorem render_eq_error_iff :
    s.render template = .error e ↔
      Template.fill s.value? (Template.parts template.toList) = .error e := by
  rw [render, Template.render]
  cases Template.fill s.value? (Template.parts template.toList) with
  | error e' =>
    change Except.error e' = Except.error e ↔ _
    rw [Except.error.injEq, Except.error.injEq]
  | ok out => exact ⟨nofun, nofun⟩

theorem exists_fill_iff :
    (∃ out, Template.fill s.value? ps = .ok out) ↔ ∀ k, .key k ∈ ps → k ∈ keys := by
  rw [(Template.checks_fill s.value? 0 ps).ok_iff]
  apply Iff.intro
  · intro h k hk
    exact exists_textOf_iff.1 (h _ hk) k rfl
  · intro h p hp
    apply exists_textOf_iff.2
    intro k hk
    rw [hk] at hp
    exact h k hp

/-- The first key that a script does not know is the error. -/
theorem fill_eq_error_iff :
    Template.fill s.value? ps = .error e ↔
      ∃ before k after, ps = before ++ .key k :: after ∧ (∀ j, .key j ∈ before → j ∈ keys) ∧
        k ∉ keys ∧ e = .unknownTemplateKey k := by
  rw [(Template.checks_fill s.value? 0 ps).error_iff]
  apply Iff.intro
  · intro h
    obtain ⟨before, p, after, rfl, hbefore, hp⟩ := h
    obtain ⟨k, rfl, hk, rfl⟩ := textOf_eq_error_iff.1 hp
    exact ⟨before, k, after, rfl, fun j hj => exists_textOf_iff.1 (hbefore _ hj) j rfl, hk, rfl⟩
  · intro h
    obtain ⟨before, k, after, rfl, hbefore, hk, rfl⟩ := h
    refine ⟨before, .key k, after, rfl, ?_, textOf_of_not_mem hk⟩
    intro p hp
    apply exists_textOf_iff.2
    intro j hj
    rw [hj] at hp
    exact hbefore j hp

/-- A script fills a template exactly if it knows the keys of all parts of its only split, and then
their texts follow one another. Else the first key that it does not know is the error. -/
theorem render_splits (s : ResourceScript) (template : String) :
    ∃ ps, Template.Splits template.toList ps ∧
      (∀ qs, Template.Splits template.toList qs → qs = ps) ∧
      ((∃ text, s.render template = .ok text) ↔ ∀ k, .key k ∈ ps → k ∈ keys) ∧
      (∀ text, s.render template = .ok text ↔
        ∃ texts, List.Forall₂ s.Substitutes ps texts ∧ text.toList = texts.flatten) ∧
      (∀ e, s.render template = .error e ↔
        ∃ before k after, ps = before ++ .key k :: after ∧ (∀ j, .key j ∈ before → j ∈ keys) ∧
          k ∉ keys ∧ e = .unknownTemplateKey k) ∧
      ((∀ k, .key k ∉ ps) → s.render template = .ok template) := by
  have hsplits := Template.splits_parts template.toList
  refine ⟨_, hsplits, fun qs => Template.splits_iff.1, ?_, ?_, ?_, ?_⟩
  · rw [← exists_fill_iff]
    apply Iff.intro
    · intro h
      obtain ⟨text, h⟩ := h
      exact ⟨text.toList, render_eq_ok_iff.1 h⟩
    · intro h
      obtain ⟨out, h⟩ := h
      rw [← String.toList_ofList (l := out)] at h
      exact ⟨_, render_eq_ok_iff.2 h⟩
  · intro text
    simp only [render_eq_ok_iff, Template.fill_eq_ok_iff, ← substitutes_iff]
  · intro e
    rw [render_eq_error_iff, fill_eq_error_iff]
  · intro hk
    rw [render_eq_ok_iff, hsplits.eq_literals hk, Template.fill_literals]

def echoing : ResourceScript :=
  ⟨"x.exe", "1.0@VERSION@", "c"⟩

theorem render_splits_echoing :
    Template.Splits "@@VERSION@@b".toList
        [.literal '@', .key "VERSION", .literal '@', .literal 'b'] ∧
      echoing.render "@@VERSION@@b" = .ok "@1.0@VERSION@@b" ∧
    Template.Splits "a@".toList [.literal 'a', .literal '@'] ∧
      (∀ k, .key k ∉ [TemplatePart.literal 'a', .literal '@']) ∧
      echoing.render "a@" = .ok "a@" := by
  have hsigns : Template.Splits "@@VERSION@@b".toList
      [.literal '@', .key "VERSION", .literal '@', .literal 'b'] := by
    have hkey : Template.IsKey "VERSION".toList := ⟨by decide, List.all_eq_true.1 rfl⟩
    have hend : Template.Splits "@b".toList [.literal '@', .literal 'b'] :=
      .literal (fun _ => Template.readKey_eq_none_iff.1 rfl) (.literal nofun .nil)
    exact .literal (fun _ => Template.readKey_eq_none_iff.1 rfl) (.key hkey hend)
  have hplain : Template.Splits "a@".toList [.literal 'a', .literal '@'] :=
    .literal nofun (.literal (fun _ => Template.readKey_eq_none_iff.1 rfl) .nil)
  have hnone : ∀ k, .key k ∉ [TemplatePart.literal 'a', .literal '@'] := by simp
  obtain ⟨_, -, hunique, -, hok, -, -⟩ := render_splits echoing "@@VERSION@@b"
  obtain rfl := hunique _ hsigns
  obtain ⟨_, -, hunique, -, -, -, hsame⟩ := render_splits echoing "a@"
  obtain rfl := hunique _ hplain
  have htexts : List.Forall₂ echoing.Substitutes
      [.literal '@', .key "VERSION", .literal '@', .literal 'b']
      ["@".toList, "1.0@VERSION@".toList, "@".toList, "b".toList] :=
    .cons (.literal '@') (.cons .version (.cons (.literal '@') (.cons (.literal 'b') .nil)))
  exact ⟨hsigns, (hok _).2 ⟨_, htexts, rfl⟩, hplain, hnone, hsame hnone⟩

end ResourceScript

end BuildDesc
