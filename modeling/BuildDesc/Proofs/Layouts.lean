import BuildDesc.Proofs.Splitting
import BuildDesc.Value.Reader

namespace BuildDesc

namespace Layout

/-- Holds of a text that begins with layout, and of what follows. -/
inductive Gap : List Char → List Char → Prop
  | nil (s : List Char) : Gap s s
  | blank {c : Char} {s t : List Char} (hc : isBlank c = true) (h : Gap s t) : Gap (c :: s) t
  | comment {cs s t : List Char} (hcs : ∀ c ∈ cs, isLineEnd c = false)
    (hs : ∀ c ∈ s.head?, isLineEnd c = true) (h : Gap s t) : Gap ('#' :: (cs ++ s)) t

variable {c : Char} {s t cs : List Char}

theorem isBlank_of_isLineEnd (h : isLineEnd c = true) : isBlank c = true := by
  rw [isBlank, h, Bool.or_true]

theorem begins_eq_false_of_isBlank (h : isBlank c = true) : Token.begins c = false := by
  simp only [isBlank, isLineEnd, Bool.or_eq_true, beq_iff_eq] at h
  rcases h with (rfl | rfl) | rfl | rfl
  all_goals decide

theorem skip_blank (h : isBlank c = true) (s : List Char) : skip (c :: s) = skip s := by
  have hc : c ≠ '#' := by
    intro hc
    subst hc
    cases h
  rw [skip, if_neg hc, if_pos h]

theorem skip_of_begins (h : Token.begins c = true) (s : List Char) : skip (c :: s) = c :: s := by
  have hc : c ≠ '#' := by
    intro hc
    subst hc
    cases h
  have hb : ¬isBlank c = true := by
    intro hb
    rw [begins_eq_false_of_isBlank hb] at h
    cases h
  rw [skip, if_neg hc, if_neg hb]

theorem skipComment_append (h : ∀ c ∈ cs, isLineEnd c = false) (s : List Char) :
    skipComment (cs ++ s) = skipComment s := by
  induction cs with
  | nil => rfl
  | cons c cs ih =>
    rw [List.forall_mem_cons] at h
    have hc : ¬isLineEnd c = true := Bool.eq_false_iff.1 h.1
    rw [List.cons_append, skipComment, if_neg hc, ih h.2]

/-- The line end behind a comment is layout like any other. -/
theorem skipComment_eq_skip (h : ∀ c ∈ s.head?, isLineEnd c = true) : skipComment s = skip s := by
  cases s with
  | nil => rfl
  | cons c cs =>
    have hc : isLineEnd c = true := h c rfl
    rw [skipComment, if_pos hc, skip_blank (isBlank_of_isLineEnd hc)]

theorem skip_eq_of_gap (h : Gap s t) : skip s = skip t := by
  induction h with
  | nil s => rfl
  | blank hc _ ih => rw [skip_blank hc, ih]
  | comment hcs hs _ ih =>
    rw [skip, if_pos rfl, skipComment_append hcs, skipComment_eq_skip hs, ih]

theorem Gap.exists_append (h : Gap s t) : ∃ g, s = g ++ t := by
  induction h with
  | nil s => exact ⟨[], rfl⟩
  | @blank c s t _ _ ih =>
    obtain ⟨g, rfl⟩ := ih
    exact ⟨c :: g, rfl⟩
  | @comment cs s t _ _ _ ih =>
    obtain ⟨g, rfl⟩ := ih
    exact ⟨'#' :: (cs ++ g), by rw [List.cons_append, List.append_assoc]⟩

mutual

theorem gap_skip : ∀ s : List Char, Gap s (skip s)
  | [] => .nil []
  | c :: s => by
    rw [skip]
    by_cases hc : c = '#'
    · rw [if_pos hc]
      obtain ⟨cs, u, rfl, hcs, hu, h⟩ := gap_skipComment s
      subst hc
      exact .comment hcs hu h
    · rw [if_neg hc]
      by_cases hb : isBlank c = true
      · rw [if_pos hb]
        exact .blank hb (gap_skip s)
      · rw [if_neg hb]
        exact .nil (c :: s)

theorem gap_skipComment : ∀ s : List Char, ∃ cs u, s = cs ++ u ∧
    (∀ c ∈ cs, isLineEnd c = false) ∧ (∀ c ∈ u.head?, isLineEnd c = true) ∧ Gap u (skipComment s)
  | [] => ⟨[], [], rfl, nofun, nofun, .nil []⟩
  | c :: s => by
    rw [skipComment]
    by_cases hc : isLineEnd c = true
    · rw [if_pos hc]
      have hhead : ∀ d ∈ (c :: s).head?, isLineEnd d = true := by
        intro d hd
        cases hd
        exact hc
      exact ⟨[], c :: s, rfl, nofun, hhead, .blank (isBlank_of_isLineEnd hc) (gap_skip s)⟩
    · rw [if_neg hc]
      obtain ⟨cs, u, rfl, hcs, hu, h⟩ := gap_skipComment s
      have hall : ∀ d ∈ c :: cs, isLineEnd d = false := by
        rw [List.forall_mem_cons]
        exact ⟨Bool.eq_false_iff.2 hc, hcs⟩
      exact ⟨c :: cs, u, rfl, hall, hu, h⟩

end

end Layout

namespace Value

variable {s t rest : List Char}

theorem Sign.ofChar?_char (t : Sign) : ofChar? t.char = some t := by
  cases t
  all_goals rfl

theorem Sign.read_eq_some_iff {u : Sign} :
    Sign.read s = some (u, rest) ↔ s = u.char :: rest := by
  apply Iff.intro
  · intro h
    cases s with
    | nil => cases h
    | cons c cs =>
      obtain ⟨v, hv, h⟩ := Option.map_eq_some_iff.1 h
      cases h
      have hc := List.find?_some hv
      rw [← beq_iff_eq.1 hc]
  · intro h
    subst h
    rw [Sign.read, Sign.ofChar?_char]
    rfl

def orthography : Orthography lexicon where
  Gap g rest := Layout.Gap (g ++ rest) rest
  sign u := [u.char]
  skip_gap h := Layout.skip_eq_of_gap h
  exists_gap s := by
    have hgap := Layout.gap_skip s
    obtain ⟨g, hg⟩ := hgap.exists_append
    have hgap' : Layout.Gap (g ++ Layout.skip s) (Layout.skip s) := by
      rw [← hg]
      exact hgap
    exact ⟨g, hg, hgap'⟩
  skip_begins cs h := Layout.skip_of_begins h cs
  skip_sign u rest := by
    cases u
    all_goals rfl
  head_sign u := by
    cases u
    all_goals exact ⟨_, _, rfl, by decide⟩
  readSign_iff := Sign.read_eq_some_iff

end Value

end BuildDesc
