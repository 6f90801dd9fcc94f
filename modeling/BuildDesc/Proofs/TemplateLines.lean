import BuildDesc.Proofs.Templates

namespace BuildDesc

namespace Template

/-- Holds of a text that no key goes on behind: an empty one, or one whose last character is neither
an at sign nor part of a word. -/
def Sealed (s : List Char) : Prop :=
  ∀ c ∈ s.getLast?, c ≠ '@' ∧ Word.isTail c = false

theorem sealed_iff {s : List Char} :
    Sealed s ↔ s.getLast?.all fun c => c != '@' && !Word.isTail c := by
  rw [Sealed]
  cases s.getLast? <;> simp

instance : DecidablePred Sealed :=
  fun _ => decidable_of_iff _ sealed_iff.symm

/-- Pieces with a line end behind each of them but the last. -/
def endLines : List (List Char) → List (List Char)
  | [] => []
  | [p] => [p]
  | p :: q :: ps => (p ++ ['\n']) :: endLines (q :: ps)

def lines (text : String) : List String :=
  (endLines (Separated.split '\n' text.toList)).map String.ofList

section Parts

variable {s t : List Char} {ps qs : List TemplatePart} {c : Char}

theorem Sealed.of_append (h : Sealed (s ++ t)) : Sealed t := by
  intro c hc
  apply h c
  rw [List.getLast?_append, Option.mem_def.1 hc]
  rfl

theorem Sealed.of_cons (h : Sealed (c :: s)) : Sealed s :=
  Sealed.of_append (s := [c]) h

/-- A word that goes on behind a text is not what the text ends with. -/
theorem Sealed.not_forall_isTail (h : Sealed ('@' :: s)) : ¬∀ c ∈ s, Word.isTail c = true := by
  intro hs
  have hlast := List.getLast?_eq_some_getLast (List.cons_ne_nil '@' s)
  obtain ⟨hat, htail⟩ := h _ hlast
  rcases List.mem_cons.1 (List.mem_of_getLast? hlast) with hc | hc
  · exact hat hc
  · rw [hs _ hc] at htail
    cases htail

theorem not_opens_append (h : Sealed ('@' :: s)) (hs : ¬Opens s) (t : List Char) :
    ¬Opens (s ++ t) := by
  intro ho
  obtain ⟨w, rest, hw, he⟩ := ho
  rcases List.append_eq_append_iff.1 he with ⟨v, rfl, -⟩ | ⟨v, rfl, hv⟩
  · -- the word runs to the end of the text and perhaps further
    exact h.not_forall_isTail fun c hc => hw.2 c (List.mem_append_left v hc)
  · cases v with
    | nil =>
      rw [List.append_nil] at h
      exact h.not_forall_isTail hw.2
    | cons d v =>
      cases hv
      exact hs ⟨w, v, hw, rfl⟩

/-- What follows a sealed text has no part in how the text splits. -/
theorem Splits.append (h : Splits s ps) (hs : Sealed s) (ht : Splits t qs) :
    Splits (s ++ t) (ps ++ qs) := by
  induction h with
  | nil => exact ht
  | @key w rest ps hw _ ih =>
    have hrest : Sealed rest := Sealed.of_cons (Sealed.of_append (s := '@' :: w) hs)
    have he : '@' :: (w ++ '@' :: rest) ++ t = '@' :: (w ++ '@' :: (rest ++ t)) := by
      rw [List.cons_append, List.append_assoc, List.cons_append]
    rw [he]
    exact .key hw (ih hrest)
  | @literal c s ps hc _ ih =>
    refine .literal ?_ (ih hs.of_cons)
    intro he
    subst he
    exact not_opens_append hs (hc rfl) t

theorem parts_append (hs : Sealed s) (t : List Char) : parts (s ++ t) = parts s ++ parts t :=
  ((splits_parts s).append hs (splits_parts t)).parts_eq

theorem fill_append (value? : String → Option String) (ps qs : List TemplatePart) :
    fill value? (ps ++ qs) = do return (← fill value? ps) ++ (← fill value? qs) := by
  induction ps with
  | nil =>
    rw [List.nil_append]
    cases fill value? qs <;> rfl
  | cons p ps ih =>
    rw [List.cons_append, fill_cons, fill_cons, ih]
    simp only [bind_assoc, pure_bind, List.append_assoc]

end Parts

section Lines

variable {ps : List (List Char)} {l : List Char}

theorem endLines_ne_nil (h : ps ≠ []) : endLines ps ≠ [] := by
  match ps, h with
  | [p], _ => exact List.cons_ne_nil p []
  | p :: q :: ps, _ => exact List.cons_ne_nil _ _

theorem flatten_endLines (ps : List (List Char)) :
    (endLines ps).flatten = Separated.join '\n' ps := by
  induction ps with
  | nil => rfl
  | cons p ps ih =>
    cases ps with
    | nil => rfl
    | cons q ps =>
      rw [endLines, List.flatten_cons, ih, Separated.join, Separated.join,
        List.intercalate_cons_cons]

theorem sealed_of_mem_dropLast (h : l ∈ (endLines ps).dropLast) : Sealed l := by
  induction ps with
  | nil => cases h
  | cons p ps ih =>
    cases ps with
    | nil => cases h
    | cons q ps =>
      rw [endLines, List.dropLast_cons_of_ne_nil (endLines_ne_nil (List.cons_ne_nil q ps))] at h
      rcases List.mem_cons.1 h with rfl | h
      · intro c hc
        rw [List.getLast?_concat] at hc
        cases hc
        decide
      · exact ih h

theorem join_lines (text : String) : String.join (lines text) = text := by
  apply String.toList_inj.1
  rw [String.toList_join, lines, List.flatMap_map]
  simp only [String.toList_ofList]
  rw [List.flatMap_id', flatten_endLines, Separated.join_split]

theorem sealed_of_mem_lines {text line : String} (h : line ∈ (lines text).dropLast) :
    Sealed line.toList := by
  rw [lines, ← List.map_dropLast] at h
  obtain ⟨l, hl, rfl⟩ := List.mem_map.1 h
  rw [String.toList_ofList]
  exact sealed_of_mem_dropLast hl

end Lines

end Template

namespace ResourceScript

variable {s : ResourceScript} {t₁ t₂ : String}

theorem render_append (h : Template.Sealed t₁.toList) :
    s.render (t₁ ++ t₂) = do return (← s.render t₁) ++ (← s.render t₂) := by
  rw [render, render, render, Template.render, Template.render, Template.render,
    String.toList_append, Template.parts_append h, Template.fill_append]
  simp only [map_bind, map_pure, bind_map_left, String.ofList_append]

theorem render_empty (s : ResourceScript) : s.render "" = .ok "" := by
  rw [render, Template.render, String.toList_empty, Template.parts_nil]
  rfl

theorem render_join {ts : List String} (h : ∀ t ∈ ts.dropLast, Template.Sealed t.toList) :
    s.render (String.join ts) = String.join <$> ts.mapM s.render := by
  induction ts with
  | nil => exact s.render_empty
  | cons t ts ih =>
    cases ts with
    | nil =>
      rw [String.join_cons, String.join_nil, String.append_empty, List.mapM_cons, List.mapM_nil]
      simp only [pure_bind, map_bind, map_pure, String.join_cons, String.join_nil,
        String.append_empty, bind_pure]
    | cons u ts =>
      rw [List.dropLast_cons_cons, List.forall_mem_cons] at h
      have hrest := ih h.2
      generalize u :: ts = rest at hrest ⊢
      rw [String.join_cons, render_append h.1, hrest, List.mapM_cons]
      simp only [map_bind, map_pure, bind_map_left, String.join_cons]

/-- Behind a sealed text a template can be cut: its parts, such as its lines, are filled one after
the other, and the first one that fails decides. -/
theorem render_pieces (s : ResourceScript) :
    (∀ t₁ t₂ : String, Template.Sealed t₁.toList →
      s.render (t₁ ++ t₂) = do return (← s.render t₁) ++ (← s.render t₂)) ∧
    (∀ ts : List String, (∀ t ∈ ts.dropLast, Template.Sealed t.toList) →
      s.render (String.join ts) = String.join <$> ts.mapM s.render) ∧
    ∀ template : String, String.join (Template.lines template) = template ∧
      s.render template = String.join <$> (Template.lines template).mapM s.render := by
  refine ⟨fun t₁ t₂ => render_append, fun ts => render_join, fun template => ?_⟩
  have hjoin := Template.join_lines template
  refine ⟨hjoin, ?_⟩
  calc
    s.render template = s.render (String.join (Template.lines template)) := by rw [hjoin]
    _ = String.join <$> (Template.lines template).mapM s.render :=
      render_join fun _ => Template.sealed_of_mem_lines

theorem render_pieces_echoing :
    Template.Sealed "me@\n".toList ∧
      echoing.render ("me@\n" ++ "VERSION@") =
        (do return (← echoing.render "me@\n") ++ (← echoing.render "VERSION@")) ∧
    (∀ t ∈ ["", "me@\n", "VERSION@"].dropLast, Template.Sealed t.toList) ∧
      echoing.render (String.join ["", "me@\n", "VERSION@"]) =
        String.join <$> ["", "me@\n", "VERSION@"].mapM echoing.render := by
  obtain ⟨happend, hjoin, -⟩ := render_pieces echoing
  have hline : Template.Sealed "me@\n".toList := by decide
  have hpieces : ∀ t ∈ ["", "me@\n", "VERSION@"].dropLast, Template.Sealed t.toList := by
    decide
  exact ⟨hline, happend _ _ hline, hpieces, hjoin _ hpieces⟩

end ResourceScript

end BuildDesc
