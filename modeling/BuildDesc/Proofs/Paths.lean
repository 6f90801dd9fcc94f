import BuildDesc.Path

namespace BuildDesc

namespace Separated

variable {sep c : Char} {s t p : List Char} {ps : List (List Char)}

theorem split_cons_self (sep : Char) (s : List Char) : split sep (sep :: s) = [] :: split sep s :=
  if_pos rfl

theorem split_cons_of_ne (h : c ≠ sep) (hs : split sep s = p :: ps) :
    split sep (c :: s) = (c :: p) :: ps := by
  rw [split, if_neg h, hs]

theorem exists_split_eq_cons (sep : Char) (s : List Char) : ∃ p ps, split sep s = p :: ps :=
  List.exists_cons_of_ne_nil (split_ne_nil sep s)

/-- The pieces before a separator and those behind it. -/
theorem split_append (sep : Char) (s t : List Char) :
    split sep (s ++ sep :: t) = split sep s ++ split sep t := by
  induction s with
  | nil => exact split_cons_self sep t
  | cons c s ih =>
    obtain ⟨p, ps, hs⟩ := exists_split_eq_cons sep s
    rw [hs] at ih
    by_cases h : c = sep
    · subst h
      rw [List.cons_append, split_cons_self, split_cons_self, ih, hs]
      rfl
    · rw [List.cons_append, split_cons_of_ne h ih, split_cons_of_ne h hs]
      rfl

theorem split_of_not_mem (h : sep ∉ s) : split sep s = [s] := by
  induction s with
  | nil => rfl
  | cons c s ih =>
    rw [List.mem_cons, not_or] at h
    rw [split_cons_of_ne (Ne.symm h.1) (ih h.2)]

theorem not_mem_of_mem_split (h : p ∈ split sep s) : sep ∉ p := by
  induction s generalizing p with
  | nil =>
    rw [List.mem_singleton.1 h]
    exact List.not_mem_nil
  | cons c s ih =>
    obtain ⟨q, ps, hs⟩ := exists_split_eq_cons sep s
    rw [hs] at ih
    by_cases hc : c = sep
    · subst hc
      rw [split_cons_self, hs, List.mem_cons] at h
      rcases h with rfl | h
      · exact List.not_mem_nil
      · exact ih h
    · rw [split_cons_of_ne hc hs, List.mem_cons] at h
      rcases h with rfl | h
      · rw [List.mem_cons, not_or]
        exact ⟨Ne.symm hc, ih List.mem_cons_self⟩
      · exact ih (List.mem_cons_of_mem q h)

end Separated

namespace Path

variable {p name stem folder : String}

/-- The segments of a path that lead somewhere. -/
def components (p : String) : List (List Char) :=
  (segments p).filter fun s => !isIdle s

section Names

theorem not_mem_fileName? (h : fileName? p = some name) : '/' ∉ name.toList := by
  rw [fileName?] at h
  split at h
  · next s hs =>
    split at h
    · cases h
    · cases h
      rw [String.toList_ofList]
      exact Separated.not_mem_of_mem_split (List.mem_filter.1 (List.mem_of_getLast? hs)).1
  · cases h

theorem splitName_subset (name : List Char) : (splitName name).1 ⊆ name := by
  rw [splitName]
  split
  · next c stem hd =>
    have hsub : c :: stem ⊆ name.reverse := by
      apply List.Subset.trans _ (List.dropWhile_sublist (· ≠ '.')).subset
      rw [hd]
      exact List.subset_cons_self _ _
    intro a ha
    exact List.mem_reverse.1 (hsub (List.mem_reverse.1 ha))
  · exact List.Subset.refl name

theorem not_mem_stem? (h : stem? p = some stem) : '/' ∉ stem.toList := by
  obtain ⟨name, hname, rfl⟩ := Option.map_eq_some_iff.1 h
  rw [String.toList_ofList]
  exact fun hm => not_mem_fileName? hname (splitName_subset name.toList hm)

end Names

section Joining

theorem isAbsolute_eq_false (h : '/' ∉ name.toList) : isAbsolute name = false := by
  rw [isAbsolute]
  cases hn : name.toList with
  | nil => rfl
  | cons c cs =>
    rw [hn, List.mem_cons, not_or] at h
    rw [List.head?_cons, beq_eq_false_iff_ne, ne_eq, Option.some.injEq]
    exact Ne.symm h.1

theorem toList_join (h : '/' ∉ name.toList) (folder : String) :
    (folder.toList = [] ∧ (join folder name).toList = name.toList) ∨
      (∃ cs, folder.toList = cs ++ ['/'] ∧ (join folder name).toList = cs ++ '/' :: name.toList) ∨
      folder.toList ≠ [] ∧ (join folder name).toList = folder.toList ++ '/' :: name.toList := by
  rw [join, isAbsolute_eq_false h, if_neg Bool.false_ne_true]
  by_cases hf : folder = ""
  · subst hf
    exact .inl ⟨rfl, congrArg String.toList String.empty_append⟩
  · have hne : folder.toList ≠ [] := fun hn => hf (String.toList_eq_nil_iff.1 hn)
    have hempty : folder.isEmpty = false := by
      rwa [← Bool.not_eq_true, String.isEmpty_iff]
    rw [hempty, Bool.false_or]
    by_cases hs : folder.toList.getLast? == some '/'
    · obtain ⟨cs, hcs⟩ := List.getLast?_eq_some_iff.1 (beq_iff_eq.1 hs)
      refine .inr (.inl ⟨cs, hcs, ?_⟩)
      rw [if_pos hs, String.toList_append, hcs, List.append_assoc]
      rfl
    · refine .inr (.inr ⟨hne, ?_⟩)
      rw [if_neg hs, String.toList_append, String.toList_append, List.append_assoc]
      rfl

/-- Joining a name takes the segments of the folder, without the empty one at the end that a slash
there leaves, and adds the name. -/
theorem segments_join (h : '/' ∉ name.toList) (folder : String) :
    ∃ ss, segments (join folder name) = ss ++ [name.toList] ∧
      (segments folder = ss ∨ segments folder = ss ++ [[]]) := by
  have hname := Separated.split_of_not_mem h
  rcases toList_join h folder with ⟨hf, hj⟩ | ⟨cs, hf, hj⟩ | ⟨-, hj⟩
  · refine ⟨[], ?_, .inr ?_⟩
    · rw [segments, hj, hname]
      rfl
    · rw [segments, hf]
      rfl
  · refine ⟨Separated.split '/' cs, ?_, .inr ?_⟩
    · rw [segments, hj, Separated.split_append, hname]
    · rw [segments, hf, Separated.split_append]
      rfl
  · refine ⟨segments folder, ?_, .inl rfl⟩
    rw [segments, hj, Separated.split_append, hname]
    rfl

theorem isAbsolute_join (h : '/' ∉ name.toList) (folder : String) :
    isAbsolute (join folder name) = isAbsolute folder := by
  have habsolute := isAbsolute_eq_false h
  rw [isAbsolute] at habsolute ⊢
  rw [isAbsolute]
  rcases toList_join h folder with ⟨hf, hj⟩ | ⟨cs, hf, hj⟩ | ⟨hne, hj⟩
  · rw [hj, hf, habsolute]
    rfl
  · rw [hj, hf]
    cases cs <;> rfl
  · obtain ⟨c, cs, hf⟩ := List.exists_cons_of_ne_nil hne
    rw [hj, hf]
    rfl

theorem components_join (h : '/' ∉ name.toList) (hidle : isIdle name.toList = false)
    (folder : String) : components (join folder name) = components folder ++ [name.toList] := by
  obtain ⟨ss, hj, hf⟩ := segments_join h folder
  have hfolder : components folder = ss.filter fun s => !isIdle s := by
    rcases hf with hf | hf
    · rw [components, hf]
    · rw [components, hf, List.filter_append]
      exact List.append_nil _
  rw [hfolder, components, hj, List.filter_append]
  simp [hidle]

end Joining

end Path

end BuildDesc
