import BuildDesc.Proofs.Paths
import BuildDesc.Proofs.Spelling

namespace BuildDesc.Path

/-- Drops what leads nowhere from the front of a path that is written backwards: slashes, and dots
with a slash on their other side. -/
def dropIdle : List Char → List Char
  | '/' :: s => dropIdle s
  | '.' :: '/' :: s => dropIdle s
  | s => s

/-- What stands behind the last slash of a path, once the slashes at its end and the dots behind
slashes there are dropped. -/
def lastName (p : String) : List Char :=
  ((dropIdle p.toList.reverse).takeWhile (· ≠ '/')).reverse

/-- Holds of a name that ends with a dot, but not its first character, and an extension behind
it. -/
def HasExtension (name ext : List Char) : Prop :=
  ∃ stem, stem ≠ [] ∧ name = stem ++ '.' :: ext ∧ '.' ∉ ext

def counted (s : List Char) : List (List Char) :=
  (Separated.split '/' s).filter fun s => !isIdle s

section Counting

variable {s t r : List Char}

theorem counted_append (s t : List Char) : counted (s ++ '/' :: t) = counted s ++ counted t := by
  rw [counted, Separated.split_append, List.filter_append]
  rfl

theorem counted_of_not_mem (h : '/' ∉ s) : counted s = if isIdle s then [] else [s] := by
  rw [counted, Separated.split_of_not_mem h]
  cases hs : isIdle s <;> simp [hs]

theorem counted_append_idle (h : '/' ∉ t) (ht : isIdle t = true) (s : List Char) :
    counted (s ++ '/' :: t) = counted s := by
  rw [counted_append, counted_of_not_mem h, if_pos ht, List.append_nil]

theorem counted_dropIdle (r : List Char) : counted (dropIdle r).reverse = counted r.reverse := by
  fun_induction dropIdle r with
  | case1 s ih =>
    rw [ih, List.reverse_cons]
    exact (counted_append_idle List.not_mem_nil rfl s.reverse).symm
  | case2 s ih =>
    rw [ih, List.reverse_cons, List.reverse_cons, List.append_assoc]
    exact (counted_append_idle (by decide) rfl s.reverse).symm
  | case3 s => rfl

theorem isIdle_eq_false_of_dropIdle {name : List Char}
    (h : dropIdle r = name.reverse ++ '/' :: t) : isIdle name = false := by
  rw [isIdle, Bool.or_eq_false_iff, List.isEmpty_eq_false_iff, beq_eq_false_iff_ne]
  fun_induction dropIdle r with
  | case1 s ih => exact ih h
  | case2 s ih => exact ih h
  | case3 s hslash hdot =>
    constructor
    · rintro rfl
      exact hslash t h
    · rintro rfl
      exact hdot t h

theorem not_mem_takeWhile_ne (x : Char) (s : List Char) : x ∉ s.takeWhile (· ≠ x) := by
  intro h
  have hne := List.all_eq_true.1 List.all_takeWhile _ h
  exact of_decide_eq_true hne rfl

theorem eq_takeWhile_ne_append {x c : Char} (h : s.dropWhile (· ≠ x) = c :: t) :
    s = s.takeWhile (· ≠ x) ++ x :: t := by
  have hc := Word.head?_dropWhile (· ≠ x) s c
  rw [h] at hc
  have he : c = x := Decidable.not_not.1 (of_decide_eq_false (hc rfl))
  rw [← he, ← h]
  subst he
  exact List.takeWhile_append_dropWhile.symm

theorem not_mem_lastName (p : String) : '/' ∉ lastName p := by
  intro h
  exact not_mem_takeWhile_ne '/' _ (List.mem_reverse.1 h)

theorem dropIdle_eq (p : String) :
    dropIdle p.toList.reverse = (lastName p).reverse ∨
      ∃ t, dropIdle p.toList.reverse = (lastName p).reverse ++ '/' :: t := by
  rw [lastName, List.reverse_reverse]
  cases hrest : (dropIdle p.toList.reverse).dropWhile (· ≠ '/') with
  | nil =>
    have happend := List.takeWhile_append_dropWhile (p := fun c : Char => decide (c ≠ '/'))
      (l := dropIdle p.toList.reverse)
    rw [hrest, List.append_nil] at happend
    exact .inl happend.symm
  | cons c t => exact .inr ⟨t, eq_takeWhile_ne_append hrest⟩

/-- The name is the last of the segments that count, if any of them does. -/
theorem getLast?_components (p : String) :
    (components p).getLast? = if isIdle (lastName p) then none else some (lastName p) := by
  have hcounted : components p = counted (dropIdle p.toList.reverse).reverse := by
    rw [counted_dropIdle, List.reverse_reverse]
    rfl
  rw [hcounted]
  rcases dropIdle_eq p with h | ⟨t, h⟩
  · rw [h, List.reverse_reverse, counted_of_not_mem (not_mem_lastName p)]
    split <;> rfl
  · have hidle := isIdle_eq_false_of_dropIdle h
    rw [h, List.reverse_append, List.reverse_reverse, List.reverse_cons, List.append_assoc,
      List.singleton_append, counted_append, counted_of_not_mem (not_mem_lastName p), hidle]
    exact List.getLast?_concat

end Counting

section Names

variable {p name : String}

/-- The file name of a path is its name, if that leads somewhere and not upwards. -/
theorem fileName?_eq_some_iff :
    fileName? p = some name ↔
      lastName p = name.toList ∧ isIdle (lastName p) = false ∧ lastName p ≠ ['.', '.'] := by
  have hlast := getLast?_components p
  rw [components] at hlast
  rw [fileName?, hlast]
  cases hidle : isIdle (lastName p) with
  | true => simp
  | false =>
    rw [if_neg Bool.false_ne_true]
    dsimp only
    by_cases hup : lastName p = ['.', '.']
    · simp [hup]
    · rw [if_neg hup, Option.some.injEq]
      apply Iff.intro
      · rintro rfl
        exact ⟨String.toList_ofList.symm, rfl, hup⟩
      · intro h
        rw [h.1, String.ofList_toList]

theorem components_append (folder p : String) :
    components (folder ++ "/" ++ p) = components folder ++ components p := by
  have htext : (folder ++ "/" ++ p).toList = folder.toList ++ '/' :: p.toList := by
    rw [String.toList_append, String.toList_append, List.append_assoc]
    rfl
  rw [components, segments, htext]
  exact counted_append folder.toList p.toList

theorem fileName?_folder (h : isIdle (lastName p) = false) (folder : String) :
    fileName? (folder ++ "/" ++ p) = fileName? p := by
  have hname : (components p).getLast? = some (lastName p) := by
    rw [getLast?_components, h, if_neg Bool.false_ne_true]
  have hlast : (components (folder ++ "/" ++ p)).getLast? = (components p).getLast? := by
    rw [components_append, List.getLast?_append, hname]
    rfl
  rw [components, components] at hlast
  rw [fileName?, fileName?, hlast]

end Names

section Extensions

variable {p e : String} {name ext : List Char}

theorem HasExtension.dot_mem (h : HasExtension name ext) : '.' ∈ name := by
  obtain ⟨stem, -, rfl, -⟩ := h
  exact List.mem_append_right stem List.mem_cons_self

theorem HasExtension.dot_mem_tail (h : HasExtension ('.' :: name) ext) : '.' ∈ name := by
  obtain ⟨stem, hne, hname, -⟩ := h
  obtain ⟨c, cs, rfl⟩ := List.exists_cons_of_ne_nil hne
  rw [(List.cons.inj hname).2]
  exact List.mem_append_right cs List.mem_cons_self

theorem HasExtension.not_mem (h : HasExtension (lastName p) ext) : '.' ∉ ext ∧ '/' ∉ ext := by
  obtain ⟨stem, -, hname, hdot⟩ := h
  refine ⟨hdot, fun hslash => not_mem_lastName p ?_⟩
  rw [hname]
  exact List.mem_append_right stem (List.mem_cons_of_mem '.' hslash)

theorem HasExtension.isIdle_eq_false (h : HasExtension name ext) :
    isIdle name = false := by
  obtain ⟨stem, hne, rfl, -⟩ := h
  obtain ⟨c, cs, rfl⟩ := List.exists_cons_of_ne_nil hne
  cases cs <;> simp [isIdle]

theorem splitName_eq_some_iff :
    (splitName name).2 = some ext ↔ HasExtension name ext := by
  apply Iff.intro
  · intro h
    rw [splitName] at h
    split at h
    · next a c stem hdrop =>
      have hname := congrArg List.reverse (eq_takeWhile_ne_append hdrop)
      cases h
      refine ⟨(c :: stem).reverse, ?_, ?_, ?_⟩
      · exact mt List.reverse_eq_nil_iff.1 (List.cons_ne_nil c stem)
      · rwa [List.reverse_reverse, List.reverse_append, List.reverse_cons,
          List.append_assoc] at hname
      · exact fun h => not_mem_takeWhile_ne '.' _ (List.mem_reverse.1 h)
    · cases h
  · intro h
    obtain ⟨stem, hne, rfl, hext⟩ := h
    have hall : ∀ c ∈ ext.reverse, decide (c ≠ '.') = true := by
      intro c hc
      apply decide_eq_true
      rintro rfl
      exact hext (List.mem_reverse.1 hc)
    have hdot : ∀ c ∈ ('.' :: stem.reverse).head?, decide (c ≠ '.') = false := by
      intro c hc
      cases hc
      rfl
    obtain ⟨htake, hdrop⟩ := Word.takeWhile_append_eq hall hdot
    obtain ⟨c, cs, hstem⟩ := List.exists_cons_of_ne_nil (mt List.reverse_eq_nil_iff.1 hne)
    -- the last dot of the name is the first one of what is split
    have hreverse : (stem ++ '.' :: ext).reverse = ext.reverse ++ '.' :: stem.reverse := by
      simp
    rw [splitName, hreverse, htake, hdrop, hstem]
    exact congrArg some (List.reverse_reverse ext)

theorem extension?_eq_some_iff :
    extension? p = some e ↔ lastName p ≠ ['.', '.'] ∧ HasExtension (lastName p) e.toList := by
  rw [extension?, Option.bind_eq_some_iff]
  apply Iff.intro
  · intro h
    obtain ⟨name, hname, hext⟩ := h
    obtain ⟨hlast, -, hup⟩ := fileName?_eq_some_iff.1 hname
    obtain ⟨ext, hsplit, rfl⟩ := Option.map_eq_some_iff.1 hext
    rw [String.toList_ofList]
    exact ⟨hup, hlast ▸ splitName_eq_some_iff.1 hsplit⟩
  · intro h
    obtain ⟨hup, hext⟩ := h
    have hname : fileName? p = some (String.ofList (lastName p)) :=
      fileName?_eq_some_iff.2 ⟨String.toList_ofList.symm, hext.isIdle_eq_false, hup⟩
    refine ⟨_, hname, ?_⟩
    rw [String.toList_ofList, splitName_eq_some_iff.2 hext, Option.map_some, String.ofList_toList]

theorem extension?_folder (h : isIdle (lastName p) = false) (folder : String) :
    extension? (folder ++ "/" ++ p) = extension? p := by
  rw [extension?, extension?, fileName?_folder h]

end Extensions

end BuildDesc.Path
