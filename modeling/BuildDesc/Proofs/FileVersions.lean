import BuildDesc.Proofs.Paths
import BuildDesc.Resource.FileVersion

namespace BuildDesc

namespace Separated

variable {sep : Char} {ps : List (List Char)}

theorem join_cons_cons (sep : Char) (p q : List Char) (ps : List (List Char)) :
    join sep (p :: q :: ps) = p ++ sep :: join sep (q :: ps) := by
  rw [join, join, List.intercalate_cons_cons, List.append_assoc]
  rfl

theorem split_join (hne : ps ≠ []) (h : ∀ p ∈ ps, sep ∉ p) : split sep (join sep ps) = ps := by
  induction ps with
  | nil => exact absurd rfl hne
  | cons p ps ih =>
    rw [List.forall_mem_cons] at h
    have hp := split_of_not_mem h.1
    cases ps with
    | nil => rwa [join, List.intercalate_singleton]
    | cons q ps =>
      rw [join_cons_cons, split_append, hp, ih (List.cons_ne_nil q ps) h.2]
      rfl

theorem split_filter {keep : Char → Bool} (h : keep sep = true) (s : List Char) :
    split sep (s.filter keep) = (split sep s).map (List.filter keep) := by
  induction s with
  | nil => rfl
  | cons c s ih =>
    obtain ⟨p, ps, hs⟩ := exists_split_eq_cons sep s
    rw [hs, List.map_cons] at ih
    by_cases hc : c = sep
    · subst hc
      rw [List.filter_cons_of_pos h, split_cons_self, split_cons_self, ih, hs]
      rfl
    · rw [split_cons_of_ne hc hs, List.map_cons]
      by_cases hk : keep c = true
      · rw [List.filter_cons_of_pos hk, List.filter_cons_of_pos hk, split_cons_of_ne hc ih]
      · rw [List.filter_cons_of_neg hk, List.filter_cons_of_neg hk, ih]

end Separated

namespace FileVersion

def pieces (version : String) : List (List Char) :=
  Separated.split '.' version.toList

def components (fileVersion : String) : List (List Char) :=
  Separated.split ',' fileVersion.toList

/-- The digits in piece number `i` of a version, or zero if there is no such piece. -/
def digitsAt (version : String) (i : Nat) : List Char :=
  ((pieces version)[i]?.map (List.filter Char.isDigit)).getD ['0']

/-- Holds of the file versions that are four numbers. -/
def IsNumeric (fileVersion : String) : Prop :=
  (components fileVersion).length = size ∧
    ∀ c ∈ components fileVersion, c ≠ [] ∧ ∀ d ∈ c, d.isDigit = true

variable {version : String} {i : Nat} {c : Char}

/-- Filling a list up and cutting it off gives at each place what the list has there, or the
filler. -/
theorem take_append_replicate {α : Type} (xs : List α) (n : Nat) (a : α) :
    (xs ++ List.replicate n a).take n = (List.range n).map fun i => xs[i]?.getD a := by
  apply List.ext_getElem?
  intro i
  rw [List.getElem?_map]
  by_cases hn : i < n
  · rw [List.getElem?_take_of_lt hn, List.getElem?_range hn, Option.map_some]
    by_cases hi : i < xs.length
    · rw [List.getElem?_append_left hi, List.getElem?_eq_getElem hi, Option.getD_some]
    · have hle := Nat.le_of_not_lt hi
      have hlt : i - xs.length < n := Nat.lt_of_le_of_lt (Nat.sub_le _ _) hn
      rw [List.getElem?_append_right hle, List.getElem?_replicate_of_lt hlt,
        List.getElem?_eq_none hle, Option.getD_none]
  · have hle := Nat.le_of_not_lt hn
    rw [List.getElem?_take_eq_none hle, List.getElem?_eq_none (by rwa [List.length_range])]
    rfl

theorem forall_mem_take_iff {α : Type} {P : α → Prop} {xs : List α} {n : Nat} :
    (∀ a ∈ xs.take n, P a) ↔ ∀ i < n, ∀ a ∈ xs[i]?, P a := by
  apply Iff.intro
  · intro h i hi a ha
    apply h a
    rw [List.mem_iff_getElem?]
    refine ⟨i, ?_⟩
    rw [List.getElem?_take_of_lt hi, Option.mem_def.1 ha]
  · intro h a ha
    obtain ⟨i, hi⟩ := List.mem_iff_getElem?.1 ha
    rw [List.getElem?_take, Option.ite_none_right_eq_some] at hi
    exact h i hi.1 a hi.2

/-- The dots are gone with the pieces, so that only the digits are kept. -/
theorem split_numeric (version : String) :
    Separated.split '.' (version.toList.filter fun c => c.isDigit || c == '.') =
      (pieces version).map (List.filter Char.isDigit) := by
  rw [Separated.split_filter rfl]
  apply List.map_congr_left
  intro p hp
  apply List.filter_congr
  intro c hc
  have hdot : (c == '.') = false := by
    rw [beq_eq_false_iff_ne]
    rintro rfl
    exact Separated.not_mem_of_mem_split hp hc
  rw [hdot, Bool.or_false]

theorem parts_eq (version : String) :
    parts version = (List.range size).map (digitsAt version) := by
  rw [parts, split_numeric, take_append_replicate]
  apply List.map_congr_left
  intro i _
  rw [digitsAt, List.getElem?_map]

theorem isDigit_of_mem_digitsAt (h : c ∈ digitsAt version i) : c.isDigit = true := by
  rw [digitsAt] at h
  cases hp : (pieces version)[i]? with
  | none =>
    rw [hp] at h
    rw [List.mem_singleton.1 h]
    rfl
  | some p =>
    rw [hp] at h
    exact (List.mem_filter.1 h).2

theorem digitsAt_ne_nil_iff :
    digitsAt version i ≠ [] ↔ ∀ p ∈ (pieces version)[i]?, p.any Char.isDigit = true := by
  rw [digitsAt]
  cases (pieces version)[i]? with
  | none => simp
  | some p => simp

theorem components_ofVersion (version : String) :
    components (ofVersion version) = (List.range size).map (digitsAt version) := by
  rw [components, ofVersion, String.toList_ofList, parts_eq]
  apply Separated.split_join
  · exact List.cons_ne_nil _ _
  · intro p hp hcomma
    obtain ⟨i, -, rfl⟩ := List.mem_map.1 hp
    exact absurd (isDigit_of_mem_digitsAt hcomma) (by decide)

theorem length_components_ofVersion (version : String) :
    (components (ofVersion version)).length = size := by
  rw [components_ofVersion, List.length_map, List.length_range]

theorem isDigit_of_mem_components {p : List Char} (hp : p ∈ components (ofVersion version))
    (hc : c ∈ p) : c.isDigit = true := by
  rw [components_ofVersion] at hp
  obtain ⟨i, -, rfl⟩ := List.mem_map.1 hp
  exact isDigit_of_mem_digitsAt hc

theorem isNumeric_iff_digitsAt :
    IsNumeric (ofVersion version) ↔ ∀ i < size, digitsAt version i ≠ [] := by
  rw [IsNumeric, and_iff_right (length_components_ofVersion version)]
  apply Iff.intro
  · intro h i hi
    have hmem : digitsAt version i ∈ components (ofVersion version) := by
      rw [components_ofVersion]
      exact List.mem_map_of_mem (List.mem_range.2 hi)
    exact (h _ hmem).1
  · intro h p hp
    refine ⟨?_, fun c hc => isDigit_of_mem_components hp hc⟩
    rw [components_ofVersion] at hp
    obtain ⟨i, hi, rfl⟩ := List.mem_map.1 hp
    exact h i (List.mem_range.1 hi)

theorem isNumeric_ofVersion_iff :
    IsNumeric (ofVersion version) ↔
      ∀ p ∈ (pieces version).take size, p.any Char.isDigit = true := by
  rw [isNumeric_iff_digitsAt, forall_mem_take_iff]
  exact forall₂_congr fun i _ => digitsAt_ne_nil_iff

/-- A file version has four components, the digits of the first four pieces of the version or zero
for a piece that is missing. A piece without a digit leaves its component empty. -/
theorem ofVersion_fourComponents (version : String) :
    components (ofVersion version) = (List.range size).map (digitsAt version) ∧
    (components (ofVersion version)).length = size ∧
    (∀ p ∈ components (ofVersion version), ∀ c ∈ p, c.isDigit = true) ∧
    (IsNumeric (ofVersion version) ↔
      ∀ p ∈ (pieces version).take size, p.any Char.isDigit = true) :=
  ⟨components_ofVersion version, length_components_ofVersion version,
    fun _ hp _ hc => isDigit_of_mem_components hp hc, isNumeric_ofVersion_iff⟩

theorem ofVersion_fourComponents_candidate :
    (∀ p ∈ (pieces "v1.3.4-rc2").take size, p.any Char.isDigit = true) ∧
      IsNumeric (ofVersion "v1.3.4-rc2") := by
  obtain ⟨-, -, -, hnumeric⟩ := ofVersion_fourComponents "v1.3.4-rc2"
  have h : ∀ p ∈ (pieces "v1.3.4-rc2").take size, p.any Char.isDigit = true :=
    List.all_eq_true.1 rfl
  exact ⟨h, hnumeric.2 h⟩

theorem exists_not_isNumeric : ¬∀ version : String, IsNumeric (ofVersion version) := by
  intro h
  have hpiece : digitsAt "" 0 ≠ [] := isNumeric_iff_digitsAt.1 (h "") 0 (by decide)
  exact hpiece rfl

example : ofVersion "1..2" = "1,,2,0" :=
  rfl

end FileVersion

end BuildDesc
