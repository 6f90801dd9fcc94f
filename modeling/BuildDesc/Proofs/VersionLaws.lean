import BuildDesc.Proofs.Concatenation
import BuildDesc.Proofs.FileVersions

namespace BuildDesc

namespace Separated

variable {sep new : Char} {f : Char → Char} {s : List Char}

theorem length_split (sep : Char) (s : List Char) : (split sep s).length = s.count sep + 1 := by
  induction s with
  | nil => rfl
  | cons c s ih =>
    obtain ⟨p, ps, hs⟩ := exists_split_eq_cons sep s
    by_cases h : c = sep
    · subst h
      rw [split_cons_self, List.length_cons, ih, List.count_cons_self]
    · rw [split_cons_of_ne h hs, List.length_cons, ← List.length_cons, ← hs, ih,
        List.count_cons_of_ne h]

theorem split_map (h : ∀ c ∈ s, f c = new ↔ c = sep) :
    split new (s.map f) = (split sep s).map (List.map f) := by
  induction s with
  | nil => rfl
  | cons c s ih =>
    rw [List.forall_mem_cons] at h
    obtain ⟨p, ps, hs⟩ := exists_split_eq_cons sep s
    have htail := ih h.2
    by_cases hc : c = sep
    · rw [List.map_cons, h.1.2 hc, split_cons_self, htail, hc, split_cons_self]
      rfl
    · rw [hs, List.map_cons] at htail
      rw [List.map_cons, split_cons_of_ne (fun he => hc (h.1.1 he)) htail, split_cons_of_ne hc hs]
      rfl

theorem exists_mem_split {c : Char} (h : c ∈ s) (hc : c ≠ sep) : ∃ p ∈ split sep s, c ∈ p := by
  induction s with
  | nil => exact absurd h List.not_mem_nil
  | cons d s ih =>
    obtain ⟨p, ps, hs⟩ := exists_split_eq_cons sep s
    rw [List.mem_cons] at h
    by_cases hd : d = sep
    · subst hd
      obtain ⟨q, hq, hcq⟩ := ih (h.resolve_left hc)
      rw [split_cons_self]
      exact ⟨q, List.mem_cons_of_mem _ hq, hcq⟩
    · rw [split_cons_of_ne hd hs]
      rcases h with rfl | h
      · exact ⟨c :: p, List.mem_cons_self, List.mem_cons_self⟩
      · obtain ⟨q, hq, hcq⟩ := ih h
        rw [hs, List.mem_cons] at hq
        rcases hq with rfl | hq
        · exact ⟨d :: q, List.mem_cons_self, List.mem_cons_of_mem d hcq⟩
        · exact ⟨q, List.mem_cons_of_mem _ hq, hcq⟩

end Separated

namespace FileVersion

def counts (c : Char) : Bool :=
  c.isDigit || c == '.'

def withDots (fileVersion : String) : String :=
  fileVersion.map fun c => if c = ',' then '.' else c

variable {version other : String} {c : Char}

section Digits

theorem ofVersion_eq_iff :
    ofVersion version = ofVersion other ↔ ∀ i < size, digitsAt version i = digitsAt other i := by
  apply Iff.intro
  · intro h i hi
    have hcomponents := congrArg components h
    rw [components_ofVersion, components_ofVersion, List.map_inj_left] at hcomponents
    exact hcomponents i (List.mem_range.2 hi)
  · intro h
    have hparts : parts version = parts other := by
      rw [parts_eq, parts_eq, List.map_inj_left]
      exact fun i hi => h i (List.mem_range.1 hi)
    rw [ofVersion, ofVersion, hparts]

theorem ofVersion_congr (h : (pieces version).take size = (pieces other).take size) :
    ofVersion version = ofVersion other := by
  rw [ofVersion_eq_iff]
  intro i hi
  have hpiece := congrArg (·[i]?) h
  simp only [List.getElem?_take_of_lt hi] at hpiece
  rw [digitsAt, digitsAt, hpiece]

theorem ofVersion_congr_filter
    (h : version.toList.filter counts = other.toList.filter counts) :
    ofVersion version = ofVersion other := by
  have hparts : parts version = parts other := by
    rw [parts, parts]
    exact congrArg (fun s => (Separated.split '.' s ++ List.replicate size ['0']).take size) h
  rw [ofVersion, ofVersion, hparts]

end Digits

section Appending

theorem length_pieces (version : String) :
    (pieces version).length = version.toList.count '.' + 1 :=
  Separated.length_split '.' version.toList

theorem pieces_append (version further : String) :
    pieces (version ++ "." ++ further) = pieces version ++ pieces further := by
  rw [pieces, String.toList_append, String.toList_append, List.append_assoc]
  exact Separated.split_append '.' version.toList further.toList

theorem ofVersion_append (h : 3 ≤ version.toList.count '.') (further : String) :
    ofVersion (version ++ "." ++ further) = ofVersion version := by
  have hlength : size ≤ (pieces version).length := by
    rw [length_pieces]
    exact Nat.succ_le_succ h
  apply ofVersion_congr
  rw [pieces_append, List.take_append_of_le_length hlength]

/-- A piece that is zero says what is understood of a piece that is not there. -/
theorem ofVersion_append_zero (version : String) :
    ofVersion (version ++ ".0") = ofVersion version := by
  have hzero : "." ++ "0" = ".0" := rfl
  rw [ofVersion_eq_iff, ← hzero, ← String.append_assoc]
  intro i _
  rw [digitsAt, digitsAt, pieces_append]
  rcases Nat.lt_trichotomy i (pieces version).length with h | h | h
  · rw [List.getElem?_append_left h]
  · subst h
    rw [List.getElem?_append_right (Nat.le_refl _), Nat.sub_self,
      List.getElem?_eq_none (Nat.le_refl _)]
    rfl
  · rw [List.getElem?_eq_none (Nat.le_of_lt h), List.getElem?_eq_none]
    rw [List.length_append]
    exact h

end Appending

section Reading

theorem count_ofVersion (version : String) : (ofVersion version).toList.count ',' = 3 := by
  have hlength := length_components_ofVersion version
  rw [components, Separated.length_split] at hlength
  exact Nat.succ.inj hlength

theorem isDigit_of_mem_ofVersion (h : c ∈ (ofVersion version).toList) (hc : c ≠ ',') :
    c.isDigit = true := by
  obtain ⟨p, hp, hcp⟩ := Separated.exists_mem_split h hc
  exact isDigit_of_mem_components hp hcp

/-- The pieces of a file version that is read as a version are its components. -/
theorem pieces_withDots (version : String) :
    pieces (withDots (ofVersion version)) = components (ofVersion version) := by
  have hdot : ∀ c ∈ (ofVersion version).toList, (if c = ',' then '.' else c) = '.' ↔ c = ',' := by
    intro c hc
    by_cases hcomma : c = ','
    · exact iff_of_true (if_pos hcomma) hcomma
    · rw [if_neg hcomma]
      refine iff_of_false ?_ hcomma
      rintro rfl
      exact absurd (isDigit_of_mem_ofVersion hc hcomma) (by decide)
  rw [pieces, withDots, String.toList_map, Separated.split_map hdot]
  refine (List.map_congr_left fun p hp => ?_).trans (List.map_id' _)
  refine (List.map_congr_left fun c hc => ?_).trans (List.map_id' _)
  apply if_neg
  rintro rfl
  exact Separated.not_mem_of_mem_split hp hc

theorem ofVersion_withDots (version : String) :
    ofVersion (withDots (ofVersion version)) = ofVersion version := by
  rw [ofVersion_eq_iff]
  intro i hi
  have hpiece : (pieces (withDots (ofVersion version)))[i]? = some (digitsAt version i) := by
    rw [pieces_withDots, components_ofVersion, List.getElem?_map, List.getElem?_range hi]
    rfl
  rw [digitsAt, hpiece]
  exact List.filter_eq_self.2 fun c hc => isDigit_of_mem_digitsAt hc

end Reading

/-- Holds of a version whose file version is a normal form of it. -/
structure Normalizes (version : String) : Prop where
  commas : (ofVersion version).toList.count ',' = 3
  digits : ∀ c ∈ (ofVersion version).toList, c ≠ ',' → c.isDigit = true
  again : ofVersion (withDots (ofVersion version)) = ofVersion version
  same : ∀ other, ofVersion other = ofVersion version ↔
    ∀ i < size, digitsAt other i = digitsAt version i
  determined : ∀ other, (pieces other).take size = (pieces version).take size →
    ofVersion other = ofVersion version
  ignored : ∀ (inserted : List Char) (longer : String),
    Interleaves version.toList inserted longer.toList → (∀ c ∈ inserted, counts c = false) →
      ofVersion longer = ofVersion version
  beyond : 3 ≤ version.toList.count '.' →
    ∀ further, ofVersion (version ++ "." ++ further) = ofVersion version
  filled : ofVersion (version ++ ".0") = ofVersion version

/-- A file version is its own file version as soon as its commas are dots, and neither characters
other than digits and dots nor pieces behind the fourth change it. -/
theorem ofVersion_normalizes (version : String) : Normalizes version where
  commas := count_ofVersion version
  digits _ hc hcomma := isDigit_of_mem_ofVersion hc hcomma
  again := ofVersion_withDots version
  same _ := ofVersion_eq_iff
  determined _ h := ofVersion_congr h
  ignored _ _ h hinserted := ofVersion_congr_filter (h.filter_eq hinserted)
  beyond h further := ofVersion_append h further
  filled := ofVersion_append_zero version

theorem ofVersion_normalizes_gap :
    Interleaves "1..2.3".toList "v-".toList "v1..2-.3".toList ∧
    ofVersion "v1..2-.3" = "1,,2,3" ∧
    ofVersion (withDots "1,,2,3") = "1,,2,3" ∧
    (pieces "1..2.3.4").take size = (pieces "1..2.3").take size ∧ ofVersion "1..2.3.4" = "1,,2,3" ∧
    3 ≤ "v1..2-.3".toList.count '.' ∧ ofVersion ("v1..2-.3" ++ "." ++ "rc4") = "1,,2,3" := by
  have hinterleaves : Interleaves "1..2.3".toList "v-".toList "v1..2-.3".toList :=
    .right (.left (.left (.left (.left (.right (.left (.left .nil)))))))
  have hinserted : ∀ c ∈ "v-".toList, counts c = false :=
    List.forall_mem_cons.2 ⟨rfl, List.forall_mem_singleton.2 rfl⟩
  have hplain : ofVersion "1..2.3" = "1,,2,3" := rfl
  have hlong : ofVersion "v1..2-.3" = "1,,2,3" := by
    rw [← hplain]
    exact (ofVersion_normalizes "1..2.3").ignored _ _ hinterleaves hinserted
  have hpieces : (pieces "1..2.3.4").take size = (pieces "1..2.3").take size := rfl
  have hdots : 3 ≤ "v1..2-.3".toList.count '.' := by decide
  refine ⟨hinterleaves, hlong, ?_, hpieces, ?_, hdots, ?_⟩
  · rw [← hplain]
    exact (ofVersion_normalizes "1..2.3").again
  · rw [← hplain]
    exact (ofVersion_normalizes "1..2.3").determined "1..2.3.4" hpieces
  · rw [← hlong]
    exact (ofVersion_normalizes "v1..2-.3").beyond hdots "rc4"

end FileVersion

end BuildDesc
