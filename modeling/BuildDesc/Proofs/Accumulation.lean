import BuildDesc.Proofs.Merging

namespace BuildDesc.Buckets

variable {a b c : Buckets} {category : String} {cs ds : List (String × List Value)}

section Monoid

theorem empty_append (c : Buckets) : ∅ ++ c = c := by
  apply ext_get?
  intro category
  rw [get?_append, contains_eq]
  cases h : c.get? category with
  | none => rfl
  | some vs =>
    simp only [values, h, get?_empty, Option.isSome_some, if_true, Option.getD_some,
      Option.getD_none, List.nil_append]

theorem append_empty (b : Buckets) : b ++ ∅ = b :=
  append_extendAll b []

theorem extendAll_toList (c : Buckets) : extendAll ∅ c.toList = c :=
  empty_append c

theorem append_assoc (a b c : Buckets) : a ++ b ++ c = a ++ (b ++ c) := by
  calc
    a ++ b ++ c = a.extendAll (b.toList ++ c.toList) := (extendAll_append a b.toList c.toList).symm
    _ = a ++ extendAll ∅ (b.toList ++ c.toList) := (append_extendAll a _).symm
    _ = a ++ (b ++ c) := by
      rw [extendAll_append, extendAll_toList]
      rfl

theorem ofBlocks_append (xs ys : List (Dict Value)) :
    ofBlocks xs ++ ofBlocks ys = ofBlocks (xs ++ ys) := by
  rw [append_ofBlocks]
  exact List.foldl_append.symm

end Monoid

section Order

/-- Contributions that name no category twice can be taken in any order. -/
theorem valuesOf_perm (hd : (cs.map Prod.fst).Nodup) (h : cs.Perm ds) (category : String) :
    valuesOf category ds = valuesOf category cs := by
  by_cases hm : category ∈ cs.map Prod.fst
  · obtain ⟨⟨k, vs⟩, he, rfl⟩ := List.mem_map.1 hm
    have hd' : (ds.map Prod.fst).Nodup := (h.map Prod.fst).nodup_iff.1 hd
    rw [valuesOf_of_mem hd he, valuesOf_of_mem hd' (h.mem_iff.1 he)]
  · have hm' : category ∉ ds.map Prod.fst := by
      rwa [← (h.map Prod.fst).mem_iff]
    rw [valuesOf_eq_nil hm, valuesOf_eq_nil hm']

theorem extendAll_perm (hd : (cs.map Prod.fst).Nodup) (h : cs.Perm ds) (b : Buckets) :
    b.extendAll ds = b.extendAll cs := by
  apply ext_get?
  intro category
  have hm : category ∈ ds.map Prod.fst ↔ category ∈ cs.map Prod.fst :=
    (h.map Prod.fst).mem_iff.symm
  rw [get?_extendAll, get?_extendAll, valuesOf_perm hd h]
  simp only [hm]

end Order

section Growth

/-- Holds of buckets that have all categories of `b`, each with the values that it has in `b` at the
front. -/
def Extends (b c : Buckets) : Prop :=
  ∀ category vs, b.get? category = some vs → ∃ ws, c.get? category = some (vs ++ ws)

inductive Addition where
  | block (block : Dict Value)
  | buckets (c : Buckets)

def add (b : Buckets) : Addition → Buckets
  | .block block => b.merge block
  | .buckets c => b ++ c

def addAll (b : Buckets) (additions : List Addition) : Buckets :=
  additions.foldl add b

theorem Extends.refl (b : Buckets) : Extends b b := by
  intro category vs h
  refine ⟨[], ?_⟩
  rwa [List.append_nil]

theorem Extends.trans (h : Extends a b) (h' : Extends b c) : Extends a c := by
  intro category vs hvs
  obtain ⟨ws, hws⟩ := h category vs hvs
  obtain ⟨us, hus⟩ := h' category _ hws
  refine ⟨ws ++ us, ?_⟩
  rwa [← List.append_assoc]

theorem extends_extend (b : Buckets) (k : String) (us : List Value) :
    Extends b (b.extend k us) := by
  intro category vs h
  rw [get?_extend]
  by_cases hk : k = category
  · subst hk
    rw [if_pos rfl, values, h]
    exact ⟨us, rfl⟩
  · rw [if_neg hk, h]
    exact ⟨[], by rw [List.append_nil]⟩

theorem extends_extendAll (b : Buckets) (cs : List (String × List Value)) :
    Extends b (b.extendAll cs) := by
  induction cs generalizing b with
  | nil => exact .refl b
  | cons e cs ih => exact (extends_extend b e.1 e.2).trans (ih (b.extend e.1 e.2))

theorem extends_add (b : Buckets) (addition : Addition) : Extends b (b.add addition) := by
  cases addition with
  | block block =>
    rw [add, merge_eq]
    exact extends_extendAll b _
  | buckets c => exact extends_extendAll b c.toList

theorem extends_addAll (b : Buckets) (additions : List Addition) :
    Extends b (b.addAll additions) := by
  induction additions generalizing b with
  | nil => exact .refl b
  | cons addition additions ih => exact (extends_add b addition).trans (ih (b.add addition))

end Growth

/-- Appending buckets agrees with merging blocks, is associative with the empty buckets on either
side and does not depend on the order of categories; additions keep what a category holds. -/
theorem append_monoid :
    (∀ xs ys, ofBlocks xs ++ ofBlocks ys = ofBlocks (xs ++ ys)) ∧
    (∀ a b c : Buckets, a ++ b ++ c = a ++ (b ++ c)) ∧
    (∀ b : Buckets, ∅ ++ b = b ∧ b ++ ∅ = b) ∧
    (∀ (b c : Buckets) (es : List (String × List Value)), es.Perm c.toList →
      es.foldl (fun b e => b.extend e.1 e.2) b = b ++ c) ∧
    ∀ (b : Buckets) (additions : List Addition), Extends b (b.addAll additions) := by
  refine ⟨ofBlocks_append, append_assoc, fun b => ⟨empty_append b, append_empty b⟩, ?_,
    extends_addAll⟩
  intro b c es h
  exact extendAll_perm c.nodup_toList h.symm b

def sample : Buckets :=
  ofBlocks [⟨[("defines", .list [.text "A"]), ("flags", .null)]⟩]

theorem append_monoid_sample :
    [("flags", []), ("defines", [.text "A"])].Perm sample.toList ∧
      [("flags", []), ("defines", [.text "A"])].foldl (fun b e => b.extend e.1 e.2) sample =
        sample ++ sample ∧
      sample.get? "defines" = some [.text "A"] ∧
      ∃ ws, (sample.addAll [.buckets sample, .block ⟨[("flags", .list [.null])]⟩]).get? "defines" =
        some ([.text "A"] ++ ws) := by
  have hperm : [("flags", []), ("defines", [.text "A"])].Perm sample.toList := by
    decide +kernel
  have hdefines : sample.get? "defines" = some [.text "A"] := by
    decide +kernel
  obtain ⟨-, -, -, horder, hgrowth⟩ := append_monoid
  exact ⟨hperm, horder sample sample _ hperm, hdefines, hgrowth sample _ "defines" _ hdefines⟩

end BuildDesc.Buckets
