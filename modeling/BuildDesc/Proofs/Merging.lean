import BuildDesc.Buckets

namespace BuildDesc.Buckets

mutual

/-- The contributions of entries, in the order of the document. -/
def flatten : List (String × Value) → List (String × List Value)
  | [] => []
  | (k, v) :: es => flattenAt k v ++ flatten es

def flattenAt (k : String) : Value → List (String × List Value)
  | .list items => [(k, items)]
  | .mapping block => (k, []) :: flatten block.entries
  | _ => [(k, [])]

end

def valuesOf (category : String) (cs : List (String × List Value)) : List Value :=
  (cs.filter fun c => c.1 == category).flatMap Prod.snd

/-- Adds contributions one after another. -/
def extendAll (b : Buckets) (cs : List (String × List Value)) : Buckets :=
  cs.foldl (fun b c => b.extend c.1 c.2) b

variable {b c : Buckets} {category : String} {cs ds : List (String × List Value)}

theorem valuesOf_nil (category : String) : valuesOf category [] = [] :=
  rfl

theorem valuesOf_cons (category : String) (e : String × List Value)
    (cs : List (String × List Value)) :
    valuesOf category (e :: cs) =
      if e.1 = category then e.2 ++ valuesOf category cs else valuesOf category cs := by
  by_cases h : e.1 = category
  · simp [valuesOf, h]
  · simp [valuesOf, h]

theorem valuesOf_append (category : String) (cs ds : List (String × List Value)) :
    valuesOf category (cs ++ ds) = valuesOf category cs ++ valuesOf category ds := by
  rw [valuesOf, List.filter_append, List.flatMap_append]
  rfl

theorem valuesOf_eq_nil (h : category ∉ cs.map Prod.fst) : valuesOf category cs = [] := by
  induction cs with
  | nil => rfl
  | cons e cs ih =>
    rw [List.map_cons, List.mem_cons, not_or] at h
    rw [valuesOf_cons, if_neg (Ne.symm h.1), ih h.2]

theorem get?_extendAll (b : Buckets) (category : String) (cs : List (String × List Value)) :
    (b.extendAll cs).get? category =
      if category ∈ cs.map Prod.fst then some (b.values category ++ valuesOf category cs)
      else b.get? category := by
  induction cs generalizing b with
  | nil => rfl
  | cons e cs ih =>
    change ((b.extend e.1 e.2).extendAll cs).get? category = _
    rw [ih, values, get?_extend, valuesOf_cons]
    by_cases he : e.1 = category
    · subst he
      by_cases hm : e.1 ∈ cs.map Prod.fst
      · simp [hm, List.append_assoc]
      · simp [hm, valuesOf_eq_nil hm]
    · simp only [he, if_false, List.map_cons, List.mem_cons, Ne.symm he, false_or]
      rfl

theorem extendAll_append (b : Buckets) (cs ds : List (String × List Value)) :
    b.extendAll (cs ++ ds) = (b.extendAll cs).extendAll ds :=
  List.foldl_append

mutual

theorem mergeEntries_eq : ∀ (b : Buckets) (es : List (String × Value)),
    b.mergeEntries es = b.extendAll (flatten es)
  | b, [] => by
    rw [mergeEntries, flatten]
    rfl
  | b, (k, v) :: es => by
    rw [mergeEntries, flatten, extendAll_append, ← mergeEntry_eq b k v]
    exact mergeEntries_eq (b.mergeEntry k v) es

theorem mergeEntry_eq : ∀ (b : Buckets) (k : String) (v : Value),
    b.mergeEntry k v = b.extendAll (flattenAt k v)
  | b, k, .mapping ⟨es⟩ => by
    rw [mergeEntry, flattenAt]
    exact mergeEntries_eq (b.extend k []) es
  | b, k, .list items => by
    rw [mergeEntry, flattenAt]
    rfl
  | b, k, .text _ | b, k, .integer _ | b, k, .boolean _ | b, k, .null => by
    rw [mergeEntry, flattenAt] <;> first | rfl | exact fun _ => nofun

end

theorem merge_eq (b : Buckets) (block : Dict Value) :
    b.merge block = b.extendAll (flatten block.entries) :=
  mergeEntries_eq b block.entries

theorem foldl_merge (b : Buckets) (blocks : List (Dict Value)) :
    blocks.foldl merge b = b.extendAll (blocks.flatMap fun d => flatten d.entries) := by
  induction blocks generalizing b with
  | nil => rfl
  | cons d blocks ih => rw [List.foldl_cons, ih, merge_eq, List.flatMap_cons, extendAll_append]

theorem values_extendAll (b : Buckets) (category : String) (cs : List (String × List Value)) :
    (b.extendAll cs).values category = b.values category ++ valuesOf category cs := by
  rw [values, get?_extendAll]
  by_cases h : category ∈ cs.map Prod.fst
  · rw [if_pos h]
    rfl
  · rw [if_neg h, valuesOf_eq_nil h, List.append_nil]
    rfl

theorem ofBlocks_eq (blocks : List (Dict Value)) :
    ofBlocks blocks = extendAll ∅ (blocks.flatMap fun d => flatten d.entries) :=
  foldl_merge ∅ blocks

theorem valuesOf_flatMap {α : Type} (category : String) (f : α → List (String × List Value))
    (as : List α) :
    valuesOf category (as.flatMap f) = as.flatMap fun a => valuesOf category (f a) := by
  induction as with
  | nil => rfl
  | cons a as ih => rw [List.flatMap_cons, valuesOf_append, ih, List.flatMap_cons]

theorem values_ofBlocks (category : String) (blocks : List (Dict Value)) :
    (ofBlocks blocks).values category =
      blocks.flatMap fun d => valuesOf category (flatten d.entries) := by
  rw [ofBlocks_eq, values_extendAll, valuesOf_flatMap]
  rfl

theorem mem_toList {vs : List Value} :
    (category, vs) ∈ c.toList ↔ c.get? category = some vs :=
  Std.ExtTreeMap.mem_toList_iff_getElem?_eq_some

theorem contains_eq (b : Buckets) (category : String) :
    b.contains category = (b.get? category).isSome :=
  Std.ExtTreeMap.contains_eq_isSome_getElem?

theorem mem_map_fst_toList :
    category ∈ c.toList.map Prod.fst ↔ c.contains category = true := by
  rw [contains_eq, Option.isSome_iff_exists, List.mem_map]
  apply Iff.intro
  · intro h
    obtain ⟨⟨k, vs⟩, he, rfl⟩ := h
    exact ⟨vs, mem_toList.1 he⟩
  · intro h
    obtain ⟨vs, hvs⟩ := h
    exact ⟨(category, vs), mem_toList.2 hvs, rfl⟩

/-- A list that names no category twice has for each category what it pairs it with. -/
theorem valuesOf_of_mem {vs : List Value} (hd : (cs.map Prod.fst).Nodup)
    (h : (category, vs) ∈ cs) : valuesOf category cs = vs := by
  induction cs with
  | nil => cases h
  | cons e cs ih =>
    rw [List.map_cons, List.nodup_cons] at hd
    rw [valuesOf_cons]
    rcases List.mem_cons.1 h with he | hm
    · subst he
      rw [if_pos rfl, valuesOf_eq_nil hd.1, List.append_nil]
    · have hne : e.1 ≠ category := by
        intro he
        exact hd.1 (he ▸ List.mem_map_of_mem hm)
      rw [if_neg hne, ih hd.2 hm]

theorem nodup_toList (c : Buckets) : (c.toList.map Prod.fst).Nodup := by
  rw [List.nodup_iff_pairwise_ne, List.pairwise_map]
  apply c.categories.distinct_keys_toList.imp
  intro e f he heq
  exact he (heq ▸ Std.ReflCmp.compare_self)

theorem valuesOf_toList (c : Buckets) (category : String) :
    valuesOf category c.toList = c.values category := by
  cases h : c.get? category with
  | none =>
    have hn : category ∉ c.toList.map Prod.fst := by
      rw [mem_map_fst_toList, contains_eq, h]
      exact Bool.false_ne_true
    rw [valuesOf_eq_nil hn, values, h]
    rfl
  | some vs => rw [valuesOf_of_mem c.nodup_toList (mem_toList.2 h), values, h, Option.getD_some]

theorem get?_append (b c : Buckets) (category : String) :
    (b ++ c).get? category =
      if c.contains category then some (b.values category ++ c.values category)
      else b.get? category := by
  change (b.extendAll c.toList).get? category = _
  rw [get?_extendAll, valuesOf_toList]
  simp only [mem_map_fst_toList]

/-- Appending buckets made of contributions adds these contributions. -/
theorem append_extendAll (b : Buckets) (cs : List (String × List Value)) :
    b ++ extendAll ∅ cs = b.extendAll cs := by
  apply ext_get?
  intro category
  have hc : (extendAll ∅ cs).contains category = true ↔ category ∈ cs.map Prod.fst := by
    rw [contains_eq, get?_extendAll]
    by_cases h : category ∈ cs.map Prod.fst <;> simp [h]
  rw [get?_append, get?_extendAll, values_extendAll]
  simp only [hc, values, get?_empty, Option.getD_none, List.nil_append]

theorem append_ofBlocks (b : Buckets) (blocks : List (Dict Value)) :
    b ++ ofBlocks blocks = blocks.foldl merge b := by
  rw [ofBlocks_eq, append_extendAll, foldl_merge]

end BuildDesc.Buckets
