import BuildDesc.Proofs.ValuePrinting
import Mathlib.Data.List.Nodup

namespace BuildDesc

namespace Dict

variable {α : Type}

def insertAll (d : Dict α) (es : List (String × α)) : Dict α :=
  es.foldl (fun d e => d.insert e.1 e.2) d

/-- Holds of the value that the last entry with a key gives it. -/
def LastIn (es : List (String × α)) (k : String) (v : α) : Prop :=
  ∃ before after, es = before ++ (k, v) :: after ∧ k ∉ after.map Prod.fst

/-- Holds of the dictionary that has every key of the entries once, in the order in which the keys
come first, and with the value that comes last. -/
structure Reflects (d : Dict α) (es : List (String × α)) : Prop where
  nodup : d.keys.Nodup
  mem_keys : ∀ k, k ∈ d.keys ↔ k ∈ es.map Prod.fst
  order : d.keys.Pairwise fun j k => (es.map Prod.fst).idxOf j < (es.map Prod.fst).idxOf k
  get?_eq_some : ∀ k v, d.get? k = some v ↔ LastIn es k v
  get?_eq_none : ∀ k, d.get? k = none ↔ k ∉ es.map Prod.fst
  map_entries : d.entries.map Prod.fst = d.keys
  mem_entries : ∀ k v, (k, v) ∈ d.entries ↔ LastIn es k v

variable {d : Dict α} {es fs : List (String × α)} {j k : String} {v w : α}

section Lookup

theorem forall_bne_iff : (∀ e ∈ es, (k != e.1) = true) ↔ k ∉ es.map Prod.fst := by
  simp only [bne_iff_ne, List.mem_map, not_exists, not_and]
  exact forall_congr' fun e => forall_congr' fun _ => ne_comm

theorem lookup_eq_none : es.lookup k = none ↔ k ∉ es.map Prod.fst := by
  rw [List.lookup_eq_none_iff, forall_bne_iff]

theorem lookup_eq_some :
    es.lookup k = some v ↔
      ∃ before after, es = before ++ (k, v) :: after ∧ k ∉ before.map Prod.fst := by
  simp only [List.lookup_eq_some_iff, forall_bne_iff]

/-- The last entry with a key is the first one from the other end. -/
theorem lastIn_iff : LastIn es k v ↔ es.reverse.lookup k = some v := by
  rw [lookup_eq_some]
  apply Iff.intro
  · intro h
    obtain ⟨before, after, rfl, hk⟩ := h
    refine ⟨after.reverse, before.reverse, ?_, ?_⟩
    · rw [List.reverse_append, List.reverse_cons, List.append_assoc]
      rfl
    · rwa [List.map_reverse, List.mem_reverse]
  · intro h
    obtain ⟨before, after, he, hk⟩ := h
    refine ⟨after.reverse, before.reverse, ?_, ?_⟩
    · rw [← List.reverse_reverse es, he, List.reverse_append, List.reverse_cons, List.append_assoc]
      rfl
    · rwa [List.map_reverse, List.mem_reverse]

theorem lastIn_append_singleton :
    LastIn (es ++ [(j, w)]) k v ↔ if k = j then w = v else LastIn es k v := by
  rw [lastIn_iff, List.reverse_append, List.reverse_singleton, List.singleton_append, lookup_cons,
    lastIn_iff]
  split
  · rw [Option.some.injEq]
  · rfl

theorem mem_entries_iff (h : d.keys.Nodup) : (k, v) ∈ d.entries ↔ d.get? k = some v := by
  rw [get?, lookup_eq_some]
  apply Iff.intro
  · intro hm
    obtain ⟨before, after, he⟩ := List.append_of_mem hm
    rw [keys, he, List.map_append, List.nodup_append] at h
    exact ⟨before, after, he, fun hk => h.2.2 k hk k List.mem_cons_self rfl⟩
  · intro hs
    obtain ⟨before, after, he, -⟩ := hs
    rw [he]
    exact List.mem_append_right before List.mem_cons_self

end Lookup

section Keys

theorem map_fst_insertEntry (h : k ∈ es.map Prod.fst) :
    (insertEntry k v es).map Prod.fst = es.map Prod.fst := by
  induction es with
  | nil => exact absurd h List.not_mem_nil
  | cons e es ih =>
    rw [insertEntry]
    split
    · next he => rw [List.map_cons, List.map_cons, he]
    · next he =>
      rw [List.map_cons, List.mem_cons] at h
      rw [List.map_cons, List.map_cons, ih (h.resolve_left (Ne.symm he))]

theorem keys_insert_of_mem (h : k ∈ d.keys) (v : α) : (d.insert k v).keys = d.keys :=
  map_fst_insertEntry h

theorem keys_insert_of_not_mem (h : k ∉ d.keys) (v : α) : (d.insert k v).keys = d.keys ++ [k] := by
  rw [keys, insert, insertEntry_eq_append v h, List.map_append]
  rfl

end Keys

section Runs

theorem reflects_of (hnodup : d.keys.Nodup) (hmem : ∀ k, k ∈ d.keys ↔ k ∈ es.map Prod.fst)
    (horder : d.keys.Pairwise fun j k => (es.map Prod.fst).idxOf j < (es.map Prod.fst).idxOf k)
    (hget : ∀ k v, d.get? k = some v ↔ LastIn es k v) : d.Reflects es where
  nodup := hnodup
  mem_keys := hmem
  order := horder
  get?_eq_some := hget
  get?_eq_none k := by
    rw [get?, lookup_eq_none, ← hmem]
    rfl
  map_entries := rfl
  mem_entries k v := by
    rw [mem_entries_iff hnodup, hget]

theorem reflects_empty : (∅ : Dict α).Reflects [] := by
  refine reflects_of (d := ∅) List.nodup_nil (fun _ => Iff.rfl) List.Pairwise.nil ?_
  intro k v
  rw [lastIn_iff]
  rfl

theorem pairwise_idxOf_append {keys xs : List String} (hmem : ∀ k, k ∈ keys ↔ k ∈ xs)
    (h : keys.Pairwise fun j k => xs.idxOf j < xs.idxOf k) (ys : List String) :
    keys.Pairwise fun j k => (xs ++ ys).idxOf j < (xs ++ ys).idxOf k := by
  apply h.imp_of_mem
  intro j k hj hk hlt
  rwa [List.idxOf_append_of_mem ((hmem j).1 hj), List.idxOf_append_of_mem ((hmem k).1 hk)]

/-- One insertion: a new key comes last, and a key that is there keeps its place. -/
theorem Reflects.insert (h : d.Reflects es) (k : String) (v : α) :
    (d.insert k v).Reflects (es ++ [(k, v)]) := by
  have hmap : (es ++ [(k, v)]).map Prod.fst = es.map Prod.fst ++ [k] := List.map_append
  have hget : ∀ j w, (d.insert k v).get? j = some w ↔ LastIn (es ++ [(k, v)]) j w := by
    intro j w
    rw [get?_insert, lastIn_append_singleton, ← h.get?_eq_some]
    split
    · rw [Option.some.injEq]
    · rfl
  have horder := pairwise_idxOf_append h.mem_keys h.order [k]
  by_cases hk : k ∈ d.keys
  · -- the keys are those that were there, and new entries do not come before their first ones
    have hkeys := keys_insert_of_mem hk v
    refine reflects_of (hkeys ▸ h.nodup) (fun j => ?_) ?_ hget
    · rw [hkeys, hmap, List.mem_append, List.mem_singleton, ← h.mem_keys]
      exact ⟨.inl, fun hj => hj.elim id fun hj => hj ▸ hk⟩
    · rw [hkeys, hmap]
      exact horder
  · have hkeys := keys_insert_of_not_mem hk v
    have hnew : k ∉ es.map Prod.fst := fun hm => hk ((h.mem_keys k).2 hm)
    refine reflects_of ?_ (fun j => ?_) ?_ hget
    · rw [hkeys, ← List.concat_eq_append]
      exact h.nodup.concat hk
    · rw [hkeys, hmap, List.mem_append, List.mem_append, h.mem_keys]
    · rw [hkeys, hmap, List.pairwise_append]
      refine ⟨horder, List.pairwise_singleton _ k, fun i hi j hj => ?_⟩
      rw [List.mem_singleton.1 hj, List.idxOf_append_of_notMem hnew,
        List.idxOf_append_of_mem ((h.mem_keys i).1 hi)]
      exact Nat.lt_add_right _ (List.idxOf_lt_length_of_mem ((h.mem_keys i).1 hi))

theorem Reflects.insertAll (h : d.Reflects es) (fs : List (String × α)) :
    (d.insertAll fs).Reflects (es ++ fs) := by
  induction fs generalizing d es with
  | nil =>
    rw [List.append_nil]
    exact h
  | cons f fs ih =>
    rw [List.append_cons]
    exact ih (h.insert f.1 f.2)

theorem reflects_insertAll (es : List (String × α)) : ((∅ : Dict α).insertAll es).Reflects es :=
  reflects_empty.insertAll es

theorem insertAll_append (d : Dict α) (es fs : List (String × α)) :
    d.insertAll (es ++ fs) = (d.insertAll es).insertAll fs :=
  List.foldl_append

theorem reflects_ofList (es : List (String × α)) : (ofList es).Reflects es :=
  reflects_insertAll es

end Runs

end Dict

namespace Value

section Reading

mutual

theorem IsValue.distinctKeys {s t : List Char} {v : Value} (h : IsValue s t v) :
    v.DistinctKeys := by
  match h with
  | .mk _ h _ => exact h.distinctKeys
termination_by structural h

theorem IsCore.distinctKeys {s t : List Char} {v : Value} (h : IsCore s t v) :
    v.DistinctKeys := by
  match h with
  | @IsCore.mapping _ _ es h =>
    have hes := Dict.reflects_ofList es
    apply DistinctKeys.mapping hes.nodup
    intro e he
    obtain ⟨before, after, hsplit, -⟩ := (hes.mem_entries e.1 e.2).1 he
    apply h.distinctKeys e
    rw [hsplit]
    exact List.mem_append_right before List.mem_cons_self
  | .list h => exact .list h.distinctKeys
  | .text h => exact .text _
  | .integer t hn => exact .integer _
  | .true t => exact .boolean true
  | .false t => exact .boolean false
  | .null t => exact .null
termination_by structural h

theorem IsItems.distinctKeys {s t : List Char} {vs : List Value} (h : IsItems s t vs) :
    ∀ v ∈ vs, v.DistinctKeys := by
  match h with
  | .nil _ => exact List.forall_mem_nil _
  | .last h _ => exact List.forall_mem_singleton.2 h.distinctKeys
  | .cons h hs => exact List.forall_mem_cons.2 ⟨h.distinctKeys, hs.distinctKeys⟩
termination_by structural h

theorem IsEntries.distinctKeys {s t : List Char} {es : List (String × Value)}
    (h : IsEntries s t es) : ∀ e ∈ es, e.2.DistinctKeys := by
  match h with
  | .nil _ => exact List.forall_mem_nil _
  | .last h _ => exact List.forall_mem_singleton.2 h.distinctKeys
  | .cons h hs => exact List.forall_mem_cons.2 ⟨h.distinctKeys, hs.distinctKeys⟩
termination_by structural h

theorem IsEntry.distinctKeys {s t : List Char} {k : String} {v : Value} (h : IsEntry s t k v) :
    v.DistinctKeys := by
  match h with
  | .mk _ _ _ h => exact h.distinctKeys
termination_by structural h

end

theorem distinctKeys_of_parse {s : String} {v : Value} (h : parse s = .ok v) : v.DistinctKeys := by
  rw [parse] at h
  split at h
  · next w hw =>
    cases h
    exact (ofText?_eq_some_iff.1 hw).distinctKeys
  · cases h

/-- Written entries are read by inserting them in turn, whether or not their keys differ. -/
theorem PrintsEntries.parse_eq {es : List (String × Value)} {s : String} {t : List Char}
    (h : PrintsEntries es t) (hes : ∀ e ∈ es, e.2.DistinctKeys)
    (hs : s.toList = '\x7b' :: (t ++ ['\x7d'])) : parse s = .ok (.mapping (Dict.ofList es)) := by
  have hcore : IsCore s.toList [] (.mapping (Dict.ofList es)) := by
    rw [hs]
    exact .mapping (h.isEntries hes ['\x7d'])
  rw [parse, ofText?_eq_some_iff.2 (.mk (.nil _) hcore (.nil []))]
  rfl

end Reading

end Value

namespace Dict

/-- A run of insertions leads to a dictionary with each key once, at the place of its first
insertion and with the value of its last one, and so no value that was read repeats a key. -/
theorem insertions_reflected :
    (∀ {α : Type} (es fs : List (String × α)),
      (ofList es).insertAll fs = (∅ : Dict α).insertAll (es ++ fs) ∧
        ((ofList es).insertAll fs).Reflects (es ++ fs)) ∧
    ∀ s v, Value.parse s = .ok v → v.DistinctKeys := by
  refine ⟨?_, fun s v => Value.distinctKeys_of_parse⟩
  intro α es fs
  exact ⟨(insertAll_append ∅ es fs).symm, (reflects_ofList es).insertAll fs⟩

theorem insertions_reflected_repeated :
    Value.parse "\x7b'a': 1, 'b': 2, 'a': 3\x7d" =
        .ok (.mapping ⟨[("a", .integer 3), ("b", .integer 2)]⟩) ∧
      Value.DistinctKeys (.mapping ⟨[("a", .integer 3), ("b", .integer 2)]⟩) ∧
      ((ofList [("a", 1), ("b", 2)]).insertAll [("a", 3)]).Reflects
        [("a", 1), ("b", 2), ("a", 3)] ∧
      ((ofList [("a", 1), ("b", 2)]).insertAll [("a", 3)]).entries = [("a", 3), ("b", 2)] := by
  have hentry : ∀ k n, Value.PrintsEntry k (.integer n)
      (Quoted.write '\'' k ++ ':' :: ([' '] ++ Numeral.write n)) :=
    fun k n => .mk rfl Value.blanks_space (.integer n)
  have hentries : Value.PrintsEntries [("a", .integer 1), ("b", .integer 2), ("a", .integer 3)] _ :=
    .cons Value.blanks_nil (hentry "a" 1)
      (.cons Value.blanks_space (hentry "b" 2) (.last Value.blanks_space (hentry "a" 3)))
  have hparse : Value.parse "\x7b'a': 1, 'b': 2, 'a': 3\x7d" =
      .ok (.mapping ⟨[("a", .integer 3), ("b", .integer 2)]⟩) := by
    refine hentries.parse_eq ?_ (by decide +kernel)
    simp only [List.forall_mem_cons]
    exact ⟨.integer 1, .integer 2, .integer 3, List.forall_mem_nil _⟩
  obtain ⟨hruns, hread⟩ := insertions_reflected
  exact ⟨hparse, hread _ _ hparse, (hruns _ _).2, rfl⟩

end Dict

end BuildDesc
