import BuildDesc.Proofs.Merging
import BuildDesc.Value.Access

namespace BuildDesc.Buckets

/-- A block that is being merged, with what the buckets hold so far and what is left of the mappings
that are open, the innermost one first. -/
structure Walk where
  found : Buckets
  frames : List (List (String × Value))

namespace Walk

/-- Merges the next entry of the innermost mapping and opens the mapping that it may hold, or closes
the innermost mapping if no entry is left of it. -/
def step? : Walk → Option Walk
  | ⟨_, []⟩ => none
  | ⟨b, [] :: frames⟩ => some ⟨b, frames⟩
  | ⟨b, ((k, .list items) :: es) :: frames⟩ => some ⟨b.extend k items, es :: frames⟩
  | ⟨b, ((k, .mapping block) :: es) :: frames⟩ =>
    some ⟨b.extend k [], block.entries :: es :: frames⟩
  | ⟨b, ((k, _) :: es) :: frames⟩ => some ⟨b.extend k [], es :: frames⟩

/-- What is found when the open mappings are merged one after another. -/
def outcome (w : Walk) : Buckets :=
  w.frames.foldl mergeEntries w.found

variable {w w' : Walk}

theorem outcome_of_step?_eq_none (h : w.step? = none) : w.outcome = w.found := by
  match w, h with
  | ⟨b, []⟩, _ => rfl
  | ⟨b, ((k, v) :: es) :: frames⟩, h => cases v <;> cases h

theorem outcome_of_step? (h : w.step? = some w') : w'.outcome = w.outcome := by
  match w, h with
  | ⟨b, [] :: frames⟩, h =>
    cases h
    rw [outcome, outcome, List.foldl_cons, mergeEntries]
  | ⟨b, ((k, v) :: es) :: frames⟩, h =>
    rw [outcome, outcome, List.foldl_cons, mergeEntries]
    cases v with
    | mapping block =>
      cases h
      rw [mergeEntry, List.foldl_cons, List.foldl_cons]
    | list items =>
      cases h
      rw [mergeEntry, List.foldl_cons]
    | _ =>
      cases h
      simp only [mergeEntry, List.foldl_cons]

theorem sizeOf_frames_lt (h : w.step? = some w') : sizeOf w'.frames < sizeOf w.frames := by
  match w, h with
  | ⟨b, [] :: frames⟩, h =>
    cases h
    simp only [List.cons.sizeOf_spec]
    omega
  | ⟨b, ((k, v) :: es) :: frames⟩, h =>
    cases v with
    | mapping block =>
      obtain ⟨fs⟩ := block
      cases h
      simp only [List.cons.sizeOf_spec, Prod.mk.sizeOf_spec, Value.mapping.sizeOf_spec,
        Dict.mk.sizeOf_spec]
      omega
    | _ =>
      cases h
      simp only [List.cons.sizeOf_spec, Prod.mk.sizeOf_spec]
      omega

def run (w : Walk) : Buckets :=
  match _h : w.step? with
  | none => w.found
  | some w' => run w'
termination_by sizeOf w.frames
decreasing_by exact sizeOf_frames_lt _h

theorem run_eq_outcome (w : Walk) : w.run = w.outcome := by
  fun_induction run w with
  | case1 w h => exact (outcome_of_step?_eq_none h).symm
  | case2 w w' h ih => rw [ih, outcome_of_step? h]

theorem run_eq_merge (b : Buckets) (block : Dict Value) :
    run ⟨b, [block.entries]⟩ = b.merge block :=
  run_eq_outcome ⟨b, [block.entries]⟩

end Walk

/-- Holds of a key and its value at a position, which has the number of an entry in each of the
mappings on the way. -/
inductive Occurs : List (String × Value) → List Nat → String → Value → Prop
  | here {es i k v} (h : es[i]? = some (k, v)) : Occurs es [i] k v
  | inside {es i j block p k v} (h : es[i]? = some (j, .mapping block))
    (hp : Occurs block.entries p k v) : Occurs es (i :: p) k v

structure Occurrence where
  position : List Nat
  key : String
  value : Value

namespace Occurrence

def within (i : Nat) (o : Occurrence) : Occurrence :=
  { o with position := i :: o.position }

def items (o : Occurrence) : List Value :=
  o.value.list?.getD []

def contribution (o : Occurrence) : String × List Value :=
  (o.key, o.items)

end Occurrence

mutual

/-- The occurrences of keys among entries and in the mappings below them, in the order of the
document. The first entry has number `i`. -/
def occurrences (i : Nat) : List (String × Value) → List Occurrence
  | [] => []
  | (k, v) :: es => ⟨[i], k, v⟩ :: ((occurrencesIn v).map (.within i) ++ occurrences (i + 1) es)

def occurrencesIn : Value → List Occurrence
  | .mapping block => occurrences 0 block.entries
  | _ => []

end

variable {i : Nat} {k : String} {v : Value} {p : List Nat} {es : List (String × Value)}
  {o : Occurrence}

mutual

theorem flatten_eq : ∀ (i : Nat) (es : List (String × Value)),
    flatten es = (occurrences i es).map Occurrence.contribution
  | _, [] => by
    rw [flatten, occurrences, List.map_nil]
  | i, (k, v) :: es => by
    rw [flatten, occurrences, flattenAt_eq k v, flatten_eq (i + 1) es, List.map_cons,
      List.map_append, List.map_map]
    rfl

/-- A key has one contribution of its own in front of those from the mapping it may have. -/
theorem flattenAt_eq : ∀ (k : String) (v : Value),
    flattenAt k v = (k, v.list?.getD []) :: (occurrencesIn v).map Occurrence.contribution
  | k, .mapping ⟨es⟩ => by
    rw [flattenAt, occurrencesIn, flatten_eq 0 es]
    rfl
  | k, .list _ | k, .text _ | k, .integer _ | k, .boolean _ | k, .null => by
    simp only [flattenAt, occurrencesIn]
    rfl

end

theorem Occurs.exists_position (h : Occurs es p k v) : ∃ i q, p = i :: q := by
  cases h with
  | here => exact ⟨_, [], rfl⟩
  | inside => exact ⟨_, _, rfl⟩

theorem exists_position_iff :
    (∃ j q, p = (0 + j) :: q ∧ Occurs es (j :: q) k v) ↔ Occurs es p k v := by
  simp only [Nat.zero_add]
  apply Iff.intro
  · intro h
    obtain ⟨j, q, rfl, h⟩ := h
    exact h
  · intro h
    obtain ⟨j, q, rfl⟩ := h.exists_position
    exact ⟨j, q, rfl, h⟩

theorem not_occurs_nil : ¬Occurs [] p k v := by
  intro h
  cases h with
  | here h => cases h
  | inside h => cases h

theorem occurs_zero {e : String × Value} :
    Occurs (e :: es) (0 :: p) k v ↔
      (p = [] ∧ e = (k, v)) ∨ ∃ block, e.2 = .mapping block ∧ Occurs block.entries p k v := by
  apply Iff.intro
  · intro h
    cases h with
    | here h => exact .inl ⟨rfl, Option.some.inj h⟩
    | inside h hp =>
      cases h
      exact .inr ⟨_, rfl, hp⟩
  · intro h
    rcases h with ⟨rfl, rfl⟩ | ⟨block, he, hp⟩
    · exact .here rfl
    · obtain ⟨j, w⟩ := e
      cases he
      exact .inside rfl hp

theorem occurs_succ {e : String × Value} :
    Occurs (e :: es) ((i + 1) :: p) k v ↔ Occurs es (i :: p) k v := by
  apply Iff.intro
  · intro h
    cases h with
    | here h => exact .here h
    | inside h hp => exact .inside h hp
  · intro h
    cases h with
    | here h => exact .here h
    | inside h hp => exact .inside h hp

mutual

theorem mem_occurrences : ∀ {i : Nat} {es : List (String × Value)} {o : Occurrence},
    o ∈ occurrences i es ↔
      ∃ j p, o.position = (i + j) :: p ∧ Occurs es (j :: p) o.key o.value
  | i, [], o => by
    rw [occurrences]
    simp only [List.not_mem_nil, not_occurs_nil, and_false, exists_false]
  | i, (k, v) :: es, o => by
    rw [occurrences, List.mem_cons, List.mem_append, List.mem_map, mem_occurrences]
    apply Iff.intro
    · intro h
      rcases h with rfl | ⟨o, ho, rfl⟩ | ⟨j, p, hp, ho⟩
      · exact ⟨0, [], rfl, .here rfl⟩
      · obtain ⟨block, rfl, ho'⟩ := mem_occurrencesIn.1 ho
        exact ⟨0, o.position, rfl, .inside rfl ho'⟩
      · refine ⟨j + 1, p, ?_, occurs_succ.2 ho⟩
        rw [hp, Nat.add_assoc, Nat.add_comm 1]
    · intro h
      obtain ⟨position, key, value⟩ := o
      obtain ⟨j, p, rfl, ho⟩ := h
      -- what is at entry 0 is that entry itself or inside of its mapping
      cases j with
      | zero =>
        rcases occurs_zero.1 ho with ⟨rfl, he⟩ | ⟨block, he, ho⟩
        · cases he
          exact .inl rfl
        · exact .inr (.inl ⟨⟨p, key, value⟩, mem_occurrencesIn.2 ⟨block, he, ho⟩, rfl⟩)
      | succ j =>
        refine .inr (.inr ⟨j, p, ?_, occurs_succ.1 ho⟩)
        rw [Nat.add_assoc, Nat.add_comm 1]

theorem mem_occurrencesIn : ∀ {v : Value} {o : Occurrence},
    o ∈ occurrencesIn v ↔
      ∃ block, v = .mapping block ∧ Occurs block.entries o.position o.key o.value
  | .mapping ⟨es⟩, o => by
    rw [occurrencesIn, mem_occurrences, exists_position_iff]
    simp only [Value.mapping.injEq, exists_eq_left']
  | .list _, o | .text _, o | .integer _, o | .boolean _, o | .null, o => by
    simp [occurrencesIn]

end

theorem cons_lt_of_mem_occurrences (h : o ∈ occurrences (i + 1) es) (p : List Nat) :
    i :: p < o.position := by
  obtain ⟨j, q, hq, -⟩ := mem_occurrences.1 h
  rw [hq]
  exact List.cons_lt_cons_iff.2 (.inl (by omega))

theorem singleton_lt_of_mem_occurrencesIn (h : o ∈ occurrencesIn v) (i : Nat) :
    [i] < (o.within i).position := by
  obtain ⟨block, -, ho⟩ := mem_occurrencesIn.1 h
  obtain ⟨j, q, hq⟩ := ho.exists_position
  apply List.cons_lt_cons_iff.2
  rw [hq]
  exact .inr ⟨rfl, List.nil_lt_cons j q⟩

mutual

/-- An entry stands before what is in it, and all of that before the next entry. -/
theorem sorted_occurrences : ∀ (i : Nat) (es : List (String × Value)),
    (occurrences i es).Pairwise fun o o' => o.position < o'.position
  | i, [] => by
    rw [occurrences]
    exact .nil
  | i, (k, v) :: es => by
    have hin : ((occurrencesIn v).map (Occurrence.within i)).Pairwise fun o o' =>
        o.position < o'.position :=
      List.pairwise_map.2 ((sorted_occurrencesIn v).imp fun h =>
        List.cons_lt_cons_iff.2 (.inr ⟨rfl, h⟩))
    rw [occurrences, List.pairwise_cons, List.pairwise_append]
    refine ⟨?_, hin, sorted_occurrences (i + 1) es, ?_⟩
    -- positions inside of the entry extend its own, and those of later entries begin with more
    · intro o ho
      rcases List.mem_append.1 ho with ho | ho
      · obtain ⟨o', ho', rfl⟩ := List.mem_map.1 ho
        exact singleton_lt_of_mem_occurrencesIn ho' i
      · exact cons_lt_of_mem_occurrences ho []
    · intro o ho o' ho'
      obtain ⟨u, -, rfl⟩ := List.mem_map.1 ho
      exact cons_lt_of_mem_occurrences ho' u.position

theorem sorted_occurrencesIn : ∀ v : Value,
    (occurrencesIn v).Pairwise fun o o' => o.position < o'.position
  | .mapping ⟨es⟩ => by
    rw [occurrencesIn]
    exact sorted_occurrences 0 es
  | .list _ | .text _ | .integer _ | .boolean _ | .null => by
    simp only [occurrencesIn]
    exact .nil

end

theorem mem_occurrences_zero : o ∈ occurrences 0 es ↔ Occurs es o.position o.key o.value := by
  rw [mem_occurrences, exists_position_iff]

theorem mem_map_fst_flatten :
    k ∈ (flatten es).map Prod.fst ↔ ∃ p v, Occurs es p k v := by
  rw [flatten_eq 0 es, List.map_map, List.mem_map]
  apply Iff.intro
  · intro h
    obtain ⟨o, ho, rfl⟩ := h
    exact ⟨o.position, o.value, mem_occurrences_zero.1 ho⟩
  · intro h
    obtain ⟨p, v, h⟩ := h
    exact ⟨⟨p, k, v⟩, mem_occurrences_zero.2 h, rfl⟩

theorem valuesOf_flatten (k : String) (es : List (String × Value)) :
    valuesOf k (flatten es) =
      ((occurrences 0 es).filter fun o => o.key == k).flatMap Occurrence.items := by
  rw [flatten_eq 0 es, valuesOf, List.filter_map, List.flatMap_map]
  rfl

theorem contains_merge (b : Buckets) (block : Dict Value) (k : String) :
    (b.merge block).contains k ↔ b.contains k ∨ ∃ p v, Occurs block.entries p k v := by
  rw [merge_eq, contains_eq, get?_extendAll, contains_eq, ← mem_map_fst_flatten]
  by_cases h : k ∈ (flatten block.entries).map Prod.fst
  · simp only [h, if_true, Option.isSome_some, or_true]
  · simp only [h, if_false, or_false]

/-- A walk through a block merges it, and each category gets the items of all lists under its key,
at any depth, behind what it had and in the order of the document. -/
theorem merge_occurrences (b : Buckets) (block : Dict Value) :
    Walk.run ⟨b, [block.entries]⟩ = b.merge block ∧
    (∀ k, (b.merge block).contains k ↔ b.contains k ∨ ∃ p v, Occurs block.entries p k v) ∧
    (∀ k, (b.merge block).values k = b.values k ++
      ((occurrences 0 block.entries).filter fun o => o.key == k).flatMap Occurrence.items) ∧
    (∀ k, (∃ p v, Occurs block.entries p k v) ∨ (b.merge block).get? k = b.get? k) ∧
    ((occurrences 0 block.entries).Pairwise fun o o' => o.position < o'.position) ∧
    ∀ o, o ∈ occurrences 0 block.entries ↔ Occurs block.entries o.position o.key o.value := by
  refine ⟨Walk.run_eq_merge b block, contains_merge b block, ?_, ?_,
    sorted_occurrences 0 block.entries, fun o => mem_occurrences_zero⟩
  · intro k
    rw [merge_eq, values_extendAll, valuesOf_flatten]
  · intro k
    rw [merge_eq, get?_extendAll, ← mem_map_fst_flatten]
    by_cases h : k ∈ (flatten block.entries).map Prod.fst
    · exact .inl h
    · exact .inr (if_neg h)

example :
    (Buckets.merge ∅ ⟨[("defines", .list [.text "A"]),
      ("settings", .mapping ⟨[("defines", .list [.text "B"]), ("system", .integer 1)]⟩),
      ("system", .null)]⟩).toList =
        [("defines", [.text "A", .text "B"]), ("settings", []), ("system", [])] := by
  decide +kernel

end BuildDesc.Buckets
