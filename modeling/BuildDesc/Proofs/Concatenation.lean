import BuildDesc.Proofs.Levels
import BuildDesc.Proofs.Merging

namespace BuildDesc

/-- Holds of two lists and of one that has the items of both, each list in its own order. -/
inductive Interleaves {α : Type} : List α → List α → List α → Prop
  | nil : Interleaves [] [] []
  | left {x xs ys zs} (h : Interleaves xs ys zs) : Interleaves (x :: xs) ys (x :: zs)
  | right {y xs ys zs} (h : Interleaves xs ys zs) : Interleaves xs (y :: ys) (y :: zs)

namespace Interleaves

variable {α β : Type} {xs ys zs xs' ys' zs' : List α}

theorem append (h : Interleaves xs ys zs) (h' : Interleaves xs' ys' zs') :
    Interleaves (xs ++ xs') (ys ++ ys') (zs ++ zs') := by
  induction h with
  | nil => exact h'
  | left _ ih => exact .left ih
  | right _ ih => exact .right ih

theorem of_nil_left (ys : List α) : Interleaves [] ys ys := by
  induction ys with
  | nil => exact .nil
  | cons y ys ih => exact .right ih

theorem of_append (xs ys : List α) : Interleaves xs ys (xs ++ ys) := by
  induction xs with
  | nil => exact of_nil_left ys
  | cons x xs ih => exact .left ih

theorem of_flatMap (f g : β → List α) (bs : List β) :
    Interleaves (bs.flatMap f) (bs.flatMap g) (bs.flatMap fun b => f b ++ g b) := by
  induction bs with
  | nil => exact .nil
  | cons b bs ih =>
    rw [List.flatMap_cons, List.flatMap_cons, List.flatMap_cons]
    exact (of_append (f b) (g b)).append ih

theorem filter_eq {keep : α → Bool} (h : Interleaves xs ys zs) (hys : ∀ y ∈ ys, keep y = false) :
    zs.filter keep = xs.filter keep := by
  induction h with
  | nil => rfl
  | left _ ih => rw [List.filter_cons, List.filter_cons, ih hys]
  | right _ ih =>
    rw [List.forall_mem_cons] at hys
    rw [List.filter_cons_of_neg (Bool.eq_false_iff.1 hys.1), ih hys.2]

end Interleaves

namespace Buckets

theorem contains_ofBlocks {category : String} {blocks : List (Dict Value)} :
    (ofBlocks blocks).contains category ↔
      ∃ d ∈ blocks, category ∈ (flatten d.entries).map Prod.fst := by
  rw [ofBlocks_eq, contains_eq, get?_extendAll, List.map_flatMap, ← List.mem_flatMap]
  by_cases h : category ∈ blocks.flatMap fun d => (flatten d.entries).map Prod.fst
  · simp only [h, if_true, Option.isSome_some]
  · simp only [h, if_false, get?_empty, Option.isSome_none, Bool.false_eq_true]

end Buckets

namespace Clause

variable {choose : Clause → Option (Branch Clause)} {b : Bindings} {cs ds : List Clause}
  {d : Dict Value} {category : String} {n : Nat}

/-- The values that the clauses of round `i` give a category when `cs` is resolved; the first round
has number 0. -/
def contributed (b : Bindings) (cs : List Clause) (category : String) (i : Nat) : List Value :=
  (evaluate b (level (selected? b) cs i)).values category

theorem level_append (choose : Clause → Option (Branch Clause)) (cs ds : List Clause) (i : Nat) :
    level choose (cs ++ ds) i = level choose cs i ++ level choose ds i := by
  induction i with
  | zero => rfl
  | succ i ih => rw [level, level, level, ih, List.filterMap_append, List.flatMap_append]

theorem blocksAt_append (choose : Clause → Option (Branch Clause)) (cs ds : List Clause)
    (i : Nat) : blocksAt choose (cs ++ ds) i = blocksAt choose cs i ++ blocksAt choose ds i := by
  rw [blocksAt, level_append, List.filterMap_append, List.map_append]
  rfl

theorem level_append_eq_nil_iff :
    level choose (cs ++ ds) n = [] ↔ level choose cs n = [] ∧ level choose ds n = [] := by
  rw [level_append, List.append_eq_nil_iff]

theorem mem_blocksBelow_append :
    d ∈ blocksBelow choose (cs ++ ds) n ↔
      d ∈ blocksBelow choose cs n ∨ d ∈ blocksBelow choose ds n := by
  simp only [blocksBelow, List.mem_flatMap, blocksAt_append, List.mem_append, and_or_left,
    exists_or]

theorem contributed_eq (b : Bindings) (cs : List Clause) (category : String) (i : Nat) :
    contributed b cs category i =
      (blocksAt (selected? b) cs i).flatMap fun d =>
        Buckets.valuesOf category (Buckets.flatten d.entries) :=
  Buckets.values_ofBlocks category (blocksAt (selected? b) cs i)

theorem contributed_append (b : Bindings) (cs ds : List Clause) (category : String) :
    contributed b (cs ++ ds) category = fun i =>
      contributed b cs category i ++ contributed b ds category i := by
  funext i
  rw [contributed_eq, contributed_eq, contributed_eq, blocksAt_append, List.flatMap_append]

theorem values_blocksBelow (b : Bindings) (cs : List Clause) (n : Nat) (category : String) :
    (Buckets.ofBlocks (blocksBelow (selected? b) cs n)).values category =
      (List.range n).flatMap (contributed b cs category) := by
  rw [Buckets.values_ofBlocks, blocksBelow, List.flatMap_assoc]
  simp only [← contributed_eq]

theorem contains_blocksBelow_append :
    (Buckets.ofBlocks (blocksBelow choose (cs ++ ds) n)).contains category ↔
      (Buckets.ofBlocks (blocksBelow choose cs n)).contains category ∨
        (Buckets.ofBlocks (blocksBelow choose ds n)).contains category := by
  simp only [Buckets.contains_ofBlocks, mem_blocksBelow_append, or_and_right, exists_or]

theorem resolve_append_eq_error_iff {maxRounds : Nat} {e : Error} :
    (resolve b maxRounds (cs ++ ds)).result = .error e ↔
      (resolve b maxRounds cs).result = .error e ∨ (resolve b maxRounds ds).result = .error e := by
  rw [resolve_eq_error_iff, resolve_eq_error_iff, resolve_eq_error_iff, ← or_and_right, ne_eq,
    level_append_eq_nil_iff, Classical.not_and_iff_not_or_not]

theorem values_of_resolve {maxRounds : Nat} {found : Buckets}
    (h : (resolve b maxRounds cs).result = .ok found) (category : String) :
    found.values category =
      (List.range (max 1 maxRounds)).flatMap (contributed b cs category) := by
  obtain ⟨-, rfl⟩ := resolve_eq_ok_iff.1 h
  exact values_blocksBelow b cs (max 1 maxRounds) category

/-- Two lists of clauses are resolved as one exactly if both of them are. In each category the
values of the two are interleaved: round by round, and within a round those of the first list
first. -/
theorem resolve_append (b : Bindings) (maxRounds : Nat) (cs ds : List Clause) :
    ((∃ found, (resolve b maxRounds (cs ++ ds)).result = .ok found) ↔
      (∃ found, (resolve b maxRounds cs).result = .ok found) ∧
        ∃ found, (resolve b maxRounds ds).result = .ok found) ∧
    (∀ e, (resolve b maxRounds (cs ++ ds)).result = .error e ↔
      (resolve b maxRounds cs).result = .error e ∨ (resolve b maxRounds ds).result = .error e) ∧
    ∀ found first second, (resolve b maxRounds (cs ++ ds)).result = .ok found →
      (resolve b maxRounds cs).result = .ok first →
      (resolve b maxRounds ds).result = .ok second → ∀ category,
        (found.contains category ↔ first.contains category ∨ second.contains category) ∧
        Interleaves (first.values category) (second.values category) (found.values category) ∧
        first.values category =
          (List.range (max 1 maxRounds)).flatMap (contributed b cs category) ∧
        second.values category =
          (List.range (max 1 maxRounds)).flatMap (contributed b ds category) ∧
        found.values category = (List.range (max 1 maxRounds)).flatMap fun i =>
          contributed b cs category i ++ contributed b ds category i := by
  refine ⟨?_, fun e => resolve_append_eq_error_iff, ?_⟩
  · rw [exists_resolve_eq_ok_iff, exists_resolve_eq_ok_iff, exists_resolve_eq_ok_iff,
      level_append_eq_nil_iff]
  · intro found first second h hfirst hsecond category
    have hvalues := values_of_resolve h category
    rw [contributed_append] at hvalues
    have hleft := values_of_resolve hfirst category
    have hright := values_of_resolve hsecond category
    obtain ⟨-, rfl⟩ := resolve_eq_ok_iff.1 h
    obtain ⟨-, rfl⟩ := resolve_eq_ok_iff.1 hfirst
    obtain ⟨-, rfl⟩ := resolve_eq_ok_iff.1 hsecond
    refine ⟨contains_blocksBelow_append, ?_, hleft, hright, hvalues⟩
    rw [hvalues, hleft, hright]
    exact Interleaves.of_flatMap _ _ _

def defining (word next : String) : Clause :=
  ⟨"True", .boolean true, ⟨⟨[("defines", .list [.text word])]⟩,
    [⟨"True", .boolean true, ⟨⟨[("defines", .list [.text next])]⟩, []⟩, none⟩]⟩, none⟩

theorem resolve_append_defining :
    ∃ found first second,
      (resolve ∅ 2 ([defining "A" "C"] ++ [defining "B" "D"])).result = .ok found ∧
      (resolve ∅ 2 [defining "A" "C"]).result = .ok first ∧
      (resolve ∅ 2 [defining "B" "D"]).result = .ok second ∧
      Interleaves (first.values "defines") (second.values "defines") (found.values "defines") ∧
      found.values "defines" = [.text "A", .text "B", .text "C", .text "D"] := by
  obtain ⟨-, -, h⟩ := resolve_append ∅ 2 [defining "A" "C"] [defining "B" "D"]
  obtain ⟨-, hinterleaves, -⟩ := h _ _ _ rfl rfl rfl "defines"
  refine ⟨_, _, _, rfl, rfl, rfl, hinterleaves, ?_⟩
  decide +kernel

end Clause

end BuildDesc
