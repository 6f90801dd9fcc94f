import BuildDesc.Resolution

namespace BuildDesc.Clause

/-- The clauses at a level, when `choose` decides which branch of a clause counts. -/
def level (choose : Clause → Option (Branch Clause)) (cs : List Clause) : Nat → List Clause
  | 0 => cs
  | i + 1 => ((level choose cs i).filterMap choose).flatMap Branch.nested

def blocksAt (choose : Clause → Option (Branch Clause)) (cs : List Clause) (i : Nat) :
    List (Dict Value) :=
  ((level choose cs i).filterMap choose).map Branch.block

/-- The blocks chosen at the first `n` levels, level by level. -/
def blocksBelow (choose : Clause → Option (Branch Clause)) (cs : List Clause) (n : Nat) :
    List (Dict Value) :=
  (List.range n).flatMap (blocksAt choose cs)

variable {choose : Clause → Option (Branch Clause)} {cs : List Clause} {i m n : Nat}

theorem level_succ (choose : Clause → Option (Branch Clause)) (cs : List Clause) (i : Nat) :
    level choose cs (i + 1) = level choose (level choose cs 1) i := by
  induction i with
  | zero => rfl
  | succ i ih =>
    rw [level, ih]
    rfl

theorem level_eq_nil_of_le (h : level choose cs n = []) (hle : n ≤ m) :
    level choose cs m = [] := by
  induction hle with
  | refl => exact h
  | step _ ih => rw [level, ih, List.filterMap_nil, List.flatMap_nil]

theorem blocksAt_eq_nil (h : level choose cs i = []) : blocksAt choose cs i = [] := by
  rw [blocksAt, h, List.filterMap_nil, List.map_nil]

theorem blocksAt_succ (choose : Clause → Option (Branch Clause)) (cs : List Clause) (i : Nat) :
    blocksAt choose cs (i + 1) = blocksAt choose (level choose cs 1) i := by
  rw [blocksAt, level_succ]
  rfl

theorem blocksBelow_zero (choose : Clause → Option (Branch Clause)) (cs : List Clause) :
    blocksBelow choose cs 0 = [] :=
  rfl

theorem blocksBelow_succ (choose : Clause → Option (Branch Clause)) (cs : List Clause)
    (n : Nat) :
    blocksBelow choose cs (n + 1) =
      blocksAt choose cs 0 ++ blocksBelow choose (level choose cs 1) n := by
  rw [blocksBelow, List.range_succ_eq_map, List.flatMap_cons, List.flatMap_map]
  simp only [blocksAt_succ]
  rfl

theorem blocksBelow_eq_of_le (h : level choose cs n = []) (hle : n ≤ m) :
    blocksBelow choose cs m = blocksBelow choose cs n := by
  obtain ⟨k, rfl⟩ := Nat.exists_eq_add_of_le hle
  have hnil : ∀ i, blocksAt choose cs (n + i) = [] := by
    intro i
    exact blocksAt_eq_nil (level_eq_nil_of_le h (Nat.le_add_right n i))
  have htail : ((List.range k).map (n + ·)).flatMap (blocksAt choose cs) = [] := by
    rw [List.flatMap_map, List.flatMap_eq_nil_iff]
    exact fun i _ => hnil i
  rw [blocksBelow, List.range_add, List.flatMap_append, htail, List.append_nil]
  rfl

variable {b : Bindings} {found : Buckets}

theorem pending_eq (b : Bindings) (cs : List Clause) :
    pending b cs = level (selected? b) cs 1 :=
  rfl

theorem gather_eq (b : Bindings) (found : Buckets) (cs : List Clause) :
    gather b found cs = (blocksAt (selected? b) cs 0).foldl .merge found :=
  rfl

theorem resolveFrom_of_isEmpty (h : (pending b cs).isEmpty) (number : Nat) (found : Buckets)
    (later : Nat) : (resolveFrom b number found cs later).result = .ok (gather b found cs) := by
  rw [resolveFrom.eq_def, Traced.result_bind, if_pos h]
  rfl

theorem resolveFrom_zero (h : ¬(pending b cs).isEmpty) (number : Nat) (found : Buckets) :
    (resolveFrom b number found cs 0).result = .error (.tooManyRounds number) := by
  rw [resolveFrom, Traced.result_bind, if_neg h]
  rfl

theorem resolveFrom_succ (h : ¬(pending b cs).isEmpty) (number : Nat) (found : Buckets)
    (later : Nat) :
    (resolveFrom b number found cs (later + 1)).result =
      (resolveFrom b (number + 1) (gather b found cs) (pending b cs) later).result := by
  rw [resolveFrom, Traced.result_bind, if_neg h, Traced.result_bind]
  rfl

/-- A run of rounds goes through the levels: `later + 1` of them are merged, and the level after
them has to be empty. -/
theorem resolveFrom_result (b : Bindings) (number : Nat) (found : Buckets) (cs : List Clause)
    (later : Nat) :
    (resolveFrom b number found cs later).result =
      if (level (selected? b) cs (later + 1)).isEmpty then
        .ok ((blocksBelow (selected? b) cs (later + 1)).foldl .merge found)
      else .error (.tooManyRounds (number + later)) := by
  induction later generalizing number found cs with
  | zero =>
    rw [Nat.zero_add, blocksBelow_succ, blocksBelow_zero, List.append_nil, ← gather_eq,
      ← pending_eq]
    by_cases h : (pending b cs).isEmpty
    · rw [resolveFrom_of_isEmpty h, if_pos h]
    · rw [resolveFrom_zero h, if_neg h]
      rfl
  | succ later ih =>
    rw [level_succ, blocksBelow_succ, List.foldl_append, ← gather_eq, ← pending_eq]
    by_cases h : (pending b cs).isEmpty
    · -- every further level is empty as well, so the blocks below it add nothing
      have hnil : level (selected? b) (pending b cs) 0 = [] := List.isEmpty_iff.1 h
      have hlevel := level_eq_nil_of_le hnil (Nat.zero_le (later + 1))
      rw [resolveFrom_of_isEmpty h, hlevel, blocksBelow_eq_of_le hnil (Nat.zero_le (later + 1))]
      rfl
    · rw [resolveFrom_succ h, ih, Nat.add_right_comm, Nat.add_assoc]

theorem rounds_eq (maxRounds : Nat) : maxRounds - 1 + 1 = max 1 maxRounds := by
  omega

theorem resolve_result_of_eq_nil {maxRounds : Nat}
    (h : level (selected? b) cs (max 1 maxRounds) = []) :
    (resolve b maxRounds cs).result =
      .ok (.ofBlocks (blocksBelow (selected? b) cs (max 1 maxRounds))) := by
  rw [resolve, resolveFrom_result, rounds_eq, h]
  rfl

theorem resolve_result_of_ne_nil {maxRounds : Nat}
    (h : level (selected? b) cs (max 1 maxRounds) ≠ []) :
    (resolve b maxRounds cs).result = .error (.tooManyRounds (max 1 maxRounds)) := by
  rw [resolve, resolveFrom_result, rounds_eq, Nat.add_comm 1, rounds_eq, if_neg]
  exact fun hempty => h (List.isEmpty_iff.1 hempty)

theorem resolve_eq_ok_iff {maxRounds : Nat} {found : Buckets} :
    (resolve b maxRounds cs).result = .ok found ↔
      level (selected? b) cs (max 1 maxRounds) = [] ∧
        found = .ofBlocks (blocksBelow (selected? b) cs (max 1 maxRounds)) := by
  apply Iff.intro
  · intro h
    by_cases hl : level (selected? b) cs (max 1 maxRounds) = []
    · rw [resolve_result_of_eq_nil hl] at h
      exact ⟨hl, (Except.ok.inj h).symm⟩
    · rw [resolve_result_of_ne_nil hl] at h
      cases h
  · intro h
    obtain ⟨hl, rfl⟩ := h
    exact resolve_result_of_eq_nil hl

theorem exists_resolve_eq_ok_iff {maxRounds : Nat} :
    (∃ found, (resolve b maxRounds cs).result = .ok found) ↔
      level (selected? b) cs (max 1 maxRounds) = [] := by
  simp only [resolve_eq_ok_iff, exists_and_left, exists_eq, and_true]

theorem resolve_eq_error_iff {maxRounds : Nat} {e : Error} :
    (resolve b maxRounds cs).result = .error e ↔
      level (selected? b) cs (max 1 maxRounds) ≠ [] ∧ e = .tooManyRounds (max 1 maxRounds) := by
  apply Iff.intro
  · intro h
    by_cases hl : level (selected? b) cs (max 1 maxRounds) = []
    · rw [resolve_result_of_eq_nil hl] at h
      cases h
    · rw [resolve_result_of_ne_nil hl] at h
      exact ⟨hl, (Except.error.inj h).symm⟩
  · intro h
    obtain ⟨hl, rfl⟩ := h
    exact resolve_result_of_ne_nil hl

end BuildDesc.Clause
