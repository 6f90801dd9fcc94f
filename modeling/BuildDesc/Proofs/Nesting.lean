import BuildDesc.Proofs.RawRounds

namespace BuildDesc

def Record.isRound : Record → Bool
  | round _ _ => true
  | _ => false

/-- The number of rounds that resolution went through; each of them but the last leaves a record. -/
def Traced.rounds (run : Traced Buckets) : Nat :=
  run.log.countP Record.isRound + 1

namespace Clause

def branches (c : Clause) : List (Branch Clause) :=
  c.thenBranch :: c.elseBranch.toList

mutual

def deepest : Clause → Nat
  | ⟨_, _, ⟨_, ns⟩, none⟩ => depth ns
  | ⟨_, _, ⟨_, ns⟩, some ⟨_, ms⟩⟩ => max (depth ns) (depth ms)

def deepestIn : List Clause → Nat
  | [] => 0
  | c :: cs => max (deepest c) (deepestIn cs)

/-- An empty list has depth 0, and any other one more than the deepest list in its branches. -/
def depth : List Clause → Nat
  | [] => 0
  | c :: cs => 1 + max (deepest c) (deepestIn cs)

end

variable {choose : Clause → Option (Branch Clause)} {c : Clause} {cs : List Clause}
  {br : Branch Clause} {n : Nat}

theorem mem_branches : br ∈ c.branches ↔ br = c.thenBranch ∨ c.elseBranch = some br := by
  rw [branches, List.mem_cons, Option.mem_toList]

theorem depth_nested_le_deepest (h : br ∈ c.branches) : depth br.nested ≤ deepest c := by
  rcases mem_branches.1 h with rfl | he
  · match c with
    | ⟨_, _, ⟨_, ns⟩, none⟩ =>
      rw [deepest]
    | ⟨_, _, ⟨_, ns⟩, some ⟨_, ms⟩⟩ =>
      rw [deepest]
      exact Nat.le_max_left _ _
  · match c, he with
    | ⟨_, _, ⟨_, ns⟩, some ⟨_, ms⟩⟩, rfl =>
      rw [deepest]
      exact Nat.le_max_right _ _

theorem deepestIn_lt_iff (hn : 0 < n) : deepestIn cs < n ↔ ∀ c ∈ cs, deepest c < n := by
  induction cs with
  | nil =>
    rw [deepestIn]
    exact ⟨fun _ => nofun, fun _ => hn⟩
  | cons c cs ih => rw [deepestIn, Nat.max_lt, List.forall_mem_cons, ih]

theorem depth_le_iff : depth cs ≤ n ↔ ∀ c ∈ cs, deepest c < n := by
  cases cs with
  | nil =>
    rw [depth]
    exact ⟨fun _ => nofun, fun _ => Nat.zero_le n⟩
  | cons c cs =>
    rw [depth, Nat.add_comm, Nat.succ_le_iff, Nat.max_lt, List.forall_mem_cons]
    exact and_congr_right fun hc => deepestIn_lt_iff (Nat.zero_lt_of_lt hc)

theorem eq_nil_of_depth_le_zero (h : depth cs ≤ 0) : cs = [] :=
  List.eq_nil_iff_forall_not_mem.2 fun c hc => Nat.not_lt_zero _ (depth_le_iff.1 h c hc)

/-- One round: whatever branches are chosen, the lists nested in them are less deep together. -/
theorem depth_level_one (hs : Selects choose) (h : depth cs ≤ n + 1) :
    depth (level choose cs 1) ≤ n := by
  rw [depth_le_iff] at h ⊢
  intro d hd
  obtain ⟨br, hbr, hd⟩ := List.mem_flatMap.1 hd
  obtain ⟨c, hc, hbr⟩ := List.mem_filterMap.1 hbr
  calc
    deepest d < depth br.nested := depth_le_iff.1 (Nat.le_refl _) d hd
    _ ≤ deepest c := depth_nested_le_deepest (mem_branches.2 (hs c br hbr))
    _ ≤ n := Nat.le_of_lt_succ (h c hc)

variable {b : Bindings} {number later : Nat} {found : Buckets}

theorem depth_pending (b : Bindings) (h : depth cs ≤ n + 1) : depth (pending b cs) ≤ n :=
  depth_level_one (selects_selected? b) h

theorem resolveFrom_eq_of_isEmpty (h : (pending b cs).isEmpty) (number : Nat) (found : Buckets)
    (later later' : Nat) :
    resolveFrom b number found cs later = resolveFrom b number found cs later' := by
  rw [resolveFrom.eq_def, resolveFrom.eq_def, if_pos h, if_pos h]

/-- Rounds beyond the depth of the clauses are not used. -/
theorem resolveFrom_add (h : depth cs ≤ later + 1) (k : Nat) :
    resolveFrom b number found cs (later + k) = resolveFrom b number found cs later := by
  induction later generalizing number found cs with
  | zero =>
    -- branches of a list that is one level deep have no clauses in them
    have hp := eq_nil_of_depth_le_zero (depth_pending b h)
    exact resolveFrom_eq_of_isEmpty (List.isEmpty_iff.2 hp) number found _ _
  | succ later ih =>
    by_cases hp : (pending b cs).isEmpty
    · exact resolveFrom_eq_of_isEmpty hp number found _ _
    · rw [Nat.add_right_comm, resolveFrom, resolveFrom, ih (depth_pending b h)]

theorem resolve_eq_of_depth_le {maxRounds : Nat} (h : depth cs ≤ maxRounds) :
    resolve b maxRounds cs = resolve b (depth cs) cs := by
  have hdepth : depth cs ≤ depth cs - 1 + 1 := by omega
  have hlater : maxRounds - 1 = depth cs - 1 + (maxRounds - 1 - (depth cs - 1)) := by omega
  rw [resolve, hlater, resolveFrom_add hdepth]
  rfl

theorem countP_isRound_records (b : Bindings) (cs : List Clause) :
    (cs.flatMap (records b)).countP Record.isRound = 0 := by
  rw [List.countP_eq_zero]
  intro r hr
  obtain ⟨c, -, hr⟩ := List.mem_flatMap.1 hr
  rw [records, List.mem_append, List.mem_map, List.mem_singleton] at hr
  rcases hr with ⟨x, -, rfl⟩ | rfl <;> exact Bool.false_ne_true

theorem resolveFrom_log_of_isEmpty (h : (pending b cs).isEmpty) (number : Nat) (found : Buckets)
    (later : Nat) : (resolveFrom b number found cs later).log = cs.flatMap (records b) := by
  rw [resolveFrom.eq_def, Traced.log_bind_of_ok rfl, if_pos h]
  exact List.append_nil _

theorem resolveFrom_log_zero (b : Bindings) (number : Nat) (found : Buckets) (cs : List Clause) :
    (resolveFrom b number found cs 0).log = cs.flatMap (records b) := by
  by_cases h : (pending b cs).isEmpty
  · exact resolveFrom_log_of_isEmpty h number found 0
  · rw [resolveFrom, Traced.log_bind_of_ok rfl, if_neg h]
    exact List.append_nil _

theorem resolveFrom_log_succ (h : ¬(pending b cs).isEmpty) (number : Nat) (found : Buckets)
    (later : Nat) :
    (resolveFrom b number found cs (later + 1)).log =
      cs.flatMap (records b) ++ .round number (pending b cs).length ::
        (resolveFrom b (number + 1) (gather b found cs) (pending b cs) later).log := by
  rw [resolveFrom, Traced.log_bind_of_ok rfl, if_neg h, Traced.log_bind_of_ok rfl]
  rfl

theorem rounds_resolveFrom_le (b : Bindings) (number : Nat) (found : Buckets) (cs : List Clause)
    (later : Nat) : (resolveFrom b number found cs later).rounds ≤ later + 1 := by
  induction later generalizing number found cs with
  | zero =>
    rw [Traced.rounds, resolveFrom_log_zero, countP_isRound_records]
  | succ later ih =>
    by_cases hp : (pending b cs).isEmpty
    · rw [Traced.rounds, resolveFrom_log_of_isEmpty hp, countP_isRound_records]
      omega
    · have hlater := ih (number + 1) (gather b found cs) (pending b cs)
      rw [Traced.rounds] at hlater
      rw [Traced.rounds, resolveFrom_log_succ hp, List.countP_append, countP_isRound_records,
        List.countP_cons_of_pos rfl]
      omega

theorem rounds_resolve_le (b : Bindings) (maxRounds : Nat) (cs : List Clause) :
    (resolve b maxRounds cs).rounds ≤ max 1 maxRounds := by
  rw [resolve, ← rounds_eq]
  exact rounds_resolveFrom_le b 1 ∅ cs (maxRounds - 1)

theorem level_eq_nil_of_depth_le (hs : Selects choose) (h : depth cs ≤ n) :
    level choose cs n = [] := by
  induction n generalizing cs with
  | zero => exact eq_nil_of_depth_le_zero h
  | succ n ih =>
    rw [level_succ]
    exact ih (depth_level_one hs h)

theorem exists_resolve_eq_ok {maxRounds : Nat} (h : depth cs ≤ maxRounds) (b : Bindings) :
    ∃ found, (resolve b maxRounds cs).result = .ok found := by
  have hmax : depth cs ≤ max 1 maxRounds := Nat.le_trans h (Nat.le_max_right _ _)
  exact exists_resolve_eq_ok_iff.2 (level_eq_nil_of_depth_le (selects_selected? b) hmax)

/-- No run takes more rounds than its list is deep, but always one, and all limits from the depth on
lead to the same success. -/
theorem resolve_depth (b : Bindings) (cs : List Clause) :
    (∃ found, ∀ maxRounds, depth cs ≤ maxRounds →
      (resolve b maxRounds cs).result = .ok found) ∧
    (∀ maxRounds, (resolve b maxRounds cs).rounds ≤ max 1 (depth cs)) ∧
    ∀ maxRounds e, (resolve b maxRounds cs).result = .error e → maxRounds < depth cs := by
  refine ⟨?_, ?_, ?_⟩
  · obtain ⟨found, h⟩ := exists_resolve_eq_ok (Nat.le_refl (depth cs)) b
    refine ⟨found, fun maxRounds hle => ?_⟩
    rw [resolve_eq_of_depth_le hle, h]
  · intro maxRounds
    by_cases hle : depth cs ≤ maxRounds
    · rw [resolve_eq_of_depth_le hle]
      exact rounds_resolve_le b (depth cs) cs
    · have h := rounds_resolve_le b maxRounds cs
      omega
  · intro maxRounds e h
    apply Nat.lt_of_not_le
    intro hle
    obtain ⟨found, hok⟩ := exists_resolve_eq_ok hle b
    rw [hok] at h
    cases h

def nestedClause : Clause :=
  ⟨"True", .boolean true, ⟨⟨[("defines", .list [.text "A"])]⟩, []⟩, none⟩

def nestedPair : List Clause :=
  [⟨"True", .boolean true, ⟨nestingBlock, [nestedClause]⟩, none⟩]

theorem resolve_depth_nestedPair :
    depth nestedPair = 2 ∧ (∃ found, (resolve ∅ 2 nestedPair).result = .ok found) ∧
      (resolve ∅ 5 nestedPair).rounds ≤ 2 ∧
      (resolve ∅ 1 nestedPair).result = .error (.tooManyRounds 1) ∧ 1 < depth nestedPair := by
  have hdepth : depth nestedPair = 2 := rfl
  have herror : (resolve ∅ 1 nestedPair).result = .error (.tooManyRounds 1) := rfl
  obtain ⟨⟨found, hok⟩, hrounds, hdeep⟩ := resolve_depth ∅ nestedPair
  exact ⟨hdepth, ⟨found, hok 2 (Nat.le_of_eq hdepth)⟩, hrounds 5, herror, hdeep 1 _ herror⟩

end Clause

end BuildDesc
