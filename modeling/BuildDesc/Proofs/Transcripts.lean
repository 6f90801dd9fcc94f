import BuildDesc.Proofs.Lookups
import BuildDesc.Proofs.Nesting

namespace BuildDesc.Clause

/-- The records of a clause: the name without a binding that its evaluation stops at, if it does,
and then the predicate and whether a branch was selected. -/
inductive Reports (b : Bindings) (c : Clause) : List Record → Prop
  | decided {v merged} (hv : c.condition.eval b = .ok v)
    (hm : merged = true ↔ v = .boolean true ∨ c.elseBranch.isSome) :
    Reports b c [.condition c.predicate merged]
  | stopped {x merged} (hx : c.condition.eval b = .error ⟨x⟩)
    (hm : merged = true ↔ c.elseBranch.isSome) :
    Reports b c [.unbound x, .condition c.predicate merged]

inductive ReportsAll (b : Bindings) : List Clause → List Record → Prop
  | nil : ReportsAll b [] []
  | cons {c cs rs log} (h : Reports b c rs) (hs : ReportsAll b cs log) :
    ReportsAll b (c :: cs) (rs ++ log)

/-- The records of so many rounds, the first of which has the number that is given; between two
rounds the clauses of the next one are counted. -/
inductive Transcript (b : Bindings) : Nat → List Clause → Nat → List Record → Prop
  | last {number cs rs} (h : ReportsAll b cs rs) : Transcript b number cs 1 rs
  | round {number cs rounds rs log} (h : ReportsAll b cs rs)
    (hs : Transcript b (number + 1) (level (selected? b) cs 1) (rounds + 1) log) :
    Transcript b number cs (rounds + 2)
      (rs ++ .round number (level (selected? b) cs 1).length :: log)

/-- Holds of the number of rounds that clauses take: all levels before the last round have clauses,
and after it there are none or the limit is reached. -/
structure Takes (b : Bindings) (limit : Nat) (cs : List Clause) (rounds : Nat) : Prop where
  pos : 0 < rounds
  le_limit : rounds ≤ limit
  pending : ∀ i, 0 < i → i < rounds → level (selected? b) cs i ≠ []
  ends : level (selected? b) cs rounds = [] ∨ rounds = limit

variable {b : Bindings} {c : Clause} {cs : List Clause} {number limit rounds later : Nat}
  {rs log log' : List Record} {found : Buckets}

section Reports

theorem isSome_selected? (b : Bindings) (c : Clause) :
    (c.selected? b).isSome = true ↔ c.condition.holds b = true ∨ c.elseBranch.isSome = true := by
  rw [selected?]
  cases c.condition.holds b <;> simp

theorem records_of_ok {v : Operand} (h : c.condition.eval b = .ok v) :
    records b c = [.condition c.predicate (c.selected? b).isSome] := by
  rw [records, Condition.unbound?, h]
  rfl

theorem records_of_error {x : String} (h : c.condition.eval b = .error ⟨x⟩) :
    records b c = [.unbound x, .condition c.predicate (c.selected? b).isSome] := by
  rw [records, Condition.unbound?, h]
  rfl

theorem reports_iff : Reports b c rs ↔ rs = records b c := by
  have hselected := isSome_selected? b c
  rw [Condition.holds_iff] at hselected
  apply Iff.intro
  · intro h
    cases h with
    | decided hv hm =>
      rw [hv, Except.ok.injEq, ← hm, Bool.eq_iff_iff.symm] at hselected
      rw [records_of_ok hv, hselected]
    | stopped hx hm =>
      rw [hx] at hselected
      simp only [reduceCtorEq, false_or] at hselected
      rw [← hm, Bool.eq_iff_iff.symm] at hselected
      rw [records_of_error hx, hselected]
  · intro h
    subst h
    cases he : c.condition.eval b with
    | ok v =>
      rw [he, Except.ok.injEq] at hselected
      rw [records_of_ok he]
      exact .decided he hselected
    | error e =>
      rw [he] at hselected
      simp only [reduceCtorEq, false_or] at hselected
      rw [records_of_error he]
      exact .stopped he hselected

theorem reportsAll_iff : ReportsAll b cs rs ↔ rs = cs.flatMap (records b) := by
  induction cs generalizing rs with
  | nil =>
    apply Iff.intro
    · intro h
      cases h
      rfl
    · intro h
      subst h
      exact .nil
  | cons c cs ih =>
    rw [List.flatMap_cons]
    apply Iff.intro
    · intro h
      cases h with
      | cons h hs => rw [reports_iff.1 h, ih.1 hs]
    · intro h
      subst h
      exact .cons (reports_iff.2 rfl) (ih.2 rfl)

theorem Reports.level_eq (h : Reports b c rs) : ∀ r ∈ rs, r.level = .trace := by
  cases h with
  | decided =>
    rw [List.forall_mem_singleton]
    rfl
  | stopped =>
    rw [List.forall_mem_cons, List.forall_mem_singleton]
    exact ⟨rfl, rfl⟩

theorem ReportsAll.level_eq (h : ReportsAll b cs rs) : ∀ r ∈ rs, r.level = .trace := by
  induction h with
  | nil => exact List.forall_mem_nil _
  | cons h _ ih => exact List.forall_mem_append.2 ⟨h.level_eq, ih⟩

end Reports

section Runs

theorem Transcript.level_eq (h : Transcript b number cs rounds log) :
    ∀ r ∈ log, r.level = .trace := by
  induction h with
  | last h => exact h.level_eq
  | round h _ ih => exact List.forall_mem_append.2 ⟨h.level_eq, List.forall_mem_cons.2 ⟨rfl, ih⟩⟩

theorem Transcript.unique (h : Transcript b number cs rounds log)
    (h' : Transcript b number cs rounds log') : log = log' := by
  induction h generalizing log' with
  | last h =>
    cases h' with
    | last h' => rw [reportsAll_iff.1 h, reportsAll_iff.1 h']
  | round h _ ih =>
    cases h' with
    | round h' hs' => rw [reportsAll_iff.1 h, reportsAll_iff.1 h', ih hs']

theorem Takes.succ (h : Takes b limit (level (selected? b) cs 1) rounds)
    (hp : level (selected? b) cs 1 ≠ []) : Takes b (limit + 1) cs (rounds + 1) where
  pos := Nat.succ_pos rounds
  le_limit := Nat.succ_le_succ h.le_limit
  pending := by
    intro i hi hlt
    obtain ⟨i, rfl⟩ := Nat.exists_eq_succ_of_ne_zero (Nat.ne_of_gt hi)
    rw [level_succ]
    cases i with
    | zero => exact hp
    | succ i => exact h.pending (i + 1) (Nat.succ_pos i) (Nat.lt_of_succ_lt_succ hlt)
  ends := by
    rw [level_succ, Nat.add_right_cancel_iff]
    exact h.ends

/-- The records of a run are the transcript of the rounds that it takes. -/
theorem exists_transcript (b : Bindings) (number : Nat) (found : Buckets) (cs : List Clause)
    (later : Nat) : ∃ rounds, Takes b (later + 1) cs rounds ∧
      Transcript b number cs rounds (resolveFrom b number found cs later).log := by
  induction later generalizing number found cs with
  | zero =>
    refine ⟨1, ⟨Nat.one_pos, Nat.le_refl 1, fun i hi hlt => by omega, .inr rfl⟩, ?_⟩
    rw [resolveFrom_log_zero]
    exact .last (reportsAll_iff.2 rfl)
  | succ later ih =>
    by_cases hp : (pending b cs).isEmpty
    · have hnil : level (selected? b) cs 1 = [] := List.isEmpty_iff.1 hp
      refine ⟨1, ⟨Nat.one_pos, by omega, fun i hi hlt => by omega, .inl hnil⟩, ?_⟩
      rw [resolveFrom_log_of_isEmpty hp]
      exact .last (reportsAll_iff.2 rfl)
    · have hne : level (selected? b) cs 1 ≠ [] := fun h => hp (List.isEmpty_iff.2 h)
      obtain ⟨rounds, htakes, htranscript⟩ := ih (number + 1) (gather b found cs) (pending b cs)
      obtain ⟨n, rfl⟩ := Nat.exists_eq_succ_of_ne_zero (Nat.ne_of_gt htakes.pos)
      refine ⟨n + 2, htakes.succ hne, ?_⟩
      rw [resolveFrom_log_succ hp]
      exact .round (reportsAll_iff.2 rfl) htranscript

theorem level_of_mem_resolve {maxRounds : Nat} {r : Record}
    (hr : r ∈ (resolve b maxRounds cs).log) : r.level = .trace := by
  obtain ⟨_, -, h⟩ := exists_transcript b 1 ∅ cs (maxRounds - 1)
  exact h.level_eq r hr

theorem records_prefix_resolveFrom (b : Bindings) (number : Nat) (found : Buckets)
    (cs : List Clause) (later : Nat) :
    cs.flatMap (records b) <+: (resolveFrom b number found cs later).log := by
  rw [resolveFrom.eq_def, Traced.log_bind_of_ok rfl]
  exact List.prefix_append _ _

/-- A run with a greater limit begins with the same records. -/
theorem resolveFrom_log_prefix (b : Bindings) (number : Nat) (found : Buckets) (cs : List Clause)
    (later more : Nat) : (resolveFrom b number found cs later).log <+:
      (resolveFrom b number found cs (later + more)).log := by
  induction later generalizing number found cs with
  | zero =>
    rw [resolveFrom_log_zero]
    exact records_prefix_resolveFrom b number found cs _
  | succ later ih =>
    by_cases hp : (pending b cs).isEmpty
    · have heq := resolveFrom_eq_of_isEmpty hp number found (later + 1) (later + 1 + more)
      exact heq ▸ List.prefix_rfl
    · rw [Nat.add_right_comm, resolveFrom_log_succ hp, resolveFrom_log_succ hp,
        List.prefix_append_right_inj, List.cons_prefix_cons]
      exact ⟨rfl, ih (number + 1) (gather b found cs) (pending b cs)⟩

end Runs

section Pruning

mutual

/-- A clause with no clauses nested in the branches that are not selected. -/
def pruned (b : Bindings) : Clause → Clause
  | ⟨p, c, ⟨block, ns⟩, none⟩ =>
    if c.holds b then ⟨p, c, ⟨block, prune b ns⟩, none⟩ else ⟨p, c, ⟨block, []⟩, none⟩
  | ⟨p, c, ⟨block, ns⟩, some ⟨block', ms⟩⟩ =>
    if c.holds b then ⟨p, c, ⟨block, prune b ns⟩, some ⟨block', []⟩⟩
    else ⟨p, c, ⟨block, []⟩, some ⟨block', prune b ms⟩⟩

def prune (b : Bindings) : List Clause → List Clause
  | [] => []
  | c :: cs => pruned b c :: prune b cs

end

def pruneBranch (b : Bindings) (br : Branch Clause) : Branch Clause :=
  ⟨br.block, prune b br.nested⟩

theorem prune_eq_map (b : Bindings) (cs : List Clause) : prune b cs = cs.map (pruned b) := by
  induction cs with
  | nil => rfl
  | cons c cs ih => rw [prune, ih, List.map_cons]

theorem length_prune (b : Bindings) (cs : List Clause) : (prune b cs).length = cs.length := by
  rw [prune_eq_map, List.length_map]

theorem isEmpty_prune (b : Bindings) (cs : List Clause) : (prune b cs).isEmpty = cs.isEmpty := by
  rw [prune_eq_map, List.isEmpty_map]

theorem pruned_condition (b : Bindings) (c : Clause) :
    (pruned b c).condition = c.condition ∧ (pruned b c).predicate = c.predicate := by
  match c with
  | ⟨p, c, ⟨block, ns⟩, none⟩ =>
    rw [pruned]
    split <;> exact ⟨rfl, rfl⟩
  | ⟨p, c, ⟨block, ns⟩, some ⟨block', ms⟩⟩ =>
    rw [pruned]
    split <;> exact ⟨rfl, rfl⟩

theorem selected?_pruned (b : Bindings) (c : Clause) :
    selected? b (pruned b c) = (selected? b c).map (pruneBranch b) := by
  match c with
  | ⟨p, c, ⟨block, ns⟩, none⟩ =>
    rw [pruned]
    cases h : c.holds b <;> simp [selected?, h, pruneBranch]
  | ⟨p, c, ⟨block, ns⟩, some ⟨block', ms⟩⟩ =>
    rw [pruned]
    cases h : c.holds b <;> simp [selected?, h, pruneBranch]

theorem records_pruned (b : Bindings) (c : Clause) : records b (pruned b c) = records b c := by
  obtain ⟨hcondition, hpredicate⟩ := pruned_condition b c
  rw [records, hcondition, hpredicate, selected?_pruned, Option.isSome_map]
  rfl

theorem flatMap_records_prune (b : Bindings) (cs : List Clause) :
    (prune b cs).flatMap (records b) = cs.flatMap (records b) := by
  rw [prune_eq_map, List.flatMap_map]
  simp only [records_pruned]

theorem selected_prune (b : Bindings) (cs : List Clause) :
    selected b (prune b cs) = (selected b cs).map (pruneBranch b) := by
  rw [prune_eq_map, selected, selected, List.filterMap_map, List.map_filterMap]
  exact congrArg (List.filterMap · cs) (funext fun c => selected?_pruned b c)

theorem gather_prune (b : Bindings) (found : Buckets) (cs : List Clause) :
    gather b found (prune b cs) = gather b found cs := by
  rw [gather, gather, selected_prune, List.map_map]
  rfl

theorem pending_prune (b : Bindings) (cs : List Clause) :
    pending b (prune b cs) = prune b (pending b cs) := by
  rw [pending, pending, selected_prune, List.flatMap_map, prune_eq_map, List.map_flatMap]
  exact congrArg (List.flatMap · (selected b cs)) (funext fun br => prune_eq_map b br.nested)

theorem resolveFrom_prune (b : Bindings) (number : Nat) (found : Buckets) (cs : List Clause)
    (later : Nat) :
    resolveFrom b number found (prune b cs) later = resolveFrom b number found cs later := by
  induction later generalizing number found cs with
  | zero =>
    rw [resolveFrom, resolveFrom, flatMap_records_prune, pending_prune, gather_prune,
      isEmpty_prune]
  | succ later ih =>
    rw [resolveFrom, resolveFrom, flatMap_records_prune, pending_prune, gather_prune,
      isEmpty_prune, length_prune, ih]

end Pruning

/-- The records of a resolution are the transcript of the rounds that it takes. A greater limit only
adds records behind them, and clauses in branches that are not selected leave none. -/
theorem resolve_transcript (b : Bindings) (maxRounds : Nat) (cs : List Clause) :
    ∃ rounds, Takes b (max 1 maxRounds) cs rounds ∧
      (∀ log, Transcript b 1 cs rounds log ↔ log = (resolve b maxRounds cs).log) ∧
      (∀ e, (resolve b maxRounds cs).result = .error e ↔
        level (selected? b) cs rounds ≠ [] ∧ e = .tooManyRounds rounds) ∧
      (∀ r ∈ (resolve b maxRounds cs).log, r.level = .trace) ∧
      (∀ more, (resolve b maxRounds cs).log <+: (resolve b (maxRounds + more) cs).log) ∧
      resolve b maxRounds (prune b cs) = resolve b maxRounds cs := by
  obtain ⟨rounds, htakes, htranscript⟩ := exists_transcript b 1 ∅ cs (maxRounds - 1)
  rw [rounds_eq] at htakes
  refine ⟨rounds, htakes, ?_, ?_, fun r => level_of_mem_resolve, ?_, resolveFrom_prune b 1 ∅ cs _⟩
  · intro log
    apply Iff.intro
    · exact fun h => h.unique htranscript
    · intro h
      subst h
      exact htranscript
  · intro e
    rw [resolve_eq_error_iff]
    -- either no clauses are left, and then not after the limit either, or this is the limit
    rcases htakes.ends with hnil | hlimit
    · have hlast := level_eq_nil_of_le hnil htakes.le_limit
      simp only [hnil, hlast, ne_eq, not_true_eq_false, false_and]
    · rw [hlimit]
  · intro more
    obtain ⟨k, hk⟩ : ∃ k, maxRounds + more - 1 = maxRounds - 1 + k :=
      Nat.exists_eq_add_of_le (by omega)
    rw [resolve, resolve, hk]
    exact resolveFrom_log_prefix b 1 ∅ cs _ k

def forked : List Clause :=
  [⟨"x == 1", .compare (.name "x") .equal (.integer 1),
    ⟨⟨[]⟩, [⟨"False", .boolean false, ⟨⟨[]⟩, []⟩, none⟩]⟩,
    some ⟨⟨[]⟩, [⟨"True", .boolean true, ⟨⟨[]⟩, []⟩, none⟩]⟩⟩]

theorem resolve_transcript_forked :
    Transcript ∅ 1 forked 1 [.unbound "x", .condition "x == 1" true] ∧
      (resolve ∅ 1 forked).log = [.unbound "x", .condition "x == 1" true] ∧
      (resolve ∅ 1 forked).result = .error (.tooManyRounds 1) ∧
      level (selected? ∅) forked 1 ≠ [] ∧
      (.unbound "x" ∈ (resolve ∅ 1 forked).log ∧ (Record.unbound "x").level = .trace) ∧
      (resolve ∅ 1 forked).log <+: (resolve ∅ (1 + 1) forked).log ∧
      (resolve ∅ (1 + 1) forked).log = [.unbound "x", .condition "x == 1" true, .round 1 1,
        .condition "True" true] := by
  have hlog : (resolve ∅ 1 forked).log = [.unbound "x", .condition "x == 1" true] := rfl
  have herror : (resolve ∅ 1 forked).result = .error (.tooManyRounds 1) := rfl
  have hmem : .unbound "x" ∈ (resolve ∅ 1 forked).log := List.mem_cons_self
  obtain ⟨rounds, htakes, htranscript, hfails, hlevel, hprefix, -⟩ := resolve_transcript ∅ 1 forked
  obtain rfl : rounds = 1 := Nat.le_antisymm htakes.le_limit htakes.pos
  exact ⟨(htranscript _).2 hlog.symm, hlog, herror, ((hfails _).1 herror).1,
    ⟨hmem, hlevel _ hmem⟩, hprefix 1, rfl⟩

end BuildDesc.Clause
