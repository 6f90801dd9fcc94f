import BuildDesc.Proofs.Clauses
import BuildDesc.Proofs.ConditionText
import BuildDesc.Proofs.Levels

namespace BuildDesc.Clause

/-- Reads the values of a round at a place of their own, appends the settings that their clauses
select, and goes on with the values in the category of conditions. -/
def resolveRaw (place : Nat → String) (b : Bindings) (maxRounds number : Nat) (found : Buckets)
    (vs : List Value) : Except Error Buckets := do
  let cs ← ofValues (place number) vs
  let selected := evaluate b cs
  let next := selected.values conditionsKey
  if next.isEmpty then return found ++ selected
  else if maxRounds ≤ number then throw (.tooManyRounds number)
  else resolveRaw place b maxRounds (number + 1) (found ++ selected) next
termination_by maxRounds - number

/-- Holds of the ways to choose that take one of the branches of a clause, or none. -/
def Selects (choose : Clause → Option (Branch Clause)) : Prop :=
  ∀ c br, choose c = some br → br = c.thenBranch ∨ c.elseBranch = some br

theorem selects_selected? (b : Bindings) : Selects (selected? b) := by
  intro c br h
  rw [selected?] at h
  by_cases hc : c.condition.holds b
  · rw [if_pos hc] at h
    exact .inl (Option.some.inj h).symm
  · rw [if_neg hc] at h
    exact .inr h

variable {choose : Clause → Option (Branch Clause)} {vs : List Value} {c : Clause}
  {cs : List Clause}

theorem faithful_of_selects {v : Value} {br : Branch Clause} (hs : Selects choose)
    (h : Describes v c) (hbr : choose c = some br) : br.Faithful := by
  rcases hs c br hbr with rfl | he
  · exact h.thenBranch
  · exact h.elseBranch he

/-- One round: the values that the chosen blocks have in the category of conditions describe the
clauses of the next level. -/
theorem describes_level_one (hs : Selects choose) (h : List.Forall₂ Describes vs cs) :
    List.Forall₂ Describes
      ((Buckets.ofBlocks (blocksAt choose cs 0)).values conditionsKey) (level choose cs 1) := by
  rw [Buckets.values_ofBlocks]
  induction h with
  | nil => exact .nil
  | @cons v c vs cs hc _ ih =>
    simp only [blocksAt, level, List.filterMap_cons] at ih ⊢
    cases hbr : choose c with
    | none => exact ih
    | some br => exact List.rel_append (faithful_of_selects hs hc hbr) ih

theorem describes_level (hs : Selects choose) (h : List.Forall₂ Describes vs cs) (i : Nat) :
    ∃ ws, List.Forall₂ Describes ws (level choose cs i) := by
  induction i with
  | zero => exact ⟨vs, h⟩
  | succ i ih =>
    obtain ⟨ws, hws⟩ := ih
    exact ⟨_, describes_level_one hs hws⟩

theorem describes_level_succ (hs : Selects choose) (h : List.Forall₂ Describes vs cs) (i : Nat) :
    List.Forall₂ Describes
      ((Buckets.ofBlocks (blocksAt choose cs i)).values conditionsKey)
      (level choose cs (i + 1)) := by
  obtain ⟨ws, hws⟩ := describes_level hs h i
  exact describes_level_one hs hws

theorem ofValues_level_succ (hs : Selects choose) (h : List.Forall₂ Describes vs cs)
    (place : String) (i : Nat) :
    ofValues place ((Buckets.ofBlocks (blocksAt choose cs i)).values conditionsKey) =
      .ok (level choose cs (i + 1)) :=
  ofValues_eq_ok_iff.2 (describes_level_succ hs h i)

variable {b : Bindings} {place : Nat → String} {found : Buckets} {maxRounds number : Nat}

theorem evaluate_eq (b : Bindings) (cs : List Clause) :
    evaluate b cs = .ofBlocks (blocksAt (selected? b) cs 0) :=
  rfl

theorem append_evaluate (b : Bindings) (found : Buckets) (cs : List Clause) :
    found ++ evaluate b cs = gather b found cs := by
  rw [evaluate_eq, Buckets.append_ofBlocks, gather_eq]

theorem describes_pending (h : List.Forall₂ Describes vs cs) (b : Bindings) :
    List.Forall₂ Describes ((evaluate b cs).values conditionsKey) (pending b cs) :=
  describes_level_one (selects_selected? b) h

theorem isEmpty_values_iff (h : List.Forall₂ Describes vs cs) (b : Bindings) :
    ((evaluate b cs).values conditionsKey).isEmpty ↔ (pending b cs).isEmpty := by
  have hlen := (describes_pending h b).length_eq
  rw [List.isEmpty_iff_length_eq_zero, List.isEmpty_iff_length_eq_zero, hlen]

theorem resolveRaw_step (h : List.Forall₂ Describes vs cs) :
    resolveRaw place b maxRounds number found vs =
      if (pending b cs).isEmpty then .ok (gather b found cs)
      else if maxRounds ≤ number then .error (.tooManyRounds number)
      else resolveRaw place b maxRounds (number + 1) (gather b found cs)
        ((evaluate b cs).values conditionsKey) := by
  rw [resolveRaw, ofValues_eq_ok_iff.2 h, ← append_evaluate]
  simp only [← isEmpty_values_iff h b]
  rfl

theorem resolveRaw_eq_resolveFrom (h : List.Forall₂ Describes vs cs) :
    resolveRaw place b maxRounds number found vs =
      (resolveFrom b number found cs (maxRounds - number)).result := by
  generalize hk : maxRounds - number = later
  induction later generalizing number found vs cs with
  | zero =>
    rw [resolveRaw_step h, if_pos (Nat.le_of_sub_eq_zero hk)]
    by_cases hp : (pending b cs).isEmpty
    · rw [if_pos hp, resolveFrom_of_isEmpty hp]
    · rw [if_neg hp, resolveFrom_zero hp]
  | succ later ih =>
    have hlt : ¬maxRounds ≤ number := by omega
    rw [resolveRaw_step h, if_neg hlt]
    by_cases hp : (pending b cs).isEmpty
    · rw [if_pos hp, resolveFrom_of_isEmpty hp]
    · rw [if_neg hp, resolveFrom_succ hp]
      exact ih (describes_pending h b) (by omega)

/-- Rounds over the raw list end as resolution of its clauses, since the values that a level leaves
in the category of conditions are those of the next level. -/
theorem resolveRaw_eq_resolve {here : String} (h : ofValues here vs = .ok cs)
    (place : Nat → String) (b : Bindings) (maxRounds : Nat) :
    resolveRaw place b maxRounds 1 ∅ vs = (resolve b maxRounds cs).result ∧
    ∀ choose, Selects choose → ∀ i there,
      ofValues there ((Buckets.ofBlocks (blocksAt choose cs i)).values conditionsKey) =
        .ok (level choose cs (i + 1)) := by
  have hd := ofValues_eq_ok_iff.1 h
  apply And.intro
  · exact resolveRaw_eq_resolveFrom hd
  · intro choose hs i there
    exact ofValues_level_succ hs hd there i

def nestingBlock : Dict Value :=
  ⟨[("conditions", .list [.list [.text "True", .mapping ⟨[("defines", .list [.text "A"])]⟩]])]⟩

theorem resolveRaw_eq_resolve_nested :
    ∃ cs, ofValues "list" [.list [.text "x", .mapping ∅, .mapping nestingBlock]] = .ok cs ∧
      (resolveRaw (fun _ => "list") ∅ 1 1 ∅
          [.list [.text "x", .mapping ∅, .mapping nestingBlock]] = (resolve ∅ 1 cs).result ∧
        ∀ choose, Selects choose → ∀ i there,
          ofValues there ((Buckets.ofBlocks (blocksAt choose cs i)).values conditionsKey) =
            .ok (level choose cs (i + 1))) := by
  have hx : Condition.parse "x" = .ok (.name "x") := by
    apply Condition.parse_eq_ok_iff.2
    exact Condition.denotes_word ⟨'x', [], rfl, rfl, nofun⟩ (.name (by decide))
  have htrue : Condition.parse "True" = .ok (.boolean true) := by
    apply Condition.parse_eq_ok_iff.2
    have htail : ∀ d ∈ ['r', 'u', 'e'], Word.isTail d = true := List.all_eq_true.1 rfl
    exact Condition.denotes_word ⟨'T', ['r', 'u', 'e'], rfl, rfl, htail⟩ .true
  have h : ofValues "list" [.list [.text "x", .mapping ∅, .mapping nestingBlock]] =
      .ok [⟨"x", .name "x", ⟨∅, []⟩, some ⟨nestingBlock,
        [⟨"True", .boolean true, ⟨⟨[("defines", .list [.text "A"])]⟩, []⟩, none⟩]⟩⟩] := by
    simp only [ofValues, ofValuesFrom, ofValue, readPredicate, hx, htrue, branchOfValue, nestedIn,
      nestedAt, nestingBlock]
    rfl
  exact ⟨_, h, resolveRaw_eq_resolve h (fun _ => "list") ∅ 1⟩

end BuildDesc.Clause
