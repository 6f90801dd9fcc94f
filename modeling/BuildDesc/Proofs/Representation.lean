import BuildDesc.Proofs.Nesting

namespace BuildDesc.Clause

/-- Holds of the clauses of a list and of all that are nested in them, in either branch. -/
inductive Within : Clause → List Clause → Prop
  | here {c cs} (h : c ∈ cs) : Within c cs
  | nested {c d br cs} (hd : d ∈ cs) (hbr : br ∈ d.branches) (h : Within c br.nested) : Within c cs

variable {place : String} {v : Value} {vs : List Value} {c : Clause} {cs : List Clause}
  {br : Branch Clause}

theorem Describes.faithful (h : Describes v c) (hbr : br ∈ c.branches) : br.Faithful := by
  rcases mem_branches.1 hbr with rfl | he
  · exact h.thenBranch
  · exact h.elseBranch he

theorem exists_describes_of_mem (h : List.Forall₂ Describes vs cs) (hc : c ∈ cs) :
    ∃ v, Describes v c := by
  induction h with
  | nil => cases hc
  | cons hv _ ih =>
    rcases List.mem_cons.1 hc with rfl | hc
    · exact ⟨_, hv⟩
    · exact ih hc

theorem Within.exists_describes (hc : Within c cs) (h : List.Forall₂ Describes vs cs) :
    ∃ v, Describes v c := by
  induction hc generalizing vs with
  | here hc => exact exists_describes_of_mem h hc
  | nested hd hbr _ ih =>
    obtain ⟨v, hv⟩ := exists_describes_of_mem h hd
    exact ih (hv.faithful hbr)

theorem Describes.parse_predicate (h : Describes v c) :
    Condition.parse c.predicate = .ok c.condition := by
  obtain ⟨t, rest, -, hparse, -⟩ := ofValue_eq_ok (h "")
  exact hparse

theorem ofValues_of_faithful (h : br.Faithful) (place : String) :
    ofValues place ((Buckets.merge ∅ br.block).values conditionsKey) = .ok br.nested := by
  rw [Buckets.merge_eq, Buckets.values_extendAll]
  exact ofValues_eq_ok_iff.2 h

/-- In clauses that have been read, at any depth, a condition is what its predicate denotes, and the
nested clauses are those in the category of conditions of the branch. Where the clauses stand does
not matter. -/
theorem ofValues_represents (place : String) (vs : List Value) :
    (∀ cs, ofValues place vs = .ok cs → ∀ c, Within c cs →
      Condition.parse c.predicate = .ok c.condition ∧
      ∀ br ∈ c.branches, ∀ there,
        ofValues there ((Buckets.merge ∅ br.block).values conditionsKey) = .ok br.nested) ∧
    ∀ there, Agree (ofValues place vs) (ofValues there vs) := by
  apply And.intro
  · intro cs h c hc
    obtain ⟨v, hv⟩ := hc.exists_describes (ofValues_eq_ok_iff.1 h)
    exact ⟨hv.parse_predicate, fun br hbr there => ofValues_of_faithful (hv.faithful hbr) there⟩
  · intro there
    exact agree_ofValuesFrom place there 0 0 vs

def settingsBlock : Dict Value :=
  ⟨[("settings", .mapping nestingBlock)]⟩

def settingsClause : Clause :=
  ⟨"x", .name "x", ⟨∅, []⟩, some ⟨settingsBlock, [nestedClause]⟩⟩

theorem ofValues_represents_settings :
    ofValues "list" [.list [.text "x", .mapping ∅, .mapping settingsBlock]] =
        .ok [settingsClause] ∧
      Within nestedClause [settingsClause] ∧
      Condition.parse nestedClause.predicate = .ok nestedClause.condition ∧
      ∀ br ∈ settingsClause.branches, ∀ there,
        ofValues there ((Buckets.merge ∅ br.block).values conditionsKey) = .ok br.nested := by
  have hx : Condition.parse "x" = .ok (.name "x") := by
    apply Condition.parse_eq_ok_iff.2
    exact Condition.denotes_word ⟨'x', [], rfl, rfl, nofun⟩ (.name (by decide))
  have htrue : Condition.parse "True" = .ok (.boolean true) := by
    apply Condition.parse_eq_ok_iff.2
    have htail : ∀ d ∈ ['r', 'u', 'e'], Word.isTail d = true := List.all_eq_true.1 rfl
    exact Condition.denotes_word ⟨'T', ['r', 'u', 'e'], rfl, rfl, htail⟩ .true
  have h : ofValues "list" [.list [.text "x", .mapping ∅, .mapping settingsBlock]] =
      .ok [settingsClause] := by
    simp only [ofValues, ofValuesFrom, ofValue, readPredicate, hx, htrue, branchOfValue, nestedIn,
      nestedAt, settingsBlock, nestingBlock]
    rfl
  have hhere : Within settingsClause [settingsClause] := .here List.mem_cons_self
  have hnested : Within nestedClause [settingsClause] :=
    .nested List.mem_cons_self (List.mem_cons_of_mem _ List.mem_cons_self)
      (.here (List.mem_cons_self : nestedClause ∈ [nestedClause]))
  obtain ⟨hrepresents, -⟩ := ofValues_represents "list"
    [.list [.text "x", .mapping ∅, .mapping settingsBlock]]
  exact ⟨h, hnested, (hrepresents _ h _ hnested).1, (hrepresents _ h _ hhere).2⟩

end BuildDesc.Clause
