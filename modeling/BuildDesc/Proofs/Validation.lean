import BuildDesc.Clause
import BuildDesc.Proofs.Outcomes

namespace BuildDesc.Clause

/-- Holds of what stands under the conditions key among entries or in the mappings below them, but
not inside of a list. -/
inductive Nested : List (String × Value) → Value → Prop
  | here {es v} (h : (conditionsKey, v) ∈ es) : Nested es v
  | inside {es k inner v} (h : (k, .mapping inner) ∈ es) (hk : k ≠ conditionsKey)
    (hv : Nested inner.entries v) : Nested es v

/-- Holds of lists of a predicate and one or two mappings in which everything under the conditions
key is a list of such values in turn. -/
inductive WellFormed : Value → Prop
  | mk {s c branches} (hs : Condition.parse s = .ok c)
    (hlen : branches.length = 1 ∨ branches.length = 2) (hb : ∀ b ∈ branches, b.kind = .mapping)
    (hlist : ∀ block, .mapping block ∈ branches → ∀ v, Nested block.entries v → v.kind = .list)
    (hitems : ∀ block, .mapping block ∈ branches → ∀ items, Nested block.entries (.list items) →
      ∀ v ∈ items, WellFormed v) :
    WellFormed (.list (.text s :: branches))

/-- Holds of entries with nothing but lists of well-formed values under the conditions key, at any
depth. -/
structure ValidEntries (es : List (String × Value)) : Prop where
  kind : ∀ v, Nested es v → v.kind = .list
  items : ∀ items, Nested es (.list items) → ∀ v ∈ items, WellFormed v

def ValidBranch (v : Value) : Prop :=
  ∃ block, v = .mapping block ∧ ValidEntries block.entries

def IsPredicate (v : Value) : Prop :=
  ∃ s c, v = .text s ∧ Condition.parse s = .ok c

inductive PredicateFault (place : String) : Value → Error → Prop
  | kind {p} (h : p.kind ≠ .text) :
    PredicateFault place p (.malformed (.wrongKind s!"{place}: condition predicate" .text none))
  | text {s} (h : ∀ c, Condition.parse s ≠ .ok c) : PredicateFault place (.text s) (.notCondition s)

mutual

/-- The first fault of the value at `place` in a list of conditions. -/
inductive ClauseFault : String → Value → Error → Prop
  | kind {place v} (h : v.kind ≠ .list) : ClauseFault place v (.malformed (.notClause place v.kind))
  | length {place items} (h : items.length ≠ 2) (h' : items.length ≠ 3) :
    ClauseFault place (.list items) (.malformed (.clauseLength place items.length))
  | predicate {place p branches e} (hlen : branches.length = 1 ∨ branches.length = 2)
    (h : PredicateFault place p e) : ClauseFault place (.list (p :: branches)) e
  | thenBranch {place p t others e} (hlen : others.length ≤ 1) (hp : IsPredicate p)
    (h : BranchFault place "true" t e) : ClauseFault place (.list (p :: t :: others)) e
  | elseBranch {place p t f e} (hp : IsPredicate p) (ht : ValidBranch t)
    (h : BranchFault place "false" f e) : ClauseFault place (.list [p, t, f]) e

inductive BranchFault : String → String → Value → Error → Prop
  | kind {place which v} (h : v.kind ≠ .mapping) :
    BranchFault place which v
      (.malformed (.wrongKind s!"{place}: {which} branch" .mapping (some v.kind)))
  | entries {place which block e} (h : EntriesFault s!"{place}.{which}" block.entries e) :
    BranchFault place which (.mapping block) e

/-- The first fault among entries. -/
inductive EntriesFault : String → List (String × Value) → Error → Prop
  | mk {place before k v after e} (hb : ValidEntries before) (h : EntryFault place k v e) :
    EntriesFault place (before ++ (k, v) :: after) e

/-- The first fault of what stands under the key `k`. -/
inductive EntryFault : String → String → Value → Error → Prop
  | kind {place v} (h : v.kind ≠ .list) :
    EntryFault place conditionsKey v
      (.malformed (.wrongKind s!"{place}.{conditionsKey}" .list (some v.kind)))
  | items {place items e} (h : ListFault s!"{place}.{conditionsKey}" items e) :
    EntryFault place conditionsKey (.list items) e
  | inside {place k inner e} (hk : k ≠ conditionsKey) (h : EntriesFault place inner.entries e) :
    EntryFault place k (.mapping inner) e

/-- The first fault in the list of conditions at `place`. -/
inductive ListFault : String → List Value → Error → Prop
  | mk {place before v after e} (hb : ∀ u ∈ before, WellFormed u)
    (h : ClauseFault s!"{place}[{before.length}]" v e) :
    ListFault place (before ++ v :: after) e

end

section Entries

variable {place k : String} {v w : Value} {x : String × Value} {es fs : List (String × Value)}
  {inner : Dict Value} {e : Error}

theorem Nested.mono (h : Nested es v) (hs : es ⊆ fs) : Nested fs v := by
  cases h with
  | here h => exact .here (hs h)
  | inside h hk hv => exact .inside (hs h) hk hv

theorem nested_cons : Nested (x :: es) v ↔ Nested [x] v ∨ Nested es v := by
  apply Iff.intro
  · intro h
    cases h with
    | here h =>
      rcases List.mem_cons.1 h with rfl | h
      · exact .inl (.here List.mem_cons_self)
      · exact .inr (.here h)
    | inside h hk hv =>
      rcases List.mem_cons.1 h with rfl | h
      · exact .inl (.inside List.mem_cons_self hk hv)
      · exact .inr (.inside h hk hv)
  · intro h
    rcases h with h | h
    · exact h.mono (List.cons_subset_cons x (List.nil_subset es))
    · exact h.mono (List.subset_cons_self x es)

theorem nested_conditions : Nested [(conditionsKey, v)] w ↔ w = v := by
  apply Iff.intro
  · intro h
    cases h with
    | here h => exact (Prod.mk.inj (List.mem_singleton.1 h)).2
    | inside h hk => exact absurd (Prod.mk.inj (List.mem_singleton.1 h)).1 hk
  · intro h
    subst h
    exact .here List.mem_cons_self

theorem nested_below (hk : k ≠ conditionsKey) :
    Nested [(k, v)] w ↔ ∃ inner, v = .mapping inner ∧ Nested inner.entries w := by
  apply Iff.intro
  · intro h
    cases h with
    | here h => exact absurd (Prod.mk.inj (List.mem_singleton.1 h)).1.symm hk
    | inside h _ hw => exact ⟨_, (Prod.mk.inj (List.mem_singleton.1 h)).2.symm, hw⟩
  · intro h
    obtain ⟨inner, rfl, hw⟩ := h
    exact .inside List.mem_cons_self hk hw

theorem not_nested_nil : ¬Nested [] v := by
  intro h
  cases h with
  | here h => exact List.not_mem_nil h
  | inside h => exact List.not_mem_nil h

theorem validEntries_nil : ValidEntries [] :=
  ⟨fun _ h => absurd h not_nested_nil, fun _ h => absurd h not_nested_nil⟩

theorem validEntries_cons : ValidEntries (x :: es) ↔ ValidEntries [x] ∧ ValidEntries es := by
  apply Iff.intro
  · intro h
    obtain ⟨hkind, hitems⟩ := h
    have hx : ∀ v, Nested [x] v → Nested (x :: es) v := fun v hv => nested_cons.2 (.inl hv)
    have hes : ∀ v, Nested es v → Nested (x :: es) v := fun v hv => nested_cons.2 (.inr hv)
    exact ⟨⟨fun v hv => hkind v (hx v hv), fun items hi => hitems items (hx _ hi)⟩,
      ⟨fun v hv => hkind v (hes v hv), fun items hi => hitems items (hes _ hi)⟩⟩
  · intro h
    obtain ⟨hx, hes⟩ := h
    apply ValidEntries.mk
    · intro v hv
      exact (nested_cons.1 hv).elim (hx.kind v) (hes.kind v)
    · intro items hi
      exact (nested_cons.1 hi).elim (hx.items items) (hes.items items)

theorem validEntries_iff_forall : ValidEntries es ↔ ∀ x ∈ es, ValidEntries [x] := by
  induction es with
  | nil => exact ⟨fun _ => nofun, fun _ => validEntries_nil⟩
  | cons x es ih => rw [validEntries_cons, List.forall_mem_cons, ih]

theorem validEntries_list {items : List Value} :
    ValidEntries [(conditionsKey, .list items)] ↔ ∀ u ∈ items, WellFormed u := by
  apply Iff.intro
  · intro h
    exact h.items items (nested_conditions.2 rfl)
  · intro h
    apply ValidEntries.mk
    · intro v hv
      rw [nested_conditions.1 hv]
      rfl
    · intro items' hi
      cases nested_conditions.1 hi
      exact h

theorem not_validEntries (h : v.kind ≠ .list) : ¬ValidEntries [(conditionsKey, v)] :=
  fun hv => h (hv.kind v (nested_conditions.2 rfl))

theorem validEntries_mapping (hk : k ≠ conditionsKey) :
    ValidEntries [(k, .mapping inner)] ↔ ValidEntries inner.entries := by
  have hnested : ∀ v, Nested [(k, .mapping inner)] v ↔ Nested inner.entries v := by
    intro v
    rw [nested_below hk]
    apply Iff.intro
    · intro h
      obtain ⟨inner', hinner, h⟩ := h
      cases hinner
      exact h
    · exact fun h => ⟨inner, rfl, h⟩
  apply Iff.intro
  · intro h
    apply ValidEntries.mk
    · exact fun v hv => h.kind v ((hnested v).2 hv)
    · exact fun items hi => h.items items ((hnested _).2 hi)
  · intro h
    apply ValidEntries.mk
    · exact fun v hv => h.kind v ((hnested v).1 hv)
    · exact fun items hi => h.items items ((hnested _).1 hi)

theorem validEntries_other (hk : k ≠ conditionsKey) (hv : v.kind ≠ .mapping) :
    ValidEntries [(k, v)] := by
  have hnone : ∀ w, ¬Nested [(k, v)] w := by
    intro w h
    obtain ⟨inner, rfl, -⟩ := (nested_below hk).1 h
    exact hv rfl
  exact ⟨fun w h => absurd h (hnone w), fun items h => absurd h (hnone (.list items))⟩

-- the number of an entry has no part in its fault, so `i` is arbitrary
theorem entriesFault_iff (i : Nat) :
    EntriesFault place es e ↔
      FirstFault (fun x => ValidEntries [x]) (fun _ x => EntryFault place x.1 x.2) i es e := by
  apply Iff.intro
  · intro h
    cases h with
    | mk hb h => exact ⟨_, _, _, rfl, validEntries_iff_forall.1 hb, h⟩
  · intro h
    obtain ⟨before, x, after, rfl, hb, h⟩ := h
    exact .mk (validEntries_iff_forall.2 hb) h

theorem listFault_iff {items : List Value} :
    ListFault place items e ↔
      FirstFault WellFormed (fun i v => ClauseFault s!"{place}[{i}]" v) 0 items e := by
  apply Iff.intro
  · intro h
    cases h with
    | mk hb h => exact ⟨_, _, _, rfl, hb, (Nat.zero_add _).symm ▸ h⟩
  · intro h
    obtain ⟨before, v, after, rfl, hb, h⟩ := h
    rw [Nat.zero_add] at h
    exact .mk hb h

end Entries

section Values

variable {place : String} {p t f : Value} {branches : List Value} {e : Error}

theorem kind_eq_mapping_iff {v : Value} : v.kind = .mapping ↔ ∃ block, v = .mapping block := by
  cases v <;> simp [Value.kind]

theorem validBranch_mapping {block : Dict Value} :
    ValidBranch (.mapping block) ↔ ValidEntries block.entries := by
  apply Iff.intro
  · intro h
    obtain ⟨_, heq, h⟩ := h
    cases heq
    exact h
  · exact fun h => ⟨block, rfl, h⟩

theorem wellFormed_iff :
    WellFormed (.list (p :: branches)) ↔
      IsPredicate p ∧ (branches.length = 1 ∨ branches.length = 2) ∧
        ∀ b ∈ branches, ValidBranch b := by
  apply Iff.intro
  · intro h
    cases h with
    | @mk s c _ hs hlen hb hlist hitems =>
      refine ⟨⟨s, c, rfl, hs⟩, hlen, ?_⟩
      intro b hmem
      obtain ⟨block, rfl⟩ := kind_eq_mapping_iff.1 (hb b hmem)
      exact ⟨block, rfl, hlist block hmem, hitems block hmem⟩
  · intro h
    obtain ⟨⟨s, c, rfl, hs⟩, hlen, hb⟩ := h
    have hvalid : ∀ block, .mapping block ∈ branches → ValidEntries block.entries := by
      intro block hmem
      obtain ⟨block', heq, hblock⟩ := hb _ hmem
      cases heq
      exact hblock
    have hkind : ∀ b ∈ branches, b.kind = .mapping := by
      intro b hmem
      obtain ⟨block, rfl, -⟩ := hb b hmem
      rfl
    exact .mk hs hlen hkind (fun block hmem => (hvalid block hmem).kind)
      (fun block hmem => (hvalid block hmem).items)

theorem not_wellFormed_of_length {items : List Value} (h : items.length ≠ 2)
    (h' : items.length ≠ 3) : ¬WellFormed (.list items) := by
  intro hw
  cases hw with
  | mk _ hlen =>
    rw [List.length_cons] at h h'
    omega

theorem clauseFault_two :
    ClauseFault place (.list [p, t]) e ↔
      PredicateFault place p e ∨ IsPredicate p ∧ BranchFault place "true" t e := by
  apply Iff.intro
  · intro h
    cases h with
    | kind h => exact absurd rfl h
    | length h => exact absurd rfl h
    | predicate _ h => exact .inl h
    | thenBranch _ hp h => exact .inr ⟨hp, h⟩
  · intro h
    rcases h with h | ⟨hp, h⟩
    · exact .predicate (.inl rfl) h
    · exact .thenBranch (Nat.zero_le 1) hp h

theorem clauseFault_three :
    ClauseFault place (.list [p, t, f]) e ↔
      PredicateFault place p e ∨ IsPredicate p ∧
        (BranchFault place "true" t e ∨ ValidBranch t ∧ BranchFault place "false" f e) := by
  apply Iff.intro
  · intro h
    cases h with
    | kind h => exact absurd rfl h
    | length _ h => exact absurd rfl h
    | predicate _ h => exact .inl h
    | thenBranch _ hp h => exact .inr ⟨hp, .inl h⟩
    | elseBranch hp ht h => exact .inr ⟨hp, .inr ⟨ht, h⟩⟩
  · intro h
    rcases h with h | ⟨hp, h | ⟨ht, h⟩⟩
    · exact .predicate (.inr rfl) h
    · exact .thenBranch (Nat.le_refl 1) hp h
    · exact .elseBranch hp ht h

theorem clauseFault_of_length {items : List Value} (h : items.length ≠ 2) (h' : items.length ≠ 3) :
    ClauseFault place (.list items) e ↔ e = .malformed (.clauseLength place items.length) := by
  apply Iff.intro
  · intro hf
    cases hf with
    | kind h => exact absurd rfl h
    | length => rfl
    | predicate hlen | thenBranch hlen =>
      simp only [List.length_cons] at h h'
      omega
    | elseBranch => exact absurd rfl h'
  · intro he
    subst he
    exact .length h h'

theorem clauseFault_of_kind {v : Value} (h : v.kind ≠ .list) :
    ClauseFault place v e ↔ e = .malformed (.notClause place v.kind) := by
  apply Iff.intro
  · intro hf
    cases hf with
    | kind => rfl
    | _ => exact absurd rfl h
  · intro he
    subst he
    exact .kind h

theorem branchFault_mapping {which : String} {block : Dict Value} :
    BranchFault place which (.mapping block) e ↔
      EntriesFault s!"{place}.{which}" block.entries e := by
  apply Iff.intro
  · intro h
    cases h with
    | kind h => exact absurd rfl h
    | entries h => exact h
  · exact .entries

theorem branchFault_of_kind {which : String} {v : Value} (h : v.kind ≠ .mapping) :
    BranchFault place which v e ↔
      e = .malformed (.wrongKind s!"{place}: {which} branch" .mapping (some v.kind)) := by
  apply Iff.intro
  · intro hf
    cases hf with
    | kind => rfl
    | entries => exact absurd rfl h
  · intro he
    subst he
    exact .kind h

theorem entryFault_list {items : List Value} :
    EntryFault place conditionsKey (.list items) e ↔
      ListFault s!"{place}.{conditionsKey}" items e := by
  apply Iff.intro
  · intro h
    cases h with
    | kind h => exact absurd rfl h
    | items h => exact h
  · exact .items

theorem entryFault_of_kind {v : Value} (h : v.kind ≠ .list) :
    EntryFault place conditionsKey v e ↔
      e = .malformed (.wrongKind s!"{place}.{conditionsKey}" .list (some v.kind)) := by
  apply Iff.intro
  · intro hf
    cases hf with
    | kind => rfl
    | items => exact absurd rfl h
    | inside hk => exact absurd rfl hk
  · intro he
    subst he
    exact .kind h

theorem entryFault_mapping {k : String} {inner : Dict Value} (hk : k ≠ conditionsKey) :
    EntryFault place k (.mapping inner) e ↔ EntriesFault place inner.entries e := by
  apply Iff.intro
  · intro h
    cases h with
    | kind => exact absurd rfl hk
    | inside _ h => exact h
  · exact .inside hk

theorem not_entryFault {k : String} {v : Value} (hk : k ≠ conditionsKey)
    (hv : v.kind ≠ .mapping) : ¬EntryFault place k v e := by
  intro h
  cases h with
  | kind | items => exact hk rfl
  | inside => exact hv rfl

end Values

section Checking

theorem checks_condition (s : String) :
    Checks (Condition.parse s) (∃ c, Condition.parse s = .ok c) fun e =>
      (∀ c, Condition.parse s ≠ .ok c) ∧ e = .notCondition s := by
  apply Checks.of_unique
  intro e h
  rw [Condition.parse] at h
  cases hs : Condition.ofText? s with
  | some c =>
    rw [hs] at h
    cases h
  | none =>
    rw [hs] at h
    exact (Except.error.inj h).symm

theorem checks_readPredicate (place : String) (v : Value) :
    Checks (readPredicate place v) (IsPredicate v) (PredicateFault place v) := by
  cases v with
  | text s =>
    rw [readPredicate]
    apply ((checks_condition s).bind_pure fun c => (s, c)).congr
    · apply Iff.intro
      · intro h
        obtain ⟨c, hc⟩ := h
        exact ⟨s, c, rfl, hc⟩
      · intro h
        obtain ⟨_, c, heq, hc⟩ := h
        cases heq
        exact ⟨c, hc⟩
    · intro e
      apply Iff.intro
      · intro h
        obtain ⟨h, rfl⟩ := h
        exact .text h
      · intro h
        cases h with
        | kind h => exact absurd rfl h
        | text h => exact ⟨h, rfl⟩
  | _ =>
    apply Checks.of_error
    · intro h
      obtain ⟨_, _, h, -⟩ := h
      cases h
    · intro e
      apply Iff.intro
      · intro h
        cases h
        rfl
      · intro he
        subst he
        exact .kind nofun

mutual

theorem checks_ofValue (place : String) : ∀ v : Value,
    Checks (ofValue place v) (WellFormed v) (ClauseFault place v)
  | .list [p, t] => by
    rw [ofValue]
    have hchecks := (checks_readPredicate place p).bind fun r _ =>
      (checks_branchOfValue place "true" t).bind_pure fun br =>
        (⟨r.1, r.2, br, none⟩ : Clause)
    apply hchecks.congr
    · rw [wellFormed_iff]
      simp
    · exact fun e => clauseFault_two.symm
  | .list [p, t, f] => by
    rw [ofValue]
    have hchecks := (checks_readPredicate place p).bind fun r _ =>
      (checks_branchOfValue place "true" t).bind fun br _ =>
        (checks_branchOfValue place "false" f).bind_pure fun br' =>
          (⟨r.1, r.2, br, some br'⟩ : Clause)
    apply hchecks.congr
    · rw [wellFormed_iff]
      simp
    · exact fun e => clauseFault_three.symm
  | .list [] | .list [_] | .list (_ :: _ :: _ :: _ :: _) => by
    simp only [ofValue]
    exact .of_error (not_wellFormed_of_length (by simp) (by simp))
      fun e => clauseFault_of_length (by simp) (by simp)
  | .text _ | .integer _ | .boolean _ | .null | .mapping _ => by
    simp only [ofValue]
    exact .of_error (fun h => by cases h) fun e => clauseFault_of_kind nofun

theorem checks_ofValuesFrom (place : String) (i : Nat) : ∀ vs : List Value,
    Checks (ofValuesFrom place i vs) (∀ v ∈ vs, WellFormed v)
      (FirstFault WellFormed (fun j v => ClauseFault s!"{place}[{j}]" v) i vs)
  | [] => by
    rw [ofValuesFrom]
    exact .nil []
  | v :: vs => by
    rw [ofValuesFrom]
    exact .cons (checks_ofValue _ v) (checks_ofValuesFrom place (i + 1) vs) List.cons

theorem checks_branchOfValue (place which : String) : ∀ v : Value,
    Checks (branchOfValue place which v) (ValidBranch v) (BranchFault place which v)
  | .mapping ⟨es⟩ => by
    rw [branchOfValue]
    apply ((checks_nestedIn _ 0 es).bind_pure fun ns => (⟨⟨es⟩, ns⟩ : Branch Clause)).congr
    · rw [← validEntries_iff_forall, validBranch_mapping]
    · exact fun e => (branchFault_mapping.trans (entriesFault_iff 0)).symm
  | .text _ | .integer _ | .boolean _ | .null | .list _ => by
    simp only [branchOfValue]
    exact .of_error nofun fun e => branchFault_of_kind nofun

theorem checks_nestedIn (place : String) (i : Nat) : ∀ es : List (String × Value),
    Checks (nestedIn place es) (∀ x ∈ es, ValidEntries [x])
      (FirstFault (fun x => ValidEntries [x]) (fun _ x => EntryFault place x.1 x.2) i es)
  | [] => by
    rw [nestedIn]
    exact .nil []
  | (k, v) :: es => by
    rw [nestedIn]
    exact .cons (checks_nestedAt place k v) (checks_nestedIn place (i + 1) es) (· ++ ·)

theorem checks_nestedAt (place k : String) : ∀ v : Value,
    Checks (nestedAt place k v) (ValidEntries [(k, v)]) (EntryFault place k v)
  | .list items => by
    rw [nestedAt]
    by_cases hk : k = conditionsKey
    · rw [if_pos hk]
      subst hk
      apply (checks_ofValuesFrom _ 0 items).congr
      · exact validEntries_list.symm
      · exact fun e => (entryFault_list.trans listFault_iff).symm
    · rw [if_neg hk]
      exact .of_ok (validEntries_other hk nofun) fun _ => not_entryFault hk nofun
  | .mapping ⟨es⟩ => by
    rw [nestedAt]
    by_cases hk : k = conditionsKey
    · rw [if_pos hk]
      subst hk
      exact .of_error (not_validEntries nofun) fun e => entryFault_of_kind nofun
    · rw [if_neg hk]
      apply (checks_nestedIn place 0 es).congr
      · rw [← validEntries_iff_forall, validEntries_mapping hk]
      · exact fun e => ((entryFault_mapping hk).trans (entriesFault_iff 0)).symm
  | .text _ | .integer _ | .boolean _ | .null => by
    simp only [nestedAt]
    by_cases hk : k = conditionsKey
    · rw [if_pos hk]
      subst hk
      exact .of_error (not_validEntries nofun) fun e => entryFault_of_kind nofun
    · rw [if_neg hk]
      exact .of_ok (validEntries_other hk nofun) fun _ => not_entryFault hk nofun

end

/-- A list of conditions is read if all its values are well-formed, and else its first fault is
the error. -/
theorem checks_ofValues (place : String) (vs : List Value) :
    Checks (ofValues place vs) (∀ v ∈ vs, WellFormed v) (ListFault place vs) := by
  rw [ofValues]
  exact (checks_ofValuesFrom place 0 vs).congr Iff.rfl fun e => listFault_iff.symm

end Checking

end BuildDesc.Clause
