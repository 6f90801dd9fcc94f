import BuildDesc.Proofs.Clauses
import BuildDesc.Proofs.Validation

namespace BuildDesc

namespace Clause

/-- The values of all lists of conditions in a block, in the order of the document. -/
def listed (block : Dict Value) : List Value :=
  Buckets.valuesOf conditionsKey (Buckets.flatten block.entries)

/-- Holds of a list of a predicate and one or two mappings, and of the clause that has this text as
its predicate and these mappings as its blocks. -/
inductive Mirrors : Value → Clause → Prop
  | oneBranch {s c block ns} (hs : Condition.parse s = .ok c)
    (hns : List.Forall₂ Mirrors (listed block) ns) :
    Mirrors (.list [.text s, .mapping block]) ⟨s, c, ⟨block, ns⟩, none⟩
  | twoBranches {s c block ns block' ns'} (hs : Condition.parse s = .ok c)
    (hns : List.Forall₂ Mirrors (listed block) ns)
    (hns' : List.Forall₂ Mirrors (listed block') ns') :
    Mirrors (.list [.text s, .mapping block, .mapping block'])
      ⟨s, c, ⟨block, ns⟩, some ⟨block', ns'⟩⟩

def MirrorsList (v : Value) (cs : List Clause) : Prop :=
  ∃ items, v = .list items ∧ List.Forall₂ Mirrors items cs

def MirrorsBlock (block : Dict Value) (cs? : Option (List Clause)) : Prop :=
  Option.Rel MirrorsList (block.get? conditionsKey) cs?

def MirrorsKey (key : String) (block : Dict Value) (cs? : Option (List Clause)) : Prop :=
  (block.get? key = none ∧ cs? = none) ∨
    ∃ inner, block.get? key = some (.mapping inner) ∧ MirrorsBlock inner cs?

/-- Holds of a mapping whose conditions, if it has any, are a list of well-formed values. -/
def ValidBlock (block : Dict Value) : Prop :=
  ∀ v, block.get? conditionsKey = some v → ∃ items, v = .list items ∧ ∀ u ∈ items, WellFormed u

def BlockFault (place : String) (block : Dict Value) (e : Error) : Prop :=
  ∃ v, block.get? conditionsKey = some v ∧ EntryFault place conditionsKey v e

def ValidKey (key : String) (block : Dict Value) : Prop :=
  ∀ v, block.get? key = some v → ∃ inner, v = .mapping inner ∧ ValidBlock inner

inductive SettingsFault (place : String) : Value → Error → Prop
  | kind {v} (h : v.kind ≠ .mapping) :
    SettingsFault place v (.malformed (.wrongKind place .mapping (some v.kind)))
  | conditions {inner e} (h : BlockFault place inner e) : SettingsFault place (.mapping inner) e

def KeyFault (place key : String) (block : Dict Value) (e : Error) : Prop :=
  ∃ v, block.get? key = some v ∧ SettingsFault place v e

variable {place key : String} {vs : List Value} {cs : List Clause} {cs? : Option (List Clause)}
  {block : Dict Value}

theorem eq_mapping_of_branchOfValue {which : String} {v : Value} {br : Branch Clause}
    (h : branchOfValue place which v = .ok br) : v = .mapping br.block := by
  cases v with
  | mapping block =>
    rw [branchOfValue] at h
    obtain ⟨ns, -, h⟩ := bind_eq_ok_iff.1 h
    cases h
    rfl
  | _ =>
    simp only [branchOfValue] at h
    cases h

mutual

theorem Describes.mirrors : ∀ {v : Value} {c : Clause}, Describes v c → Mirrors v c
  | v, ⟨s, c, ⟨block, ns⟩, else?⟩, h => by
    obtain ⟨t, rest, rfl, hs, ht, hrest⟩ := ofValue_eq_ok (h "")
    obtain rfl := eq_mapping_of_branchOfValue ht
    have hns := forall₂_mirrors h.thenBranch
    -- there is a second block exactly if the list has a third item
    match else?, hrest with
    | none, .inl hnone =>
      obtain ⟨rfl, -⟩ := hnone
      exact .oneBranch hs hns
    | some ⟨block', ns'⟩, .inr hsome =>
      obtain ⟨f, br, rfl, hbr, hf⟩ := hsome
      cases hbr
      obtain rfl := eq_mapping_of_branchOfValue hf
      exact .twoBranches hs hns (forall₂_mirrors (h.elseBranch rfl))

theorem forall₂_mirrors : ∀ {vs : List Value} {cs : List Clause},
    List.Forall₂ Describes vs cs → List.Forall₂ Mirrors vs cs
  | [], [], _ => .nil
  | _ :: _, _ :: _, .cons h hs => .cons h.mirrors (forall₂_mirrors hs)

end

theorem mirrorsList_of_ofValues (h : ofValues place vs = .ok cs) : MirrorsList (.list vs) cs :=
  ⟨vs, rfl, forall₂_mirrors (ofValues_eq_ok_iff.1 h)⟩

theorem mirrorsBlock_of_ofBlock? (h : ofBlock? place block = .ok cs?) : MirrorsBlock block cs? := by
  rw [ofBlock?] at h
  rw [MirrorsBlock]
  generalize block.get? conditionsKey = v? at h
  cases v? with
  | none =>
    cases h
    exact .none
  | some v =>
    cases v with
    | list items =>
      obtain ⟨cs, hcs, h⟩ := map_eq_ok_iff.1 h
      cases h
      exact .some (mirrorsList_of_ofValues hcs)
    | _ => cases h

theorem mirrorsKey_of_ofKey? (h : ofKey? place key block = .ok cs?) : MirrorsKey key block cs? := by
  rw [ofKey?] at h
  rw [MirrorsKey]
  generalize block.get? key = v? at h
  cases v? with
  | none =>
    cases h
    exact .inl ⟨rfl, rfl⟩
  | some v =>
    cases v with
    | mapping inner => exact .inr ⟨inner, rfl, mirrorsBlock_of_ofBlock? h⟩
    | _ => cases h

theorem settingsFault_mapping {e : Error} :
    SettingsFault place (.mapping block) e ↔ BlockFault place block e := by
  apply Iff.intro
  · intro h
    cases h with
    | kind h => exact absurd rfl h
    | conditions h => exact h
  · exact .conditions

theorem settingsFault_of_kind {v : Value} {e : Error} (h : v.kind ≠ .mapping) :
    SettingsFault place v e ↔ e = .malformed (.wrongKind place .mapping (some v.kind)) := by
  apply Iff.intro
  · intro hf
    cases hf with
    | kind => rfl
    | conditions => exact absurd rfl h
  · intro he
    subst he
    exact .kind h

theorem checks_ofBlock? (place : String) (block : Dict Value) :
    Checks (ofBlock? place block) (ValidBlock block) (BlockFault place block) := by
  rw [ofBlock?]
  unfold ValidBlock BlockFault
  generalize block.get? conditionsKey = v?
  cases v? with
  | none => exact .absent none
  | some v =>
    apply Checks.present
    cases v with
    | list items =>
      apply ((checks_ofValues _ items).map some).congr
      · simp only [Value.list.injEq, exists_eq_left']
      · exact fun e => entryFault_list.symm
    | _ => exact .of_error (by simp) fun e => entryFault_of_kind (by simp [Value.kind])

theorem checks_ofKey? (place key : String) (block : Dict Value) :
    Checks (ofKey? place key block) (ValidKey key block) (KeyFault place key block) := by
  rw [ofKey?]
  unfold ValidKey KeyFault
  generalize block.get? key = v?
  cases v? with
  | none => exact .absent none
  | some v =>
    apply Checks.present
    cases v with
    | mapping inner =>
      apply (checks_ofBlock? place inner).congr
      · simp only [Value.mapping.injEq, exists_eq_left']
      · exact fun e => settingsFault_mapping.symm
    | _ => exact .of_error (by simp) fun e => settingsFault_of_kind (by simp [Value.kind])

end Clause

end BuildDesc
