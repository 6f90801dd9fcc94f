import BuildDesc.Clause
import BuildDesc.Proofs.Merging
import BuildDesc.Proofs.Outcomes
import Mathlib.Data.List.Forall2

namespace BuildDesc

namespace Clause

variable {place which : String} {v : Value} {vs : List Value} {c : Clause}
  {cs : List Clause} {i : Nat}

theorem agree_readPredicate (place place' : String) (v : Value) :
    Agree (readPredicate place v) (readPredicate place' v) := by
  cases v with
  | text s => exact .refl _
  | _ => exact .throw rfl

mutual

theorem agree_ofValue (place place' : String) : ∀ v : Value,
    Agree (ofValue place v) (ofValue place' v)
  | .list [p, t] => by
    rw [ofValue, ofValue]
    apply (agree_readPredicate place place' p).bind
    intro r
    exact (agree_branchOfValue place place' "true" t).bind fun _ => .refl _
  | .list [p, t, e] => by
    rw [ofValue, ofValue]
    apply (agree_readPredicate place place' p).bind
    intro r
    apply (agree_branchOfValue place place' "true" t).bind
    intro br
    exact (agree_branchOfValue place place' "false" e).bind fun _ => .refl _
  | .list [] | .list [_] | .list (_ :: _ :: _ :: _ :: _) => by
    simp only [ofValue]
    exact .throw rfl
  | .text _ | .integer _ | .boolean _ | .null | .mapping _ => by
    simp only [ofValue]
    exact .throw rfl

theorem agree_ofValuesFrom (place place' : String) (i j : Nat) : ∀ vs : List Value,
    Agree (ofValuesFrom place i vs) (ofValuesFrom place' j vs)
  | [] => by
    rw [ofValuesFrom, ofValuesFrom]
    exact .refl _
  | v :: vs => by
    rw [ofValuesFrom, ofValuesFrom]
    apply (agree_ofValue _ _ v).bind
    intro c
    exact (agree_ofValuesFrom place place' (i + 1) (j + 1) vs).bind fun _ => .refl _

theorem agree_branchOfValue (place place' which : String) : ∀ v : Value,
    Agree (branchOfValue place which v) (branchOfValue place' which v)
  | .mapping ⟨es⟩ => by
    rw [branchOfValue, branchOfValue]
    exact (agree_nestedIn _ _ es).bind fun _ => .refl _
  | .text _ | .integer _ | .boolean _ | .null | .list _ => by
    simp only [branchOfValue]
    exact .throw rfl

theorem agree_nestedIn (place place' : String) : ∀ es : List (String × Value),
    Agree (nestedIn place es) (nestedIn place' es)
  | [] => by
    rw [nestedIn, nestedIn]
    exact .refl _
  | (k, v) :: es => by
    rw [nestedIn, nestedIn]
    apply (agree_nestedAt place place' k v).bind
    intro cs
    exact (agree_nestedIn place place' es).bind fun _ => .refl _

theorem agree_nestedAt (place place' k : String) : ∀ v : Value,
    Agree (nestedAt place k v) (nestedAt place' k v)
  | .list items => by
    rw [nestedAt, nestedAt]
    by_cases hk : k = conditionsKey
    · rw [if_pos hk, if_pos hk]
      exact agree_ofValuesFrom _ _ 0 0 items
    · rw [if_neg hk, if_neg hk]
      exact .refl _
  | .mapping ⟨es⟩ => by
    rw [nestedAt, nestedAt]
    by_cases hk : k = conditionsKey
    · rw [if_pos hk, if_pos hk]
      exact .throw rfl
    · rw [if_neg hk, if_neg hk]
      exact agree_nestedIn _ _ es
  | .text _ | .integer _ | .boolean _ | .null => by
    simp only [nestedAt]
    by_cases hk : k = conditionsKey
    · rw [if_pos hk, if_pos hk]
      exact .throw rfl
    · rw [if_neg hk, if_neg hk]
      exact .refl _

end

/-- A value describes a clause if it is read as that clause, wherever it stands. -/
def Describes (v : Value) (c : Clause) : Prop :=
  ∀ place, ofValue place v = .ok c

theorem describes_of_ofValue (h : ofValue place v = .ok c) : Describes v c :=
  fun place' => (agree_ofValue place place' v).eq_ok h

theorem ofValuesFrom_eq_ok_iff :
    ofValuesFrom place i vs = .ok cs ↔ List.Forall₂ Describes vs cs := by
  induction vs generalizing i cs with
  | nil =>
    rw [ofValuesFrom, List.forall₂_nil_left_iff]
    exact ⟨fun h => (Except.ok.inj h).symm, fun h => congrArg Except.ok h.symm⟩
  | cons v vs ih =>
    rw [ofValuesFrom, List.forall₂_cons_left_iff]
    apply Iff.intro
    · intro h
      obtain ⟨c, hc, h⟩ := bind_eq_ok_iff.1 h
      obtain ⟨ds, hds, h⟩ := bind_eq_ok_iff.1 h
      exact ⟨c, ds, describes_of_ofValue hc, ih.1 hds, (Except.ok.inj h).symm⟩
    · intro h
      obtain ⟨c, ds, hc, hds, rfl⟩ := h
      rw [hc, ih.2 hds]
      rfl

theorem ofValues_eq_ok_iff : ofValues place vs = .ok cs ↔ List.Forall₂ Describes vs cs :=
  ofValuesFrom_eq_ok_iff

mutual

theorem describes_of_nestedIn {place : String} : ∀ {es : List (String × Value)} {ns : List Clause},
    nestedIn place es = .ok ns →
      List.Forall₂ Describes (Buckets.valuesOf conditionsKey (Buckets.flatten es)) ns
  | [], ns, h => by
    rw [nestedIn] at h
    cases h
    rw [Buckets.flatten]
    exact .nil
  | (k, v) :: es, ns, h => by
    rw [nestedIn] at h
    obtain ⟨ms, hms, h⟩ := bind_eq_ok_iff.1 h
    obtain ⟨ls, hls, h⟩ := bind_eq_ok_iff.1 h
    cases h
    rw [Buckets.flatten, Buckets.valuesOf_append]
    exact List.rel_append (describes_of_nestedAt hms) (describes_of_nestedIn hls)

theorem describes_of_nestedAt {place k : String} : ∀ {v : Value} {ns : List Clause},
    nestedAt place k v = .ok ns →
      List.Forall₂ Describes (Buckets.valuesOf conditionsKey (Buckets.flattenAt k v)) ns
  | .list items, ns, h => by
    rw [nestedAt] at h
    rw [Buckets.flattenAt, Buckets.valuesOf_cons, Buckets.valuesOf_nil, List.append_nil]
    by_cases hk : k = conditionsKey
    · rw [if_pos hk] at h
      rw [if_pos hk]
      exact ofValuesFrom_eq_ok_iff.1 h
    · rw [if_neg hk] at h
      cases h
      rw [if_neg hk]
      exact .nil
  | .mapping ⟨es⟩, ns, h => by
    rw [nestedAt] at h
    rw [Buckets.flattenAt, Buckets.valuesOf_cons]
    by_cases hk : k = conditionsKey
    · rw [if_pos hk] at h
      cases h
    · rw [if_neg hk] at h
      rw [if_neg hk]
      exact describes_of_nestedIn h
  | .text _, ns, h | .integer _, ns, h | .boolean _, ns, h | .null, ns, h => by
    simp only [nestedAt] at h
    simp only [Buckets.flattenAt, Buckets.valuesOf_cons, Buckets.valuesOf_nil]
    by_cases hk : k = conditionsKey
    · rw [if_pos hk] at h
      cases h
    · rw [if_neg hk] at h
      cases h
      rw [if_neg hk]
      exact .nil

end

end Clause

/-- The clauses nested in a branch are those that its category of conditions describes. -/
def Branch.Faithful (br : Branch Clause) : Prop :=
  List.Forall₂ Clause.Describes
    (Buckets.valuesOf conditionsKey (Buckets.flatten br.block.entries)) br.nested

namespace Clause

theorem faithful_of_branchOfValue {br : Branch Clause} (h : branchOfValue place which v = .ok br) :
    br.Faithful := by
  cases v with
  | mapping block =>
    rw [branchOfValue] at h
    obtain ⟨ns, hns, h⟩ := bind_eq_ok_iff.1 h
    cases h
    exact describes_of_nestedIn hns
  | _ =>
    simp only [branchOfValue] at h
    cases h

theorem readPredicate_eq_ok_iff {s : String} {e : Condition} :
    readPredicate place v = .ok (s, e) ↔ v = .text s ∧ Condition.parse s = .ok e := by
  cases v with
  | text t =>
    rw [readPredicate]
    apply Iff.intro
    · intro h
      obtain ⟨e', he, h⟩ := bind_eq_ok_iff.1 h
      cases h
      exact ⟨rfl, he⟩
    · intro h
      obtain ⟨h, he⟩ := h
      cases h
      rw [he]
      rfl
  | _ =>
    apply Iff.intro
    · intro h
      cases h
    · intro h
      obtain ⟨h, -⟩ := h
      cases h

/-- What a value looks like that is read as a clause. -/
theorem ofValue_eq_ok (h : ofValue place v = .ok c) :
    ∃ t rest, v = .list (.text c.predicate :: t :: rest) ∧
      Condition.parse c.predicate = .ok c.condition ∧
      branchOfValue place "true" t = .ok c.thenBranch ∧
      ((rest = [] ∧ c.elseBranch = none) ∨
        ∃ e br, rest = [e] ∧ c.elseBranch = some br ∧
          branchOfValue place "false" e = .ok br) := by
  match v, h with
  | .list [p, t], h =>
    rw [ofValue] at h
    obtain ⟨⟨s, e⟩, hp, h⟩ := bind_eq_ok_iff.1 h
    obtain ⟨hs, he⟩ := readPredicate_eq_ok_iff.1 hp
    obtain ⟨br, hbr, h⟩ := bind_eq_ok_iff.1 h
    cases h
    exact ⟨t, [], by rw [hs], he, hbr, .inl ⟨rfl, rfl⟩⟩
  | .list [p, t, f], h =>
    rw [ofValue] at h
    obtain ⟨⟨s, e⟩, hp, h⟩ := bind_eq_ok_iff.1 h
    obtain ⟨hs, he⟩ := readPredicate_eq_ok_iff.1 hp
    obtain ⟨br, hbr, h⟩ := bind_eq_ok_iff.1 h
    obtain ⟨br', hbr', h⟩ := bind_eq_ok_iff.1 h
    cases h
    exact ⟨t, [f], by rw [hs], he, hbr, .inr ⟨f, br', rfl, rfl, hbr'⟩⟩
  | .list [], h | .list [_], h | .list (_ :: _ :: _ :: _ :: _), h | .text _, h | .integer _, h
  | .boolean _, h | .null, h | .mapping _, h =>
    simp only [ofValue] at h
    cases h

theorem Describes.thenBranch (h : Describes v c) : c.thenBranch.Faithful := by
  obtain ⟨t, rest, -, -, hbr, -⟩ := ofValue_eq_ok (h "")
  exact faithful_of_branchOfValue hbr

theorem Describes.elseBranch {br : Branch Clause} (h : Describes v c)
    (he : c.elseBranch = some br) : br.Faithful := by
  obtain ⟨t, rest, -, -, -, ⟨-, hn⟩ | ⟨e, br', -, hs, hbr⟩⟩ := ofValue_eq_ok (h "")
  · rw [hn] at he
    cases he
  · rw [hs] at he
    cases he
    exact faithful_of_branchOfValue hbr

end Clause

end BuildDesc
