import BuildDesc.Proofs.Configurations
import Mathlib.Data.List.Basic

namespace BuildDesc

/-- Two bindings that have the same text for each of some names, or none for either. -/
def Bindings.AgreeOn (b b' : Bindings) (xs : List String) : Prop :=
  ∀ x ∈ xs, b[x]? = b'[x]?

variable {b b' : Bindings} {xs ys : List String}

theorem Bindings.agreeOn_append :
    AgreeOn b b' (xs ++ ys) ↔ AgreeOn b b' xs ∧ AgreeOn b b' ys :=
  List.forall_mem_append

theorem Bindings.AgreeOn.mono (h : AgreeOn b b' ys) (hs : xs ⊆ ys) : AgreeOn b b' xs :=
  fun x hx => h x (hs hx)

namespace Condition

mutual

/-- The names in a condition, whether or not its evaluation gets to them. -/
def names : Condition → List String
  | text _ | integer _ | boolean _ => []
  | name x => [x]
  | list items => namesIn items
  | compare lhs _ rhs => names lhs ++ names rhs
  | not c => names c
  | and lhs rhs => names lhs ++ names rhs
  | or lhs rhs => names lhs ++ names rhs

def namesIn : List Condition → List String
  | [] => []
  | c :: cs => names c ++ namesIn cs

end

mutual

theorem eval_congr : ∀ {c : Condition}, Bindings.AgreeOn b b' c.names → eval b c = eval b' c
  | text _, _ | integer _, _ | boolean _, _ => by
    simp only [eval]
  | name x, h => by
    have hx : b[x]? = b'[x]? := h x List.mem_cons_self
    rw [eval, eval, hx]
  | list items, h => by
    rw [names] at h
    rw [eval, eval, evalList_congr h]
  | compare lhs op rhs, h => by
    rw [names, Bindings.agreeOn_append] at h
    rw [eval, eval, eval_congr h.1, eval_congr h.2]
  | not c, h => by
    rw [names] at h
    rw [eval, eval, eval_congr h]
  | and lhs rhs, h => by
    rw [names, Bindings.agreeOn_append] at h
    rw [eval, eval, eval_congr h.1, eval_congr h.2]
  | or lhs rhs, h => by
    rw [names, Bindings.agreeOn_append] at h
    rw [eval, eval, eval_congr h.1, eval_congr h.2]

theorem evalList_congr : ∀ {cs : List Condition},
    Bindings.AgreeOn b b' (namesIn cs) → evalList b cs = evalList b' cs
  | [], _ => by
    simp only [evalList]
  | c :: cs, h => by
    rw [namesIn, Bindings.agreeOn_append] at h
    rw [evalList, evalList, eval_congr h.1, evalList_congr h.2]

end

end Condition

namespace Clause

mutual

/-- The names in the conditions of a clause and of the clauses nested in it, at any depth. -/
def names : Clause → List String
  | ⟨_, c, ⟨_, ns⟩, none⟩ => c.names ++ namesIn ns
  | ⟨_, c, ⟨_, ns⟩, some ⟨_, ms⟩⟩ => c.names ++ (namesIn ns ++ namesIn ms)

def namesIn : List Clause → List String
  | [] => []
  | c :: cs => names c ++ namesIn cs

end

variable {c : Clause} {cs : List Clause} {br : Branch Clause}

theorem names_condition_subset (c : Clause) : c.condition.names ⊆ c.names := by
  match c with
  | ⟨_, _, ⟨_, _⟩, none⟩ | ⟨_, _, ⟨_, _⟩, some ⟨_, _⟩⟩ =>
    rw [names]
    exact List.subset_append_left _ _

theorem names_thenBranch_subset (c : Clause) : namesIn c.thenBranch.nested ⊆ c.names := by
  match c with
  | ⟨_, _, ⟨_, _⟩, none⟩ =>
    rw [names]
    exact List.subset_append_right _ _
  | ⟨_, _, ⟨_, _⟩, some ⟨_, _⟩⟩ =>
    rw [names]
    exact List.subset_append_of_subset_right _ (List.subset_append_left _ _)

theorem names_elseBranch_subset (h : c.elseBranch = some br) : namesIn br.nested ⊆ c.names := by
  match c, h with
  | ⟨_, _, ⟨_, _⟩, some ⟨_, _⟩⟩, rfl =>
    rw [names]
    exact List.subset_append_of_subset_right _ (List.subset_append_right _ _)

theorem names_selected?_subset (h : selected? b c = some br) : namesIn br.nested ⊆ c.names := by
  rw [selected?] at h
  by_cases hc : c.condition.holds b
  · rw [if_pos hc] at h
    cases h
    exact c.names_thenBranch_subset
  · rw [if_neg hc] at h
    exact names_elseBranch_subset h

theorem namesIn_append (cs ds : List Clause) : namesIn (cs ++ ds) = namesIn cs ++ namesIn ds := by
  induction cs with
  | nil => rfl
  | cons c cs ih => rw [List.cons_append, namesIn, namesIn, ih, List.append_assoc]

/-- A round leaves no new names. -/
theorem namesIn_pending_subset (b : Bindings) (cs : List Clause) :
    namesIn (pending b cs) ⊆ namesIn cs := by
  induction cs with
  | nil => exact List.Subset.refl []
  | cons c cs ih =>
    rw [pending, selected, namesIn] at *
    cases hbr : selected? b c with
    | none =>
      rw [List.filterMap_cons_none hbr]
      exact List.subset_append_of_subset_right _ ih
    | some br =>
      rw [List.filterMap_cons_some hbr, List.flatMap_cons, namesIn_append]
      exact List.append_subset.2 ⟨List.subset_append_of_subset_left _ (names_selected?_subset hbr),
        List.subset_append_of_subset_right _ ih⟩

theorem names_subset_of_mem (h : c ∈ cs) : c.names ⊆ namesIn cs := by
  induction h with
  | head ds =>
    rw [namesIn]
    exact List.subset_append_left _ _
  | tail d _ ih =>
    rw [namesIn]
    exact List.subset_append_of_subset_right _ ih

theorem eval_condition_congr (h : Bindings.AgreeOn b b' c.names) :
    c.condition.eval b = c.condition.eval b' :=
  Condition.eval_congr (h.mono c.names_condition_subset)

theorem selected?_congr (h : Bindings.AgreeOn b b' c.names) : selected? b c = selected? b' c := by
  rw [selected?, selected?, Condition.holds, Condition.holds, eval_condition_congr h]

theorem records_congr (h : Bindings.AgreeOn b b' c.names) : records b c = records b' c := by
  rw [records, records, Condition.unbound?, Condition.unbound?, eval_condition_congr h,
    selected?_congr h]

theorem selected_congr (h : Bindings.AgreeOn b b' (namesIn cs)) : selected b cs = selected b' cs :=
  List.filterMap_congr fun _ hc => selected?_congr (h.mono (names_subset_of_mem hc))

theorem pending_congr (h : Bindings.AgreeOn b b' (namesIn cs)) : pending b cs = pending b' cs := by
  rw [pending, pending, selected_congr h]

theorem gather_congr (h : Bindings.AgreeOn b b' (namesIn cs)) (found : Buckets) :
    gather b found cs = gather b' found cs := by
  rw [gather, gather, selected_congr h]

theorem flatMap_records_congr (h : Bindings.AgreeOn b b' (namesIn cs)) :
    cs.flatMap (records b) = cs.flatMap (records b') :=
  List.flatMap_congr fun _ hc => records_congr (h.mono (names_subset_of_mem hc))

theorem resolveFrom_congr (h : Bindings.AgreeOn b b' (namesIn cs)) (number : Nat) (found : Buckets)
    (later : Nat) : resolveFrom b number found cs later = resolveFrom b' number found cs later := by
  induction later generalizing number found cs with
  | zero =>
    rw [resolveFrom, resolveFrom, flatMap_records_congr h, pending_congr h, gather_congr h]
  | succ later ih =>
    -- the bindings agree on the clauses of the next round, since these bring no new names
    have hpending := h.mono (namesIn_pending_subset b' cs)
    rw [resolveFrom, resolveFrom, flatMap_records_congr h, pending_congr h, gather_congr h,
      ih hpending]

theorem resolve_congr (h : Bindings.AgreeOn b b' (namesIn cs)) (maxRounds : Nat) :
    resolve b maxRounds cs = resolve b' maxRounds cs :=
  resolveFrom_congr h 1 ∅ (maxRounds - 1)

end Clause

namespace Traced

variable {α β : Type} {x : Traced α} {f g : α → Traced β}

theorem bind_congr (h : ∀ a, x.result = .ok a → f a = g a) : x >>= f = x >>= g := by
  obtain ⟨log, result⟩ := x
  cases result with
  | error e => rfl
  | ok a =>
    have ha := h a rfl
    change (⟨log ++ (f a).log, (f a).result⟩ : Traced β) = ⟨log ++ (g a).log, (g a).result⟩
    rw [ha]

end Traced

namespace Document

/-- The names in the conditions on all targets and on the targets called `name`, at any depth. -/
def names (d : Document) (name : String) : List String :=
  Clause.namesIn (d.conditions.getD []) ++
    (d.targets.filter fun t => t.name == name).flatMap fun t =>
      Clause.namesIn (t.conditions.getD []) ++ Clause.namesIn (t.dependentConditions.getD [])

variable {d d' : Document} {o : Options} {name : String} {t : Target} {cs : List Clause}

theorem contribute_congr (h : Bindings.AgreeOn o.bindings b' (Clause.namesIn cs))
    (c : Configuration) : contribute o c cs = contribute { o with bindings := b' } c cs := by
  rw [contribute, contribute, Clause.resolve_congr h]

theorem names_target_eq (h : d.findTarget name = .ok t) :
    d.names name =
      Clause.namesIn (d.conditions.getD []) ++
        (Clause.namesIn (t.conditions.getD []) ++
          Clause.namesIn (t.dependentConditions.getD [])) := by
  have hfilter := filter_eq_singleton_iff.2 (findTarget_eq_ok_iff.1 h)
  rw [names, hfilter, List.flatMap_singleton]

/-- Configuring a target does not depend on other targets, and on bindings only through the names
in the conditions on it. -/
theorem configure_noninterference (hdirectory : d.directory = d'.directory)
    (hconditions : d.conditions = d'.conditions)
    (htargets : (d.targets.filter fun t => t.name == name) =
      d'.targets.filter fun t => t.name == name)
    (hnames : Bindings.AgreeOn o.bindings b' (d.names name)) :
    d.configure o name = d'.configure { o with bindings := b' } name := by
  have hfind : d.findTarget name = d'.findTarget name := by
    rw [findTarget, findTarget, htargets]
  rw [configure, configure, ← hfind, ← hconditions, ← hdirectory]
  apply Traced.bind_congr
  intro t ht
  rw [names_target_eq ht, Bindings.agreeOn_append, Bindings.agreeOn_append] at hnames
  obtain ⟨hshared, hown, hdependent⟩ := hnames
  apply Traced.bind_congr
  intro _ _
  apply Traced.bind_congr
  intro sources _
  apply Traced.bind_congr
  intro shared h
  rw [require_eq_ok_iff.1 h, Option.getD_some] at hshared
  apply Traced.bind_congr
  intro conditions h
  rw [require_eq_ok_iff.1 h, Option.getD_some] at hown
  apply Traced.bind_congr
  intro dependent h
  rw [require_eq_ok_iff.1 h, Option.getD_some] at hdependent
  -- what came so far reads no bindings
  rw [contribute_congr hshared]
  apply Traced.bind_congr
  intro c _
  rw [contribute_congr hown]
  apply Traced.bind_congr
  intro c _
  rw [contribute_congr hdependent]
  rfl

def platformTarget (name : String) : Target where
  name
  sources := some ["a.c"]
  conditions := some [⟨"OS == 'linux'", .compare (.name "OS") .equal (.text "linux"),
    ⟨⟨[("defines", .list [.text "LINUX"])]⟩, []⟩, none⟩]
  dependentConditions := some []

def platformOptions : Options :=
  Options.default.withBinding osBinding "linux"

theorem configure_noninterference_platform :
    Bindings.AgreeOn platformOptions.bindings (platformOptions.bindings.insert "x" "1")
        (names ⟨none, some [], [platformTarget "a"]⟩ "a") ∧
      configure ⟨none, some [], [platformTarget "a"]⟩ platformOptions "a" =
        configure ⟨none, some [], [platformTarget "b", platformTarget "a"]⟩
          (platformOptions.withBinding "x" "1") "a" := by
  have hinsert : ∀ b : Bindings, b["OS"]? = (b.insert "x" "1")["OS"]? := by
    intro b
    rw [Std.ExtTreeMap.getElem?_insert, if_neg (by decide)]
  have hnames : Bindings.AgreeOn platformOptions.bindings
      (platformOptions.bindings.insert "x" "1")
      (names ⟨none, some [], [platformTarget "a"]⟩ "a") := by
    intro x hx
    rw [List.mem_singleton.1 hx]
    exact hinsert platformOptions.bindings
  exact ⟨hnames, configure_noninterference rfl rfl rfl hnames⟩

end Document

end BuildDesc
