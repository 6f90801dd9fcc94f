import BuildDesc.Proofs.Configurations
import BuildDesc.Proofs.Levels
import BuildDesc.Proofs.Merging

namespace BuildDesc

namespace Configuration

def AbsorbFault (found : Buckets) (e : Error) : Prop :=
  FirstFault (fun category => ∀ v ∈ found.values category, v.kind = .text)
    (fun _ category e => Value.TextsFault category (found.values category) e) 0 categories e

variable {found : Buckets} {category : String} {e : Error}

theorem checks_textsOf (found : Buckets) (category : String) :
    Checks (textsOf found category) (∀ v ∈ found.values category, v.kind = .text)
      (Value.TextsFault category (found.values category)) :=
  Value.checks_texts category (found.values category)

theorem checks_absorb (c : Configuration) (found : Buckets) :
    Checks (c.absorb found) (Admits found) (AbsorbFault found) := by
  have hchecks := (checks_textsOf found "sources").bind fun sources _ =>
    (checks_textsOf found "defines").bind fun defines _ =>
      (checks_textsOf found "cflags").bind fun cflags _ =>
        (checks_textsOf found "ldflags").bind fun ldflags _ =>
          (checks_textsOf found "libraries").bind_pure fun libraries =>
            (⟨c.sources ++ sources, c.defines ++ defines, c.cflags ++ cflags,
              c.ldflags ++ ldflags, c.libraries ++ libraries⟩ : Configuration)
  apply hchecks.congr
  · simp only [Admits, categories, List.forall_mem_cons, List.not_mem_nil, false_implies,
      implies_true, and_true]
  · intro e
    simp only [AbsorbFault, categories, firstFault_cons, not_firstFault_nil, and_false, or_false]

theorem exists_of_absorbFault (h : AbsorbFault found e) :
    ∃ category ∈ categories, ∃ v ∈ found.values category,
      v.kind ≠ .text ∧ e = .malformed (.notText category v.kind) := by
  obtain ⟨category, hcategory, -, hfault⟩ := h.exists_mem
  obtain ⟨v, hv, -, hkind, he⟩ := ((Value.textsFault_iff 0).1 hfault).exists_mem
  exact ⟨category, hcategory, v, hv, hkind, he⟩

end Configuration

namespace Clause

def settings (o : Options) (cs : List Clause) : Buckets :=
  .ofBlocks (blocksBelow (selected? o.bindings) cs (max 1 o.maxRounds))

/-- Holds of clauses that are decided within the allowed rounds and select nothing but strings for
the categories of a configuration. -/
structure Settles (o : Options) (cs : List Clause) : Prop where
  rounds : level (selected? o.bindings) cs (max 1 o.maxRounds) = []
  settings : Configuration.Admits (settings o cs)

/-- The failure of a list of clauses. What was selected does not matter if rounds are exceeded. -/
inductive Failure (o : Options) (cs : List Clause) : Error → Prop
  | rounds (h : level (selected? o.bindings) cs (max 1 o.maxRounds) ≠ []) :
    Failure o cs (.tooManyRounds (max 1 o.maxRounds))
  | settings {e} (h : level (selected? o.bindings) cs (max 1 o.maxRounds) = [])
    (hf : Configuration.AbsorbFault (settings o cs) e) : Failure o cs e

def Finds (o : Options) (cs : List Clause) (category : String) (v : Value) : Prop :=
  ∃ i c br, i < max 1 o.maxRounds ∧ c ∈ level (selected? o.bindings) cs i ∧
    selected? o.bindings c = some br ∧
    v ∈ Buckets.valuesOf category (Buckets.flatten br.block.entries)

variable {o : Options} {cs : List Clause} {e : Error}

theorem finds_of_mem_settings {category : String} {v : Value}
    (h : v ∈ (settings o cs).values category) : Finds o cs category v := by
  rw [settings, Buckets.values_ofBlocks, List.mem_flatMap] at h
  obtain ⟨block, hblock, hv⟩ := h
  rw [blocksBelow, List.mem_flatMap] at hblock
  obtain ⟨i, hi, hblock⟩ := hblock
  rw [blocksAt, List.mem_map] at hblock
  obtain ⟨br, hbr, rfl⟩ := hblock
  obtain ⟨c, hc, hbr⟩ := List.mem_filterMap.1 hbr
  exact ⟨i, c, br, List.mem_range.1 hi, hc, hbr, hv⟩

theorem settles_iff (h : level (selected? o.bindings) cs (max 1 o.maxRounds) = []) :
    Settles o cs ↔ Configuration.Admits (settings o cs) :=
  ⟨fun hs => hs.settings, fun hs => ⟨h, hs⟩⟩

theorem failure_iff (h : level (selected? o.bindings) cs (max 1 o.maxRounds) = []) :
    Failure o cs e ↔ Configuration.AbsorbFault (settings o cs) e := by
  apply Iff.intro
  · intro hf
    cases hf with
    | rounds hne => exact absurd h hne
    | settings _ hf => exact hf
  · exact .settings h

theorem failure_of_rounds (h : level (selected? o.bindings) cs (max 1 o.maxRounds) ≠ []) :
    Failure o cs e ↔ e = .tooManyRounds (max 1 o.maxRounds) := by
  apply Iff.intro
  · intro hf
    cases hf with
    | rounds => rfl
    | settings hnil => exact absurd hnil h
  · intro he
    subst he
    exact .rounds h

end Clause

namespace Document

def contributeAll (o : Options) (c : Configuration) (css : List (List Clause)) :
    Except Error Configuration :=
  css.foldlM (fun c cs => (contribute o c cs).result) c

/-- The keys that the configuration of a target needs, in the order in which they are looked up,
and whether they are there. -/
def needs (d : Document) (name : String) (t : Target) : List (String × Bool) :=
  [(s!"targets[{name}].sources", t.sources.isSome),
    ("variables.conditions", d.conditions.isSome),
    (s!"targets[{name}].conditions", t.conditions.isSome),
    (s!"targets[{name}].direct_dependent_settings.conditions", t.dependentConditions.isSome)]

def NeedsFault (d : Document) (name : String) (t : Target) (e : Error) : Prop :=
  FirstFault (fun k => k.2 = true) (fun _ k e => k.2 = false ∧ e = .missingKey k.1) 0
    (d.needs name t) e

/-- What configuring a target fails with. -/
inductive Failure (d : Document) (o : Options) (name : String) : Error → Prop
  | notFound (h : name ∉ d.targetNames) : Failure d o name (.targetNotFound name)
  | ambiguous (h : 2 ≤ d.targetNames.count name) :
    Failure d o name (.ambiguousTarget name (d.targetNames.count name))
  | missingKey {t e} (ht : d.HasOnly name t) (h : d.NeedsFault name t e) : Failure d o name e
  | clauses {t own shared conditions dependent e} (ht : d.HasOnly name t)
    (hown : t.sources = some own) (hshared : d.conditions = some shared)
    (hconditions : t.conditions = some conditions)
    (hdependent : t.dependentConditions = some dependent)
    (h : FirstFault (Clause.Settles o) (fun _ cs e => Clause.Failure o cs e) 0
      [shared, conditions, dependent] e) : Failure d o name e

/-- Holds of the defects of values that selected blocks have in the categories of a
configuration. -/
def SelectedDefect (d : Document) (o : Options) (name : String) (defect : Defect) : Prop :=
  ∃ t cs category v, d.HasOnly name t ∧
    (d.conditions = some cs ∨ t.conditions = some cs ∨ t.dependentConditions = some cs) ∧
    category ∈ Configuration.categories ∧ Clause.Finds o cs category v ∧ v.kind ≠ .text ∧
    defect = .notText category v.kind

def needed (d : Document) (name : String) (t : Target) :
    Except Error (List String × List (List Clause)) := do
  let sources ← require s!"targets[{name}].sources" t.sources
  let shared ← require "variables.conditions" d.conditions
  let conditions ← require s!"targets[{name}].conditions" t.conditions
  let dependent ←
    require s!"targets[{name}].direct_dependent_settings.conditions" t.dependentConditions
  return (sources, [shared, conditions, dependent])

variable {d : Document} {o : Options} {name : String} {t : Target} {e : Error}

theorem checks_contribute (o : Options) (c : Configuration) (cs : List Clause) :
    Checks (contribute o c cs).result (Clause.Settles o cs) (Clause.Failure o cs) := by
  rw [contribute, Traced.result_bind]
  by_cases h : Clause.level (Clause.selected? o.bindings) cs (max 1 o.maxRounds) = []
  · rw [Clause.resolve_result_of_eq_nil h]
    apply (Configuration.checks_absorb c (Clause.settings o cs)).congr
    · exact (Clause.settles_iff h).symm
    · exact fun e => (Clause.failure_iff h).symm
  · rw [Clause.resolve_result_of_ne_nil h]
    exact .of_error (fun hs => h hs.rounds) fun e => Clause.failure_of_rounds h

theorem checks_contributeAll (o : Options) (i : Nat) (c : Configuration)
    (css : List (List Clause)) :
    Checks (contributeAll o c css) (∀ cs ∈ css, Clause.Settles o cs)
      (FirstFault (Clause.Settles o) (fun _ cs e => Clause.Failure o cs e) i css) := by
  induction css generalizing i c with
  | nil => exact .nil c
  | cons cs css ih =>
    rw [contributeAll, List.foldlM_cons]
    apply ((checks_contribute o c cs).bind fun c' _ => ih (i + 1) c').congr
    · rw [List.forall_mem_cons]
    · intro e
      rw [firstFault_cons]

theorem checks_require {α : Type} (key : String) (a? : Option α) :
    Checks (require key a?) (a?.isSome = true) fun e =>
      a?.isSome = false ∧ e = .missingKey key := by
  cases a? with
  | none => exact .of_error nofun fun e => and_iff_right rfl
  | some a => exact .of_ok rfl fun _ h => nomatch h.1

theorem checks_needed (d : Document) (name : String) (t : Target) :
    Checks (d.needed name t) (∀ k ∈ d.needs name t, k.2 = true) (d.NeedsFault name t) := by
  have hchecks := (checks_require s!"targets[{name}].sources" t.sources).bind fun sources _ =>
    (checks_require "variables.conditions" d.conditions).bind fun shared _ =>
      (checks_require s!"targets[{name}].conditions" t.conditions).bind fun conditions _ =>
        (checks_require s!"targets[{name}].direct_dependent_settings.conditions"
          t.dependentConditions).bind_pure fun dependent =>
            (sources, [shared, conditions, dependent])
  apply hchecks.congr
  · simp only [needs, List.forall_mem_cons, List.not_mem_nil, false_implies, implies_true,
      and_true]
  · intro e
    simp only [NeedsFault, needs, firstFault_cons, not_firstFault_nil, and_false, or_false]

theorem needed_eq_ok_iff {r : List String × List (List Clause)} :
    d.needed name t = .ok r ↔ ∃ own shared conditions dependent, t.sources = some own ∧
      d.conditions = some shared ∧ t.conditions = some conditions ∧
      t.dependentConditions = some dependent ∧ r = (own, [shared, conditions, dependent]) := by
  rw [needed]
  apply Iff.intro
  · intro h
    obtain ⟨own, hown, h⟩ := bind_eq_ok_iff.1 h
    obtain ⟨shared, hshared, h⟩ := bind_eq_ok_iff.1 h
    obtain ⟨conditions, hconditions, h⟩ := bind_eq_ok_iff.1 h
    obtain ⟨dependent, hdependent, h⟩ := bind_eq_ok_iff.1 h
    cases h
    exact ⟨own, shared, conditions, dependent, require_eq_ok_iff.1 hown,
      require_eq_ok_iff.1 hshared, require_eq_ok_iff.1 hconditions,
      require_eq_ok_iff.1 hdependent, rfl⟩
  · intro h
    obtain ⟨own, shared, conditions, dependent, hown, hshared, hconditions, hdependent, rfl⟩ := h
    rw [hown, hshared, hconditions, hdependent]
    rfl

theorem length_filter_name (d : Document) (name : String) :
    (d.targets.filter fun t => t.name == name).length = d.targetNames.count name := by
  rw [targetNames, List.count, List.countP_map, List.countP_eq_length_filter]
  rfl

theorem findTarget_eq_error_iff :
    d.findTarget name = .error e ↔
      (name ∉ d.targetNames ∧ e = .targetNotFound name) ∨
        (2 ≤ d.targetNames.count name ∧
          e = .ambiguousTarget name (d.targetNames.count name)) := by
  have hlength := length_filter_name d name
  rw [findTarget, ← List.count_eq_zero, ← hlength]
  generalize d.targets.filter (fun t => t.name == name) = ts
  cases ts with
  | nil => simp [throw, throwThe, MonadExceptOf.throw, eq_comm]
  | cons t ts =>
    cases ts with
    | nil => simp [pure, Except.pure]
    | cons u ts => simp [throw, throwThe, MonadExceptOf.throw, eq_comm]

theorem configure_steps (d : Document) (o : Options) (name : String) :
    (d.configure o name).result = (do
      let t ← d.findTarget name
      let r ← d.needed name t
      let c ← contributeAll o ⟨r.1, [], [], [], []⟩ r.2
      return { c with
        sources := o.keepSources d.directory c.sources
        libraries := o.nameLibraries c.libraries }) := by
  rw [configure_result]
  simp only [needed, contributeAll, List.foldlM_cons, List.foldlM_nil, bind_assoc, pure_bind]

theorem result_eq_error_iff (d : Document) (o : Options) (name : String) (e : Error) :
    (d.configure o name).result = .error e ↔ Failure d o name e := by
  rw [configure_steps]
  apply Iff.intro
  · intro h
    rcases bind_eq_error_iff.1 h with h | ⟨t, ht, h⟩
    · rcases findTarget_eq_error_iff.1 h with ⟨hnone, rfl⟩ | ⟨hmany, rfl⟩
      · exact .notFound hnone
      · exact .ambiguous hmany
    have honly := findTarget_eq_ok_iff.1 ht
    rcases bind_eq_error_iff.1 h with h | ⟨r, hr, h⟩
    · exact .missingKey honly (((checks_needed d name t).error_iff e).1 h)
    obtain ⟨own, shared, conditions, dependent, hown, hshared, hconditions, hdependent, rfl⟩ :=
      needed_eq_ok_iff.1 hr
    rcases bind_eq_error_iff.1 h with h | ⟨c, -, h⟩
    · have hfault := ((checks_contributeAll o 0 ⟨own, [], [], [], []⟩ _).error_iff e).1 h
      exact .clauses honly hown hshared hconditions hdependent hfault
    · cases h
  · intro h
    rw [bind_eq_error_iff]
    cases h with
    | notFound hnone => exact .inl (findTarget_eq_error_iff.2 (.inl ⟨hnone, rfl⟩))
    | ambiguous hmany => exact .inl (findTarget_eq_error_iff.2 (.inr ⟨hmany, rfl⟩))
    | @missingKey t _ ht hfault =>
      have hneeded := ((checks_needed d name t).error_iff e).2 hfault
      exact .inr ⟨t, findTarget_eq_ok_iff.2 ht, bind_eq_error_iff.2 (.inl hneeded)⟩
    | @clauses t own shared conditions dependent _ ht hown hshared hconditions hdependent hfault =>
      have hneeded : d.needed name t = .ok (own, [shared, conditions, dependent]) :=
        needed_eq_ok_iff.2 ⟨_, _, _, _, hown, hshared, hconditions, hdependent, rfl⟩
      have hall := ((checks_contributeAll o 0 ⟨own, [], [], [], []⟩ _).error_iff e).2 hfault
      refine .inr ⟨t, findTarget_eq_ok_iff.2 ht, ?_⟩
      exact bind_eq_error_iff.2 (.inr ⟨_, hneeded, bind_eq_error_iff.2 (.inl hall)⟩)

theorem Failure.classify (h : Failure d o name e) :
    e = .targetNotFound name ∨ e = .ambiguousTarget name (d.targetNames.count name) ∨
      (∃ key, e = .missingKey key) ∨ e = .tooManyRounds (max 1 o.maxRounds) ∨
      ∃ defect, d.SelectedDefect o name defect ∧ e = .malformed defect := by
  cases h with
  | notFound => exact .inl rfl
  | ambiguous => exact .inr (.inl rfl)
  | missingKey ht h =>
    obtain ⟨k, -, -, -, he⟩ := h.exists_mem
    exact .inr (.inr (.inl ⟨k.1, he⟩))
  | @clauses t own shared conditions dependent _ ht hown hshared hconditions hdependent h =>
    obtain ⟨cs, hcs, -, hf⟩ := h.exists_mem
    have hlist : d.conditions = some cs ∨ t.conditions = some cs ∨
        t.dependentConditions = some cs := by
      rw [hshared, hconditions, hdependent]
      simpa [eq_comm] using hcs
    cases hf with
    | rounds => exact .inr (.inr (.inr (.inl rfl)))
    | settings _ hf =>
      obtain ⟨category, hcategory, v, hv, hkind, he⟩ := Configuration.exists_of_absorbFault hf
      have hfinds := Clause.finds_of_mem_settings hv
      have hdefect : d.SelectedDefect o name (.notText category v.kind) :=
        ⟨t, cs, category, v, ht, hlist, hcategory, hfinds, hkind, rfl⟩
      exact .inr (.inr (.inr (.inr ⟨_, hdefect, he⟩)))

/-- Configuring a target fails exactly with the first failure in the order of the checks. Values of
other categories or in blocks that are not selected are never at fault. -/
theorem configure_eq_error_iff (d : Document) (o : Options) (name : String) :
    (∀ e, (d.configure o name).result = .error e ↔ Failure d o name e) ∧
    (∀ defect, (d.configure o name).result = .error (.malformed defect) →
      d.SelectedDefect o name defect) ∧
    (∀ path, (d.configure o name).result ≠ .error (.io path)) ∧
    ∀ s, (d.configure o name).result ≠ .error (.notCondition s) := by
  have hfailure := result_eq_error_iff d o name
  refine ⟨hfailure, ?_, ?_, ?_⟩
  · intro defect h
    rcases ((hfailure _).1 h).classify with h | h | ⟨_, h⟩ | h | ⟨_, hdefect, h⟩ <;> cases h
    exact hdefect
  · intro path h
    rcases ((hfailure _).1 h).classify with h | h | ⟨_, h⟩ | h | ⟨_, _, h⟩ <;> cases h
  · intro s h
    rcases ((hfailure _).1 h).classify with h | h | ⟨_, h⟩ | h | ⟨_, _, h⟩ <;> cases h

end Document

end BuildDesc
