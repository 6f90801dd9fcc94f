import BuildDesc.Proofs.ClauseLists
import BuildDesc.Proofs.Configurations

namespace BuildDesc

namespace Target

def placeOf (name : String) : String :=
  s!"targets[{name}]"

def ValidSources (block : Dict Value) : Prop :=
  ∀ v, block.get? "sources" = some v → ∃ items, v = .list items ∧ ∀ u ∈ items, u.kind = .text

structure ValidBlock (block : Dict Value) : Prop where
  name : ∃ name, block.get? "target_name" = some (.text name)
  sources : ValidSources block
  conditions : Clause.ValidBlock block
  dependentConditions : Clause.ValidKey "direct_dependent_settings" block

def Valid (v : Value) : Prop :=
  ∃ block, v = .mapping block ∧ ValidBlock block

/-- The fault of what stands in the place of a list of sources. -/
inductive ListFault (place : String) : Value → Error → Prop
  | kind {v} (h : v.kind ≠ .list) :
    ListFault place v (.malformed (.wrongKind s!"{place}.sources" .list (some v.kind)))
  | items {items e} (h : Value.TextsFault s!"{place}.sources" items e) :
    ListFault place (.list items) e

def SourcesFault (place : String) (block : Dict Value) (e : Error) : Prop :=
  ∃ v, block.get? "sources" = some v ∧ ListFault place v e

/-- The first fault of the target number `i`. -/
inductive Fault (i : Nat) : Value → Error → Prop
  | kind {v} (h : v.kind ≠ .mapping) :
    Fault i v (.malformed (.wrongKind s!"targets[{i}]" .mapping none))
  | noName {block} (h : block.get? "target_name" = none) :
    Fault i (.mapping block) (.missingKey s!"targets[{i}].target_name")
  | nameKind {block v} (h : block.get? "target_name" = some v) (hk : v.kind ≠ .text) :
    Fault i (.mapping block) (.malformed (.wrongKind s!"targets[{i}].target_name" .text none))
  | sources {block name e} (hn : block.get? "target_name" = some (.text name))
    (h : SourcesFault (placeOf name) block e) : Fault i (.mapping block) e
  | conditions {block name e} (hn : block.get? "target_name" = some (.text name))
    (hs : ValidSources block) (h : Clause.BlockFault (placeOf name) block e) :
    Fault i (.mapping block) e
  | dependentConditions {block name e} (hn : block.get? "target_name" = some (.text name))
    (hs : ValidSources block) (hc : Clause.ValidBlock block)
    (h : Clause.KeyFault s!"{placeOf name}.direct_dependent_settings" "direct_dependent_settings"
      block e) : Fault i (.mapping block) e

/-- Holds of a mapping and of the target that has its name, its sources and its conditions. -/
structure Mirrors (block : Dict Value) (t : Target) : Prop where
  name : block.get? "target_name" = some (.text t.name)
  sources : block.get? "sources" = t.sources.map fun names => .list (names.map .text)
  conditions : Clause.MirrorsBlock block t.conditions
  dependentConditions :
    Clause.MirrorsKey "direct_dependent_settings" block t.dependentConditions

variable {place name : String} {block : Dict Value} {v : Value} {i : Nat} {e : Error} {t : Target}
  {vs : List Value} {ts : List Target}

theorem listFault_list {items : List Value} :
    ListFault place (.list items) e ↔ Value.TextsFault s!"{place}.sources" items e := by
  apply Iff.intro
  · intro h
    cases h with
    | kind h => exact absurd rfl h
    | items h => exact h
  · exact .items

theorem listFault_of_kind (h : v.kind ≠ .list) :
    ListFault place v e ↔
      e = .malformed (.wrongKind s!"{place}.sources" .list (some v.kind)) := by
  apply Iff.intro
  · intro hf
    cases hf with
    | kind => rfl
    | items => exact absurd rfl h
  · intro he
    subst he
    exact .kind h

theorem checks_sourcesOfBlock (place : String) (block : Dict Value) :
    Checks (sourcesOfBlock place block) (ValidSources block) (SourcesFault place block) := by
  rw [sourcesOfBlock]
  unfold ValidSources SourcesFault
  generalize block.get? "sources" = v?
  cases v? with
  | none => exact .absent none
  | some v =>
    apply Checks.present
    cases v with
    | list items =>
      apply ((Value.checks_texts _ items).map some).congr
      · simp only [Value.list.injEq, exists_eq_left']
      · exact fun e => listFault_list.symm
    | _ => exact .of_error (by simp) fun e => listFault_of_kind (by simp [Value.kind])

theorem get?_sources {names? : Option (List String)} (h : sourcesOfBlock place block = .ok names?) :
    block.get? "sources" = names?.map fun names => .list (names.map .text) := by
  rw [sourcesOfBlock] at h
  generalize block.get? "sources" = v? at h
  cases v? with
  | none =>
    cases h
    rfl
  | some v =>
    cases v with
    | list items =>
      obtain ⟨names, hnames, h⟩ := map_eq_ok_iff.1 h
      obtain ⟨htexts, rfl⟩ := Value.texts_eq_ok_iff.1 hnames
      subst h
      rw [Option.map_some, Value.map_text_filterMap htexts]
    | _ => cases h

theorem nameOfBlock_eq_ok_iff :
    nameOfBlock i block = .ok name ↔ block.get? "target_name" = some (.text name) := by
  rw [nameOfBlock]
  generalize block.get? "target_name" = v?
  cases v? with
  | none => simp [throw, throwThe, MonadExceptOf.throw]
  | some v => cases v <;> simp [throw, throwThe, MonadExceptOf.throw, pure, Except.pure]

theorem fault_of_kind (h : v.kind ≠ .mapping) :
    Fault i v e ↔ e = .malformed (.wrongKind s!"targets[{i}]" .mapping none) := by
  apply Iff.intro
  · intro hf
    cases hf with
    | kind => rfl
    | _ => exact absurd rfl h
  · intro he
    subst he
    exact .kind h

theorem fault_of_name (hn : block.get? "target_name" = some (.text name)) :
    Fault i (.mapping block) e ↔
      SourcesFault (placeOf name) block e ∨ ValidSources block ∧
        (Clause.BlockFault (placeOf name) block e ∨ Clause.ValidBlock block ∧
          Clause.KeyFault s!"{placeOf name}.direct_dependent_settings"
            "direct_dependent_settings" block e) := by
  apply Iff.intro
  · intro h
    cases h with
    | kind h => exact absurd rfl h
    | noName h =>
      rw [hn] at h
      cases h
    | nameKind h hk =>
      rw [hn] at h
      cases h
      exact absurd rfl hk
    | sources hn' h =>
      cases hn.symm.trans hn'
      exact .inl h
    | conditions hn' hs h =>
      cases hn.symm.trans hn'
      exact .inr ⟨hs, .inl h⟩
    | dependentConditions hn' hs hc h =>
      cases hn.symm.trans hn'
      exact .inr ⟨hs, .inr ⟨hc, h⟩⟩
  · intro h
    rcases h with h | ⟨hs, h | ⟨hc, h⟩⟩
    · exact .sources hn h
    · exact .conditions hn hs h
    · exact .dependentConditions hn hs hc h

theorem fault_of_noName (hn : block.get? "target_name" = none) :
    Fault i (.mapping block) e ↔ e = .missingKey s!"targets[{i}].target_name" := by
  apply Iff.intro
  · intro hf
    cases hf with
    | kind h => exact absurd rfl h
    | noName => rfl
    | nameKind h | sources h | conditions h | dependentConditions h => cases hn.symm.trans h
  · intro he
    subst he
    exact .noName hn

theorem fault_of_nameKind (hn : block.get? "target_name" = some v) (hk : v.kind ≠ .text) :
    Fault i (.mapping block) e ↔
      e = .malformed (.wrongKind s!"targets[{i}].target_name" .text none) := by
  apply Iff.intro
  · intro hf
    cases hf with
    | kind h => exact absurd rfl h
    | nameKind => rfl
    | noName h => cases hn.symm.trans h
    | sources h | conditions h | dependentConditions h =>
      cases hn.symm.trans h
      exact absurd rfl hk
  · intro he
    subst he
    exact .nameKind hn hk

theorem valid_mapping : Valid (.mapping block) ↔ ValidBlock block := by
  rw [Valid]
  simp only [Value.mapping.injEq, exists_eq_left']

theorem validBlock_of_name (hn : block.get? "target_name" = some (.text name)) :
    ValidBlock block ↔ ValidSources block ∧ Clause.ValidBlock block ∧
      Clause.ValidKey "direct_dependent_settings" block := by
  apply Iff.intro
  · exact fun h => ⟨h.sources, h.conditions, h.dependentConditions⟩
  · intro h
    obtain ⟨hs, hc, hd⟩ := h
    exact ⟨⟨name, hn⟩, hs, hc, hd⟩

theorem not_validBlock (hn : ∀ name, block.get? "target_name" ≠ some (.text name)) :
    ¬ValidBlock block := by
  intro h
  obtain ⟨name, hname⟩ := h.name
  exact hn name hname

theorem checks_ofValue (i : Nat) (v : Value) : Checks (ofValue i v) (Valid v) (Fault i v) := by
  cases v with
  | mapping block =>
    rw [ofValue, nameOfBlock, valid_mapping]
    cases hn : block.get? "target_name" with
    | none => exact .of_error (not_validBlock (by simp [hn])) fun e => fault_of_noName hn
    | some v =>
      cases v with
      | text name =>
        have hchecks := (checks_sourcesOfBlock (placeOf name) block).bind fun sources _ =>
          (Clause.checks_ofBlock? (placeOf name) block).bind fun conditions _ =>
            (Clause.checks_ofKey? s!"{placeOf name}.direct_dependent_settings"
              "direct_dependent_settings" block).bind_pure fun dependent =>
                (⟨name, sources, conditions, dependent⟩ : Target)
        apply hchecks.congr
        · exact (validBlock_of_name hn).symm
        · exact fun e => (fault_of_name hn).symm
      | _ =>
        have hname : ∀ name, block.get? "target_name" ≠ some (.text name) := by simp [hn]
        exact .of_error (not_validBlock hname) fun e => fault_of_nameKind hn (by simp [Value.kind])
  | _ => exact .of_error (by simp [Valid]) fun e => fault_of_kind (by simp [Value.kind])

theorem checks_ofValues (i : Nat) (vs : List Value) :
    Checks (ofValues i vs) (∀ v ∈ vs, Valid v) (FirstFault Valid Fault i vs) := by
  induction vs generalizing i with
  | nil => exact .nil []
  | cons v vs ih => exact (checks_ofValue i v).cons (ih (i + 1)) List.cons

theorem mirrors_of_ofValue (h : ofValue i v = .ok t) :
    ∃ block, v = .mapping block ∧ Mirrors block t := by
  cases v with
  | mapping block =>
    rw [ofValue] at h
    obtain ⟨name, hname, h⟩ := bind_eq_ok_iff.1 h
    obtain ⟨sources, hsources, h⟩ := bind_eq_ok_iff.1 h
    obtain ⟨conditions, hconditions, h⟩ := bind_eq_ok_iff.1 h
    obtain ⟨dependent, hdependent, h⟩ := bind_eq_ok_iff.1 h
    cases h
    exact ⟨block, rfl, nameOfBlock_eq_ok_iff.1 hname, get?_sources hsources,
      Clause.mirrorsBlock_of_ofBlock? hconditions, Clause.mirrorsKey_of_ofKey? hdependent⟩
  | _ => cases h

theorem forall₂_mirrors (h : ofValues i vs = .ok ts) :
    List.Forall₂ (fun v t => ∃ block, v = .mapping block ∧ Mirrors block t) vs ts := by
  induction vs generalizing i ts with
  | nil =>
    cases h
    exact .nil
  | cons v vs ih =>
    obtain ⟨t, ht, h⟩ := bind_eq_ok_iff.1 h
    obtain ⟨us, hus, h⟩ := bind_eq_ok_iff.1 h
    cases h
    exact .cons (mirrors_of_ofValue ht) (ih hus)

end Target

namespace Document

/-- Holds of the mappings that are read as documents. -/
structure Valid (block : Dict Value) : Prop where
  conditions : Clause.ValidKey "variables" block
  targets : ∃ items, block.get? "targets" = some (.list items) ∧ ∀ v ∈ items, Target.Valid v

inductive TargetsFault (block : Dict Value) : Error → Prop
  | missing (h : block.get? "targets" = none) : TargetsFault block (.missingKey "targets")
  | kind {v} (h : block.get? "targets" = some v) (hk : v.kind ≠ .list) :
    TargetsFault block (.malformed (.wrongKind "targets" .list none))
  | target {items e} (h : block.get? "targets" = some (.list items))
    (hf : FirstFault Target.Valid Target.Fault 0 items e) : TargetsFault block e

/-- The first fault of a text, in the order of the checks: what it denotes, the conditions for all
targets, and the targets one after another. -/
inductive Fault (s : String) : Error → Prop
  | notValue (h : ∀ v, Value.parse s ≠ .ok v) : Fault s .notValue
  | kind {v} (h : Value.parse s = .ok v) (hk : v.kind ≠ .mapping) :
    Fault s (.malformed (.wrongKind "top level" .mapping (some v.kind)))
  | conditions {block e} (h : Value.parse s = .ok (.mapping block))
    (hf : Clause.KeyFault "variables" "variables" block e) : Fault s e
  | targets {block e} (h : Value.parse s = .ok (.mapping block))
    (hc : Clause.ValidKey "variables" block) (hf : TargetsFault block e) : Fault s e

/-- Holds of a mapping and of the document with its conditions and its targets, in their order. -/
structure Mirrors (block : Dict Value) (d : Document) : Prop where
  directory : d.directory = none
  conditions : Clause.MirrorsKey "variables" block d.conditions
  targets : ∃ items, block.get? "targets" = some (.list items) ∧
    List.Forall₂ (fun v t => ∃ inner, v = .mapping inner ∧ Target.Mirrors inner t) items d.targets

variable {s : String} {block : Dict Value} {v : Value} {e : Error} {d : Document}

theorem eq_notValue_of_parse (h : Value.parse s = .error e) : e = .notValue := by
  rw [Value.parse] at h
  cases hs : Value.ofText? s with
  | some v =>
    rw [hs] at h
    cases h
  | none =>
    rw [hs] at h
    exact (Except.error.inj h).symm

theorem targetsFault_of_list {items : List Value} (h : block.get? "targets" = some (.list items)) :
    TargetsFault block e ↔ FirstFault Target.Valid Target.Fault 0 items e := by
  apply Iff.intro
  · intro hf
    cases hf with
    | missing hn => cases h.symm.trans hn
    | kind hv hk =>
      cases h.symm.trans hv
      exact absurd rfl hk
    | target hl hf =>
      cases h.symm.trans hl
      exact hf
  · exact .target h

theorem targetsFault_of_kind (h : block.get? "targets" = some v) (hk : v.kind ≠ .list) :
    TargetsFault block e ↔ e = .malformed (.wrongKind "targets" .list none) := by
  apply Iff.intro
  · intro hf
    cases hf with
    | missing hn => cases h.symm.trans hn
    | kind => rfl
    | target hl =>
      cases h.symm.trans hl
      exact absurd rfl hk
  · intro he
    subst he
    exact .kind h hk

theorem targetsFault_of_none (h : block.get? "targets" = none) :
    TargetsFault block e ↔ e = .missingKey "targets" := by
  apply Iff.intro
  · intro hf
    cases hf with
    | missing => rfl
    | kind hv | target hv => cases h.symm.trans hv
  · intro he
    subst he
    exact .missing h

theorem checks_targetsOfBlock (block : Dict Value) :
    Checks (targetsOfBlock block)
      (∃ items, block.get? "targets" = some (.list items) ∧ ∀ v ∈ items, Target.Valid v)
      (TargetsFault block) := by
  rw [targetsOfBlock]
  cases h : block.get? "targets" with
  | none => exact .of_error (by simp) fun e => targetsFault_of_none h
  | some v =>
    cases v with
    | list items =>
      apply (Target.checks_ofValues 0 items).congr
      · simp only [Option.some.injEq, Value.list.injEq, exists_eq_left']
      · exact fun e => (targetsFault_of_list h).symm
    | _ => exact .of_error (by simp) fun e => targetsFault_of_kind h (by simp [Value.kind])

theorem mirrors_of_targetsOfBlock {ts : List Target} (h : targetsOfBlock block = .ok ts) :
    ∃ items, block.get? "targets" = some (.list items) ∧
      List.Forall₂ (fun v t => ∃ inner, v = .mapping inner ∧ Target.Mirrors inner t) items ts := by
  rw [targetsOfBlock] at h
  generalize block.get? "targets" = v? at h
  cases v? with
  | none => cases h
  | some v =>
    cases v with
    | list items => exact ⟨items, rfl, Target.forall₂_mirrors h⟩
    | _ => cases h

theorem fault_of_mapping (h : Value.parse s = .ok (.mapping block)) :
    Fault s e ↔ Clause.KeyFault "variables" "variables" block e ∨
      Clause.ValidKey "variables" block ∧ TargetsFault block e := by
  apply Iff.intro
  · intro hf
    cases hf with
    | notValue hn => exact absurd h (hn _)
    | kind hv hk =>
      cases h.symm.trans hv
      exact absurd rfl hk
    | conditions hb hf =>
      cases h.symm.trans hb
      exact .inl hf
    | targets hb hc hf =>
      cases h.symm.trans hb
      exact .inr ⟨hc, hf⟩
  · intro hf
    rcases hf with hf | ⟨hc, hf⟩
    · exact .conditions h hf
    · exact .targets h hc hf

theorem fault_of_kind (h : Value.parse s = .ok v) (hk : v.kind ≠ .mapping) :
    Fault s e ↔ e = .malformed (.wrongKind "top level" .mapping (some v.kind)) := by
  apply Iff.intro
  · intro hf
    cases hf with
    | notValue hn => exact absurd h (hn v)
    | kind hv =>
      cases h.symm.trans hv
      rfl
    | conditions hb | targets hb =>
      cases h.symm.trans hb
      exact absurd rfl hk
  · intro he
    subst he
    exact .kind h hk

theorem fault_of_notValue (h : ∀ v, Value.parse s ≠ .ok v) : Fault s e ↔ e = .notValue := by
  apply Iff.intro
  · intro hf
    cases hf with
    | notValue => rfl
    | kind hv | conditions hv | targets hv => exact absurd hv (h _)
  · intro he
    subst he
    exact .notValue h

theorem valid_iff :
    Valid block ↔ Clause.ValidKey "variables" block ∧
      ∃ items, block.get? "targets" = some (.list items) ∧ ∀ v ∈ items, Target.Valid v :=
  ⟨fun h => ⟨h.conditions, h.targets⟩, fun h => ⟨h.1, h.2⟩⟩

theorem checks_parse (s : String) :
    Checks (parse s) (∃ block, Value.parse s = .ok (.mapping block) ∧ Valid block) (Fault s) := by
  rw [parse]
  cases h : Value.parse s with
  | error e =>
    have hnone : ∀ v, Value.parse s ≠ .ok v := by
      intro v hv
      cases h.symm.trans hv
    obtain rfl := eq_notValue_of_parse h
    exact .of_error (by simp) fun e => fault_of_notValue hnone
  | ok v =>
    cases v with
    | mapping block =>
      have hchecks := (Clause.checks_ofKey? "variables" "variables" block).bind fun conditions _ =>
        (checks_targetsOfBlock block).bind_pure fun targets =>
          (⟨none, conditions, targets⟩ : Document)
      apply hchecks.congr
      · simp only [Except.ok.injEq, Value.mapping.injEq, exists_eq_left', valid_iff]
      · exact fun e => (fault_of_mapping h).symm
    | _ => exact .of_error (by simp) fun e => fault_of_kind h (by simp [Value.kind])

theorem mirrors_of_parse (h : parse s = .ok d) :
    ∃ block, Value.parse s = .ok (.mapping block) ∧ Mirrors block d := by
  rw [parse] at h
  obtain ⟨v, hv, h⟩ := bind_eq_ok_iff.1 h
  cases v with
  | mapping block =>
    rw [ofValue] at h
    obtain ⟨conditions, hconditions, h⟩ := bind_eq_ok_iff.1 h
    obtain ⟨targets, htargets, h⟩ := bind_eq_ok_iff.1 h
    cases h
    exact ⟨block, hv, rfl, Clause.mirrorsKey_of_ofKey? hconditions,
      mirrors_of_targetsOfBlock htargets⟩
  | _ => cases h

/-- A text is read as a document exactly if it denotes a valid mapping, and then the document
mirrors that mapping. Otherwise the error is that of the first fault. -/
theorem parse_validates (s : String) :
    ((∃ d, parse s = .ok d) ↔ ∃ block, Value.parse s = .ok (.mapping block) ∧ Valid block) ∧
    (∀ d, parse s = .ok d → ∃ block, Value.parse s = .ok (.mapping block) ∧ Mirrors block d) ∧
    ∀ e, parse s = .error e ↔ Fault s e :=
  ⟨(checks_parse s).ok_iff, fun _ => mirrors_of_parse, (checks_parse s).error_iff⟩

example :
    parse "\x7b'variables': \x7b'conditions': [['1', \x7b\x7d, \x7b'conditions': 0\x7d]]\x7d\x7d" =
      .error (.malformed (.wrongKind "variables.conditions[0].false.conditions" .list
        (some .integer))) := by
  cbv

end Document

end BuildDesc
