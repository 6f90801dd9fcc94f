import BuildDesc.Configuration
import BuildDesc.Proofs.Outcomes
import Mathlib.Data.List.Forall2

namespace BuildDesc

namespace Value

variable {place : String} {vs : List Value} {ss : List String}

theorem kind_eq_text_iff {v : Value} : v.kind = .text ↔ ∃ s, v = text s := by
  cases v <;> simp [kind]

theorem texts_eq_ok_iff :
    texts place vs = .ok ss ↔ (∀ v ∈ vs, v.kind = .text) ∧ ss = vs.filterMap text? := by
  induction vs generalizing ss with
  | nil =>
    rw [texts, List.filterMap_nil]
    apply Iff.intro
    · intro h
      exact ⟨fun _ hv => absurd hv List.not_mem_nil, (Except.ok.inj h).symm⟩
    · intro h
      obtain ⟨-, rfl⟩ := h
      rfl
  | cons v vs ih =>
    rw [List.forall_mem_cons]
    by_cases hk : v.kind = .text
    · obtain ⟨s, rfl⟩ := kind_eq_text_iff.1 hk
      rw [texts]
      apply Iff.intro
      · intro h
        obtain ⟨ts, hts, h⟩ := bind_eq_ok_iff.1 h
        cases h
        obtain ⟨hall, rfl⟩ := ih.1 hts
        exact ⟨⟨rfl, hall⟩, rfl⟩
      · intro h
        obtain ⟨⟨-, hall⟩, rfl⟩ := h
        rw [ih.2 ⟨hall, rfl⟩]
        rfl
    · apply Iff.intro
      · intro h
        rw [texts] at h
        · cases h
        · intro s hs
          exact hk (congrArg kind hs)
      · intro h
        obtain ⟨⟨h, -⟩, -⟩ := h
        exact absurd h hk

theorem map_text_filterMap (h : ∀ v ∈ vs, v.kind = .text) : (vs.filterMap text?).map text = vs := by
  induction vs with
  | nil => rfl
  | cons v vs ih =>
    rw [List.forall_mem_cons] at h
    obtain ⟨s, rfl⟩ := kind_eq_text_iff.1 h.1
    have hs : text? (text s) = some s := rfl
    rw [List.filterMap_cons_some hs, List.map_cons, ih h.2]

inductive TextsFault (place : String) : List Value → Error → Prop
  | mk {before v after} (hb : ∀ u ∈ before, u.kind = .text) (h : v.kind ≠ .text) :
    TextsFault place (before ++ v :: after) (.malformed (.notText place v.kind))

theorem textsFault_iff {e : Error} (i : Nat) :
    TextsFault place vs e ↔
      FirstFault (fun v => v.kind = .text)
        (fun _ v e => v.kind ≠ .text ∧ e = .malformed (.notText place v.kind)) i vs e := by
  apply Iff.intro
  · intro h
    cases h with
    | mk hb h => exact ⟨_, _, _, rfl, hb, h, rfl⟩
  · intro h
    obtain ⟨before, v, after, rfl, hb, h, rfl⟩ := h
    exact .mk hb h

theorem textsFault_cons {v : Value} {e : Error} :
    TextsFault place (v :: vs) e ↔
      (v.kind ≠ .text ∧ e = .malformed (.notText place v.kind)) ∨
        v.kind = .text ∧ TextsFault place vs e := by
  rw [textsFault_iff 0, textsFault_iff 1, firstFault_cons]

theorem checks_texts (place : String) (vs : List Value) :
    Checks (texts place vs) (∀ v ∈ vs, v.kind = .text) (TextsFault place vs) := by
  induction vs with
  | nil => exact (Checks.nil []).congr Iff.rfl fun e => (textsFault_iff 0).symm
  | cons v vs ih =>
    by_cases hk : v.kind = .text
    · obtain ⟨s, rfl⟩ := kind_eq_text_iff.1 hk
      rw [texts]
      apply (ih.bind_pure fun ss => s :: ss).congr
      · rw [List.forall_mem_cons, and_iff_right hk]
      · intro e
        rw [textsFault_cons]
        simp [hk]
    · have htexts : texts place (v :: vs) = .error (.malformed (.notText place v.kind)) := by
        rw [texts]
        · rfl
        · exact fun s hs => hk (congrArg kind hs)
      rw [htexts]
      apply Checks.of_error
      · exact fun h => hk (h v List.mem_cons_self)
      · intro e
        rw [textsFault_cons]
        simp [hk]

end Value

namespace Buckets

def texts (found : Buckets) (category : String) : List String :=
  (found.values category).filterMap Value.text?

end Buckets

namespace Configuration

def categories : List String :=
  ["sources", "defines", "cflags", "ldflags", "libraries"]

/-- Holds of buckets that have nothing but strings in the categories of a configuration. -/
def Admits (found : Buckets) : Prop :=
  ∀ category ∈ categories, ∀ v ∈ found.values category, v.kind = .text

def extend (c : Configuration) (found : Buckets) : Configuration where
  sources := c.sources ++ found.texts "sources"
  defines := c.defines ++ found.texts "defines"
  cflags := c.cflags ++ found.texts "cflags"
  ldflags := c.ldflags ++ found.texts "ldflags"
  libraries := c.libraries ++ found.texts "libraries"

variable {c c' : Configuration} {found : Buckets} {category : String} {ss : List String}

theorem textsOf_eq_ok_iff :
    textsOf found category = .ok ss ↔
      (∀ v ∈ found.values category, v.kind = .text) ∧ ss = found.texts category :=
  Value.texts_eq_ok_iff

theorem absorb_eq_ok_iff : c.absorb found = .ok c' ↔ Admits found ∧ c' = c.extend found := by
  rw [absorb]
  apply Iff.intro
  · intro h
    obtain ⟨ss₁, h₁, h⟩ := bind_eq_ok_iff.1 h
    obtain ⟨ss₂, h₂, h⟩ := bind_eq_ok_iff.1 h
    obtain ⟨ss₃, h₃, h⟩ := bind_eq_ok_iff.1 h
    obtain ⟨ss₄, h₄, h⟩ := bind_eq_ok_iff.1 h
    obtain ⟨ss₅, h₅, h⟩ := bind_eq_ok_iff.1 h
    cases h
    obtain ⟨a₁, rfl⟩ := textsOf_eq_ok_iff.1 h₁
    obtain ⟨a₂, rfl⟩ := textsOf_eq_ok_iff.1 h₂
    obtain ⟨a₃, rfl⟩ := textsOf_eq_ok_iff.1 h₃
    obtain ⟨a₄, rfl⟩ := textsOf_eq_ok_iff.1 h₄
    obtain ⟨a₅, rfl⟩ := textsOf_eq_ok_iff.1 h₅
    refine ⟨?_, rfl⟩
    simp only [Admits, categories, List.forall_mem_cons]
    exact ⟨a₁, a₂, a₃, a₄, a₅, fun _ hc => absurd hc List.not_mem_nil⟩
  · intro h
    obtain ⟨ha, rfl⟩ := h
    have htexts : ∀ category ∈ categories,
        textsOf found category = .ok (found.texts category) := by
      intro category hc
      exact textsOf_eq_ok_iff.2 ⟨ha category hc, rfl⟩
    rw [htexts "sources" (by decide), htexts "defines" (by decide), htexts "cflags" (by decide),
      htexts "ldflags" (by decide), htexts "libraries" (by decide)]
    rfl

end Configuration

namespace Options

/-- Holds of a library and its rest behind the link flag; the rest of a library that does not begin
with the flag is the library itself. -/
def Unflagged (flag library rest : String) : Prop :=
  library = flag ++ rest ∨ ¬flag.toList <+: library.toList ∧ rest = library

variable {o : Options} {library rest : String}

theorem withoutFlag?_eq_some_iff :
    o.withoutFlag? library = some rest ↔ library = o.linkFlag ++ rest := by
  rw [withoutFlag?, Option.map_eq_some_iff]
  apply Iff.intro
  · intro h
    obtain ⟨cs, hcs, rfl⟩ := h
    rw [List.isPrefixOf?_eq_some_iff_append_eq] at hcs
    rw [← String.toList_inj, String.toList_append, String.toList_ofList, hcs]
  · intro h
    subst h
    refine ⟨rest.toList, ?_, String.ofList_toList⟩
    rw [List.isPrefixOf?_eq_some_iff_append_eq, String.toList_append]

theorem withoutFlag?_eq_none_iff :
    o.withoutFlag? library = none ↔ ¬o.linkFlag.toList <+: library.toList := by
  rw [withoutFlag?, Option.map_eq_none_iff, Option.eq_none_iff_forall_ne_some]
  apply Iff.intro
  · intro h hp
    obtain ⟨cs, hcs⟩ := hp
    exact h cs (List.isPrefixOf?_eq_some_iff_append_eq.2 hcs)
  · intro h cs hcs
    exact h ⟨cs, List.isPrefixOf?_eq_some_iff_append_eq.1 hcs⟩

theorem unflagged_iff :
    Unflagged o.linkFlag library rest ↔ (o.withoutFlag? library).getD library = rest := by
  cases h : o.withoutFlag? library with
  | none =>
    have hn := withoutFlag?_eq_none_iff.1 h
    apply Iff.intro
    · intro h
      rcases h with rfl | ⟨-, rfl⟩
      · rw [String.toList_append] at hn
        exact absurd (List.prefix_append _ _) hn
      · rfl
    · intro h
      subst h
      exact .inr ⟨hn, rfl⟩
  | some r =>
    have hs := withoutFlag?_eq_some_iff.1 h
    apply Iff.intro
    · intro h
      rcases h with he | ⟨hn, -⟩
      · rw [withoutFlag?_eq_some_iff.2 he] at h
        exact (Option.some.inj h).symm
      · rw [withoutFlag?_eq_none_iff.2 hn] at h
        cases h
    · intro h
      subst h
      exact .inl hs

theorem nameLibraries_eq_iff {libraries rests : List String} :
    List.Forall₂ (Unflagged o.linkFlag) libraries rests ↔ rests = o.nameLibraries libraries := by
  have h : Unflagged o.linkFlag = fun l r => (o.withoutFlag? l).getD l = r := by
    funext l r
    exact propext unflagged_iff
  rw [h, ← List.forall₂_map_left_iff (R := Eq), List.forall₂_eq_eq_eq]
  exact eq_comm

end Options

namespace Configuration

/-- The closed form of a configuration, from the target's own sources and from the strings found
in each category. -/
structure Comprises (c : Configuration) (o : Options) (directory : Option String)
    (own : List String) (settings : String → List String) : Prop where
  sources : c.sources = ((own ++ settings "sources").filter o.isSourceFile).map fun s =>
    match directory with
    | some d => d ++ "/" ++ s
    | none => s
  defines : c.defines = settings "defines"
  cflags : c.cflags = settings "cflags"
  ldflags : c.ldflags = settings "ldflags"
  libraries : List.Forall₂ (Options.Unflagged o.linkFlag) (settings "libraries") c.libraries

theorem comprises_iff {c : Configuration} {o : Options} {directory : Option String}
    {own : List String} {settings : String → List String} :
    c.Comprises o directory own settings ↔
      c = {
        sources := o.keepSources directory (own ++ settings "sources")
        defines := settings "defines"
        cflags := settings "cflags"
        ldflags := settings "ldflags"
        libraries := o.nameLibraries (settings "libraries") } := by
  have hlocate : (fun s => match directory with | some d => d ++ "/" ++ s | none => s) =
      Options.locateSource directory := by
    cases directory <;> rfl
  apply Iff.intro
  · intro h
    obtain ⟨hs, hd, hc, hl, hlib⟩ := h
    rw [hlocate] at hs
    rw [Options.nameLibraries_eq_iff] at hlib
    cases c
    simp_all [Options.keepSources]
  · intro h
    subst h
    exact ⟨by rw [hlocate]; rfl, rfl, rfl, rfl, Options.nameLibraries_eq_iff.2 rfl⟩

end Configuration

namespace Document

/-- Holds of the target that is the only one with a name. -/
def HasOnly (d : Document) (name : String) (t : Target) : Prop :=
  ∃ before after, d.targets = before ++ t :: after ∧ t.name = name ∧
    ∀ u ∈ before ++ after, u.name ≠ name

variable {d : Document} {o : Options} {name : String} {t : Target} {cs : List Clause}
  {c c' : Configuration}

theorem filter_eq_singleton_iff :
    d.targets.filter (fun t => t.name == name) = [t] ↔ d.HasOnly name t := by
  rw [List.filter_eq_cons_iff]
  apply Iff.intro
  · intro h
    obtain ⟨before, after, heq, hb, ht, ha⟩ := h
    refine ⟨before, after, heq, beq_iff_eq.1 ht, ?_⟩
    intro u hu hname
    rcases List.mem_append.1 hu with hm | hm
    · exact hb u hm (beq_iff_eq.2 hname)
    · exact List.filter_eq_nil_iff.1 ha u hm (beq_iff_eq.2 hname)
  · intro h
    obtain ⟨before, after, heq, ht, hne⟩ := h
    refine ⟨before, after, heq, ?_, beq_iff_eq.2 ht, ?_⟩
    · intro u hu hname
      exact hne u (List.mem_append_left _ hu) (beq_iff_eq.1 hname)
    · rw [List.filter_eq_nil_iff]
      intro u hu hname
      exact hne u (List.mem_append_right _ hu) (beq_iff_eq.1 hname)

theorem findTarget_eq_ok_iff : d.findTarget name = .ok t ↔ d.HasOnly name t := by
  rw [← filter_eq_singleton_iff, findTarget]
  generalize d.targets.filter (fun t => t.name == name) = ts
  match ts with
  | [] => exact ⟨nofun, nofun⟩
  | [u] =>
    rw [List.singleton_inj]
    exact ⟨Except.ok.inj, congrArg Except.ok⟩
  | _ :: _ :: _ => exact ⟨nofun, nofun⟩

theorem require_eq_ok_iff {α : Type} {key : String} {a? : Option α} {a : α} :
    require key a? = .ok a ↔ a? = some a := by
  cases a? with
  | none => exact ⟨nofun, nofun⟩
  | some b =>
    rw [Option.some.injEq]
    exact ⟨Except.ok.inj, congrArg Except.ok⟩

theorem contribute_eq_ok_iff :
    (contribute o c cs).result = .ok c' ↔
      ∃ found, (Clause.resolve o.bindings o.maxRounds cs).result = .ok found ∧
        Configuration.Admits found ∧ c' = c.extend found := by
  rw [contribute, Traced.result_bind]
  apply Iff.intro
  · intro h
    obtain ⟨found, hf, h⟩ := bind_eq_ok_iff.1 h
    exact ⟨found, hf, Configuration.absorb_eq_ok_iff.1 h⟩
  · intro h
    obtain ⟨found, hf, h⟩ := h
    rw [hf]
    exact Configuration.absorb_eq_ok_iff.2 h

theorem configure_result (d : Document) (o : Options) (name : String) :
    (d.configure o name).result = (do
      let target ← d.findTarget name
      let sources ← require s!"targets[{name}].sources" target.sources
      let shared ← require "variables.conditions" d.conditions
      let conditions ← require s!"targets[{name}].conditions" target.conditions
      let dependent ←
        require s!"targets[{name}].direct_dependent_settings.conditions" target.dependentConditions
      let c ← (contribute o ⟨sources, [], [], [], []⟩ shared).result
      let c ← (contribute o c conditions).result
      let c ← (contribute o c dependent).result
      return { c with
        sources := o.keepSources d.directory c.sources
        libraries := o.nameLibraries c.libraries }) := by
  simp only [configure, Traced.result_bind]
  rfl

/-- A target has a configuration, in closed form, exactly if it is the only one with its name, has
all that it needs, and its three resolutions find nothing but strings. -/
theorem configure_eq_ok_iff (d : Document) (o : Options) (name : String) (c : Configuration) :
    (d.configure o name).result = .ok c ↔
      ∃ t own shared conditions dependent Dv Dc Dd,
        d.HasOnly name t ∧ t.sources = some own ∧ d.conditions = some shared ∧
        t.conditions = some conditions ∧ t.dependentConditions = some dependent ∧
        (Clause.resolve o.bindings o.maxRounds shared).result = .ok Dv ∧
        (Clause.resolve o.bindings o.maxRounds conditions).result = .ok Dc ∧
        (Clause.resolve o.bindings o.maxRounds dependent).result = .ok Dd ∧
        Configuration.Admits Dv ∧ Configuration.Admits Dc ∧ Configuration.Admits Dd ∧
        c.Comprises o d.directory own fun category =>
          Dv.texts category ++ Dc.texts category ++ Dd.texts category := by
  rw [configure_result]
  apply Iff.intro
  · intro h
    obtain ⟨t, ht, h⟩ := bind_eq_ok_iff.1 h
    obtain ⟨own, hown, h⟩ := bind_eq_ok_iff.1 h
    obtain ⟨shared, hshared, h⟩ := bind_eq_ok_iff.1 h
    obtain ⟨conditions, hconditions, h⟩ := bind_eq_ok_iff.1 h
    obtain ⟨dependent, hdependent, h⟩ := bind_eq_ok_iff.1 h
    obtain ⟨c₁, h₁, h⟩ := bind_eq_ok_iff.1 h
    obtain ⟨c₂, h₂, h⟩ := bind_eq_ok_iff.1 h
    obtain ⟨c₃, h₃, h⟩ := bind_eq_ok_iff.1 h
    cases h
    obtain ⟨Dv, hv, av, rfl⟩ := contribute_eq_ok_iff.1 h₁
    obtain ⟨Dc, hc, ac, rfl⟩ := contribute_eq_ok_iff.1 h₂
    obtain ⟨Dd, hd, ad, rfl⟩ := contribute_eq_ok_iff.1 h₃
    refine ⟨t, own, shared, conditions, dependent, Dv, Dc, Dd, findTarget_eq_ok_iff.1 ht,
      require_eq_ok_iff.1 hown, require_eq_ok_iff.1 hshared, require_eq_ok_iff.1 hconditions,
      require_eq_ok_iff.1 hdependent, hv, hc, hd, av, ac, ad, ?_⟩
    rw [Configuration.comprises_iff]
    simp only [Configuration.extend, List.nil_append, List.append_assoc]
  · intro h
    obtain ⟨t, own, shared, conditions, dependent, Dv, Dc, Dd, ht, hown, hshared, hconditions,
      hdependent, hv, hc, hd, av, ac, ad, hform⟩ := h
    rw [Configuration.comprises_iff] at hform
    apply bind_eq_ok (findTarget_eq_ok_iff.2 ht)
    apply bind_eq_ok (require_eq_ok_iff.2 hown)
    apply bind_eq_ok (require_eq_ok_iff.2 hshared)
    apply bind_eq_ok (require_eq_ok_iff.2 hconditions)
    apply bind_eq_ok (require_eq_ok_iff.2 hdependent)
    apply bind_eq_ok (contribute_eq_ok_iff.2 ⟨Dv, hv, av, rfl⟩)
    apply bind_eq_ok (contribute_eq_ok_iff.2 ⟨Dc, hc, ac, rfl⟩)
    apply bind_eq_ok (contribute_eq_ok_iff.2 ⟨Dd, hd, ad, rfl⟩)
    rw [hform]
    simp only [Configuration.extend, List.nil_append, List.append_assoc]
    rfl

end Document

end BuildDesc
