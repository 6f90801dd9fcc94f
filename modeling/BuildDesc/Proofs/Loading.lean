import BuildDesc.Proofs.Configurations
import BuildDesc.Proofs.FileTrees
import BuildDesc.Proofs.ValuePrinting

namespace BuildDesc

inductive Corresponds {ε α β : Type} (R : α → β → Prop) : Except ε α → Except ε β → Prop
  | ok {a b} (h : R a b) : Corresponds R (.ok a) (.ok b)
  | error (e : ε) : Corresponds R (.error e) (.error e)

namespace Traced

variable {α β γ δ : Type}

/-- Holds of two computations with the same records and corresponding outcomes. -/
structure Matches (R : α → β → Prop) (x : Traced α) (y : Traced β) : Prop where
  log : x.log = y.log
  result : Corresponds R x.result y.result

namespace Matches

variable {R : α → β → Prop} {S : γ → δ → Prop}

theorem refl (x : Traced α) : Matches Eq x x := by
  obtain ⟨log, result⟩ := x
  cases result with
  | error e => exact ⟨rfl, .error e⟩
  | ok a => exact ⟨rfl, .ok rfl⟩

theorem pure {a : α} {b : β} (h : R a b) : Matches R (Pure.pure a) (Pure.pure b) :=
  ⟨rfl, .ok h⟩

theorem bind {x : Traced α} {y : Traced β} {f : α → Traced γ} {g : β → Traced δ}
    (hxy : Matches R x y) (hfg : ∀ a b, R a b → Matches S (f a) (g b)) :
    Matches S (x >>= f) (y >>= g) := by
  obtain ⟨xlog, xresult⟩ := x
  obtain ⟨ylog, yresult⟩ := y
  obtain ⟨hlog, hresult⟩ := hxy
  cases hresult with
  | error e => exact ⟨hlog, .error e⟩
  | @ok a b h =>
    obtain ⟨hlog', hresult'⟩ := hfg a b h
    exact ⟨congrArg₂ (· ++ ·) hlog hlog', hresult'⟩

theorem bind_right {f : α → Traced γ} {g : α → Traced δ} (x : Traced α)
    (hfg : ∀ a, Matches S (f a) (g a)) : Matches S (x >>= f) (x >>= g) :=
  (refl x).bind fun a _ h => h ▸ hfg a

end Matches

end Traced

namespace Configuration

/-- Holds of two configurations that are the same but for the folder `directory` in front of every
source of the first. -/
structure Prefixed (directory : String) (c c' : Configuration) : Prop where
  sources : List.Forall₂ (fun s s' => s = directory ++ "/" ++ s') c.sources c'.sources
  defines : c.defines = c'.defines
  cflags : c.cflags = c'.cflags
  ldflags : c.ldflags = c'.ldflags
  libraries : c.libraries = c'.libraries

end Configuration

namespace Options

variable (o : Options)

theorem forall₂_keepSources (directory : String) (sources : List String) :
    List.Forall₂ (fun s s' => s = directory ++ "/" ++ s')
      (o.keepSources (some directory) sources) (o.keepSources none sources) := by
  rw [keepSources, keepSources, List.forall₂_map_left_iff, List.forall₂_map_right_iff,
    List.forall₂_same]
  exact fun s _ => rfl

end Options

namespace Document

variable {d d' : Document} {t : FileTree} {path s : String}

/-- Configuring looks at the folder of a document only when it puts it in front of the sources. -/
theorem configure_matches {directory : String} (hd : d.directory = some directory)
    (hd' : d'.directory = none) (hconditions : d.conditions = d'.conditions)
    (htargets : d.targets = d'.targets) (o : Options) (name : String) :
    Traced.Matches (Configuration.Prefixed directory) (d.configure o name)
      (d'.configure o name) := by
  have hfind : d.findTarget name = d'.findTarget name := by
    rw [findTarget, findTarget, htargets]
  rw [configure, configure, hfind, hconditions, hd, hd']
  refine .bind_right _ fun target => ?_
  refine .bind_right _ fun _ => ?_
  refine .bind_right _ fun sources => ?_
  refine .bind_right _ fun shared => ?_
  refine .bind_right _ fun conditions => ?_
  refine .bind_right _ fun dependent => ?_
  refine .bind_right _ fun c₁ => ?_
  refine .bind_right _ fun c₂ => ?_
  refine .bind_right _ fun c => ?_
  refine .bind_right _ fun _ => ?_
  refine .bind_right _ fun _ => ?_
  exact .pure ⟨o.forall₂_keepSources directory c.sources, rfl, rfl, rfl, rfl⟩

theorem directory_eq_none_of_parse (h : parse s = .ok d) : d.directory = none := by
  obtain ⟨v, -, h⟩ := bind_eq_ok_iff.1 h
  cases v with
  | mapping block =>
    obtain ⟨conditions, -, h⟩ := bind_eq_ok_iff.1 h
    obtain ⟨targets, -, h⟩ := bind_eq_ok_iff.1 h
    cases h
    rfl
  | _ => cases h

theorem directoryOf_eq_some {directory : String} (h : Path.parent? path = some directory)
    (hne : directory ≠ "") : directoryOf path = some directory := by
  rw [directoryOf, h]
  exact if_pos (by simpa using hne)

theorem directoryOf_eq_none (h : Path.parent? path = none ∨ Path.parent? path = some "") :
    directoryOf path = none := by
  rw [directoryOf]
  rcases h with h | h
  · rw [h]
    rfl
  · rw [h]
    rfl

theorem load_eq (h : t.Holds path s) :
    load t path = (parse s).map fun d => { d with directory := directoryOf path } := by
  rw [load, FileTree.readText_eq_ok_iff.2 h]
  change (parse s >>= _) = _
  cases parse s with
  | error e => rfl
  | ok d => rfl

/-- Loading a file is parsing its text, and what is configured with either differs only in the
folder of the file in front of every source. -/
theorem load_corresponds (t : FileTree) (path s : String) (h : t.Holds path s) :
    (∀ e, load t path = .error e ↔ parse s = .error e) ∧
    ∀ d, parse s = .ok d → ∃ d', load t path = .ok d' ∧
      d'.conditions = d.conditions ∧ d'.targets = d.targets ∧
      (∀ directory, Path.parent? path = some directory → directory ≠ "" → ∀ o name,
        Traced.Matches (Configuration.Prefixed directory) (d'.configure o name)
          (d.configure o name)) ∧
      (Path.parent? path = none ∨ Path.parent? path = some "" → ∀ o name,
        d'.configure o name = d.configure o name) := by
  rw [load_eq h]
  apply And.intro
  · intro e
    cases parse s with
    | error e' => rw [Except.map, Except.error.injEq]
    | ok d =>
      constructor
      · intro h
        cases h
      · intro h
        cases h
  · intro d hd
    have hnone := directory_eq_none_of_parse hd
    refine ⟨{ d with directory := directoryOf path }, by rw [hd]; rfl, rfl, rfl, ?_, ?_⟩
    · intro directory hparent hne o name
      have hdirectory := directoryOf_eq_some hparent hne
      exact configure_matches (d := { d with directory := directoryOf path }) hdirectory hnone
        rfl rfl o name
    · intro hparent o name
      have hdirectory : directoryOf path = d.directory := by
        rw [hnone, directoryOf_eq_none hparent]
      rw [hdirectory]

def sampleSettings : Value :=
  .mapping ⟨[("conditions", .list [])]⟩

def sampleTarget : Value :=
  .mapping ⟨[("target_name", .text "t"), ("sources", .list [.text "a.c"]),
    ("conditions", .list []), ("direct_dependent_settings", sampleSettings)]⟩

def sampleValue : Value :=
  .mapping ⟨[("variables", sampleSettings), ("targets", .list [sampleTarget])]⟩

def sampleText : String :=
  "\x7b'variables': \x7b'conditions': []\x7d, 'targets': [\x7b'target_name': 't',
    'sources': ['a.c'], 'conditions': [],
    'direct_dependent_settings': \x7b'conditions': []\x7d\x7d]\x7d"

theorem distinctKeys_sampleValue : sampleValue.DistinctKeys := by
  have hconditions : (Value.list []).DistinctKeys := .list (List.forall_mem_nil _)
  have hsettings : sampleSettings.DistinctKeys :=
    .mapping (by decide) (List.forall_mem_singleton.2 hconditions)
  have hsources : (Value.list [.text "a.c"]).DistinctKeys :=
    .list (List.forall_mem_singleton.2 (.text "a.c"))
  have htarget : sampleTarget.DistinctKeys := by
    apply Value.DistinctKeys.mapping (by decide)
    simp only [List.forall_mem_cons]
    exact ⟨.text "t", hsources, hconditions, hsettings, List.forall_mem_nil _⟩
  apply Value.DistinctKeys.mapping (by decide)
  simp only [List.forall_mem_cons]
  exact ⟨hsettings, .list (List.forall_mem_singleton.2 htarget), List.forall_mem_nil _⟩

theorem prints_sampleText : sampleValue.Prints sampleText.toList := by
  have hentry : ∀ {k v s}, Value.Prints v s →
      Value.PrintsEntry k v (Quoted.write '\'' k ++ ':' :: ([' '] ++ s)) :=
    fun h => .mk rfl Value.blanks_space h
  have hline : Value.Blanks ['\n', ' ', ' ', ' ', ' '] := List.all_eq_true.1 rfl
  have hsettings : sampleSettings.Prints _ :=
    .mapping (.last Value.blanks_nil (hentry (.list .nil)))
  have hsources : Value.Prints (.list [.text "a.c"]) _ :=
    .list (.last Value.blanks_nil (.text (q := '\'') rfl "a.c"))
  have htarget : sampleTarget.Prints _ :=
    .mapping (.cons Value.blanks_nil (hentry (.text (q := '\'') rfl "t"))
      (.cons hline (hentry hsources)
        (.cons Value.blanks_space (hentry (.list .nil)) (.last hline (hentry hsettings)))))
  have htargets : Value.Prints (.list [sampleTarget]) _ := .list (.last Value.blanks_nil htarget)
  have hvalue : sampleValue.Prints _ :=
    .mapping (.cons Value.blanks_nil (hentry hsettings)
      (.last Value.blanks_space (hentry htargets)))
  -- The text is too long for the two to be unified.
  refine Eq.subst (motive := sampleValue.Prints) ?_ hvalue
  decide +kernel

def sample : Document where
  directory := none
  conditions := some []
  targets := [⟨"t", some ["a.c"], some [], some []⟩]

def sampleTree : FileTree :=
  (FileTree.empty ["work"]).place "sub/a.gyp" (.file sampleText.toUTF8)

theorem load_corresponds_sample :
    sampleTree.Holds "sub/a.gyp" sampleText ∧
      parse sampleText = .ok sample ∧ Path.parent? "sub/a.gyp" = some "sub" ∧
      ∃ d, load sampleTree "sub/a.gyp" = .ok d ∧
        Traced.Matches (Configuration.Prefixed "sub") (d.configure Options.default "t")
          (sample.configure Options.default "t") := by
  have hholds : sampleTree.Holds "sub/a.gyp" sampleText := by
    rw [FileTree.Holds]
    rfl
  have hparse : parse sampleText = .ok sample := by
    rw [parse, prints_sampleText.parse_eq distinctKeys_sampleValue]
    rfl
  have hparent : Path.parent? "sub/a.gyp" = some "sub" := by decide
  obtain ⟨-, hload⟩ := load_corresponds sampleTree "sub/a.gyp" sampleText hholds
  obtain ⟨d, hd, -, -, hmatches, -⟩ := hload sample hparse
  exact ⟨hholds, hparse, hparent, d, hd, hmatches "sub" hparent (by decide) Options.default "t"⟩

end Document

end BuildDesc
