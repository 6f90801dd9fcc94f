import BuildDesc.Proofs.Concatenation
import BuildDesc.Proofs.Failures
import BuildDesc.Proofs.Transcripts

namespace BuildDesc

namespace Traced

variable {α β : Type} {x : Traced α} {f : α → Traced β} {p : Record → Prop}

/-- Holds of a computation all of whose records have a property. -/
def Emits (p : Record → Prop) (x : Traced α) : Prop :=
  ∀ r ∈ x.log, p r

theorem emits_liftM (r : Except Error α) : Emits p (liftM r : Traced α) :=
  List.forall_mem_nil _

theorem emits_pure (a : α) : Emits p (pure a : Traced α) :=
  List.forall_mem_nil _

theorem Emits.bind (hx : Emits p x) (hf : ∀ a, Emits p (f a)) : Emits p (x >>= f) := by
  cases h : x.result with
  | error e =>
    rw [Emits, log_bind_of_error h]
    exact hx
  | ok a =>
    rw [Emits, log_bind_of_ok h, List.forall_mem_append]
    exact ⟨hx, hf a⟩

end Traced

theorem Interleaves.of_filter {α : Type} (p : α → Bool) (xs : List α) :
    Interleaves (xs.filter p) (xs.filter fun x => !p x) xs := by
  induction xs with
  | nil => exact .nil
  | cons x xs ih =>
    cases h : p x with
    | true =>
      rw [List.filter_cons_of_pos h, List.filter_cons_of_neg (by simp [h])]
      exact .left ih
    | false =>
      rw [List.filter_cons_of_neg (by simp [h]), List.filter_cons_of_pos (by simp [h])]
      exact .right ih

namespace Configuration

variable {c : Configuration} {founds : List Buckets} {category : String}

theorem foldl_extend (f : Configuration → List String) (category : String)
    (hf : ∀ c found, f (extend c found) = f c ++ found.texts category) (c : Configuration)
    (founds : List Buckets) :
    f (founds.foldl extend c) = f c ++ founds.flatMap fun found => found.texts category := by
  induction founds generalizing c with
  | nil => exact (List.append_nil _).symm
  | cons found founds ih =>
    rw [List.foldl_cons, ih, hf, List.flatMap_cons, ← List.append_assoc]

theorem map_text_flatMap (h : ∀ found ∈ founds, Admits found) (hc : category ∈ categories) :
    (founds.flatMap fun found => found.texts category).map Value.text =
      founds.flatMap fun found => found.values category := by
  rw [List.map_flatMap]
  apply List.flatMap_congr
  intro found hfound
  exact Value.map_text_filterMap (h found hfound category hc)

/-- Holds of a configuration that keeps every source that was found or has it recorded as dropped,
and that keeps every library. -/
structure Accounts (c : Configuration) (o : Options) (directory : Option String)
    (sources libraries kept dropped unflagged : List String) : Prop where
  kept_eq : kept = sources.filter o.isSourceFile
  dropped_eq : dropped = sources.filter fun s => !o.isSourceFile s
  interleaves : Interleaves kept dropped sources
  sources_eq : c.sources = kept.map (Options.locateSource directory)
  unflagged_eq : unflagged = libraries.filter fun l => !o.linkFlag.toList.isPrefixOf l.toList
  forall₂_libraries : List.Forall₂ (Options.Unflagged o.linkFlag) libraries c.libraries
  length_libraries : c.libraries.length = libraries.length

end Configuration

namespace Document

def contributeEach (o : Options) (c : Configuration) (css : List (List Clause)) :
    Traced Configuration :=
  css.foldlM (contribute o) c

/-- What is found for a target, before anything is left out or changed. -/
def discover (d : Document) (o : Options) (name : String) : Traced Configuration := do
  let t ← d.findTarget name
  Traced.emit [.resolving name]
  let r ← d.needed name t
  contributeEach o ⟨r.1, [], [], [], []⟩ r.2

def finish (d : Document) (o : Options) (c : Configuration) : Traced Configuration := do
  Traced.emit (o.sourceRecords c.sources)
  Traced.emit (o.libraryRecords c.libraries)
  return { c with
    sources := o.keepSources d.directory c.sources
    libraries := o.nameLibraries c.libraries }

/-- Holds of the sources and the libraries that the conditions on a target select, in order and
behind the target's own sources, and of the records of the resolutions. -/
inductive Discovers (d : Document) (o : Options) (name : String) :
    List String → List String → List Record → Prop
  | mk {t own css founds sources libraries} (ht : d.HasOnly name t) (hown : t.sources = some own)
    (hcss : [d.conditions, t.conditions, t.dependentConditions] = css.map some)
    (hfounds : List.Forall₂
      (fun cs found => (Clause.resolve o.bindings o.maxRounds cs).result = .ok found) css founds)
    (hsources : sources.map Value.text =
      own.map Value.text ++ founds.flatMap fun found => found.values "sources")
    (hlibraries : libraries.map Value.text =
      founds.flatMap fun found => found.values "libraries") :
    Discovers d o name sources libraries
      (css.flatMap fun cs => (Clause.resolve o.bindings o.maxRounds cs).log)

variable {d : Document} {o : Options} {name : String} {c c' : Configuration} {cs : List Clause}
  {css : List (List Clause)} {sources libraries : List String} {traces : List Record}

theorem configure_eq (d : Document) (o : Options) (name : String) :
    d.configure o name = d.discover o name >>= d.finish o := by
  simp only [configure, discover, needed, contributeEach, liftM_bind, liftM_pure, bind_assoc,
    pure_bind, bind_pure, List.foldlM_cons, List.foldlM_nil]
  rfl

section Logs

theorem log_contribute (o : Options) (c : Configuration) (cs : List Clause) :
    (contribute o c cs).log = (Clause.resolve o.bindings o.maxRounds cs).log := by
  rw [contribute]
  cases h : (Clause.resolve o.bindings o.maxRounds cs).result with
  | error e => rw [Traced.log_bind_of_error h]
  | ok found =>
    rw [Traced.log_bind_of_ok h]
    exact List.append_nil _

theorem contributeEach_of_ok (h : (contributeEach o c css).result = .ok c') :
    ∃ founds, List.Forall₂
        (fun cs found => (Clause.resolve o.bindings o.maxRounds cs).result = .ok found) css founds ∧
      (∀ found ∈ founds, Configuration.Admits found) ∧
      c' = founds.foldl Configuration.extend c ∧
      (contributeEach o c css).log =
        css.flatMap fun cs => (Clause.resolve o.bindings o.maxRounds cs).log := by
  induction css generalizing c with
  | nil =>
    cases h
    exact ⟨[], .nil, List.forall_mem_nil _, rfl, rfl⟩
  | cons cs css ih =>
    rw [contributeEach, List.foldlM_cons, Traced.result_bind] at h
    obtain ⟨c₁, h₁, h⟩ := bind_eq_ok_iff.1 h
    obtain ⟨found, hfound, hadmits, rfl⟩ := contribute_eq_ok_iff.1 h₁
    obtain ⟨founds, hfounds, hall, rfl, hlog⟩ := ih h
    refine ⟨found :: founds, .cons hfound hfounds, List.forall_mem_cons.2 ⟨hadmits, hall⟩, rfl, ?_⟩
    rw [contributeEach] at hlog
    rw [contributeEach, List.foldlM_cons, Traced.log_bind_of_ok h₁, log_contribute, hlog,
      List.flatMap_cons]

theorem discover_of_ok (h : (d.discover o name).result = .ok c) :
    ∃ traces, d.Discovers o name c.sources c.libraries traces ∧
      (d.discover o name).log = .resolving name :: traces := by
  rw [discover, Traced.result_bind] at h
  obtain ⟨t, ht, h⟩ := bind_eq_ok_iff.1 h
  rw [Traced.result_bind] at h
  obtain ⟨_, hrecord, h⟩ := bind_eq_ok_iff.1 h
  rw [Traced.result_bind] at h
  obtain ⟨r, hr, h⟩ := bind_eq_ok_iff.1 h
  obtain ⟨founds, hfounds, hall, rfl, hlog⟩ := contributeEach_of_ok h
  have hlog' : (d.discover o name).log = .resolving name ::
      (contributeEach o ⟨r.1, [], [], [], []⟩ r.2).log := by
    rw [discover, Traced.log_bind_of_ok ht, Traced.log_bind_of_ok hrecord,
      Traced.log_bind_of_ok hr]
    rfl
  obtain ⟨own, shared, conditions, dependent, hown, hshared, hconditions, hdependent, rfl⟩ :=
    needed_eq_ok_iff.1 hr
  refine ⟨_, .mk (findTarget_eq_ok_iff.1 ht) hown ?_ hfounds ?_ ?_, hlog'.trans ?_⟩
  · rw [hshared, hconditions, hdependent]
    rfl
  · rw [Configuration.foldl_extend Configuration.sources "sources" fun _ _ => rfl, List.map_append,
      Configuration.map_text_flatMap hall (by decide)]
  · rw [Configuration.foldl_extend Configuration.libraries "libraries" fun _ _ => rfl,
      List.nil_append, Configuration.map_text_flatMap hall (by decide)]
  · rw [hlog]

end Logs

theorem Discovers.level_eq (h : d.Discovers o name sources libraries traces) :
    ∀ r ∈ traces, r.level = .trace := by
  cases h
  intro r hr
  obtain ⟨cs, -, hr⟩ := List.mem_flatMap.1 hr
  exact Clause.level_of_mem_resolve hr

theorem isNone_withoutFlag? (o : Options) (library : String) :
    (o.withoutFlag? library).isNone = !o.linkFlag.toList.isPrefixOf library.toList := by
  rw [Bool.eq_iff_iff, Option.isNone_iff_eq_none, Options.withoutFlag?_eq_none_iff,
    Bool.not_eq_true', ← Bool.not_eq_true, List.isPrefixOf_iff_prefix]

theorem log_finish (d : Document) (o : Options) (c : Configuration) :
    (d.finish o c).log = (c.sources.filter fun s => !o.isSourceFile s).map .dropped ++
      (c.libraries.filter fun l => !o.linkFlag.toList.isPrefixOf l.toList).map fun l =>
        .unflagged l o.linkFlag := by
  simp only [← isNone_withoutFlag?]
  exact congrArg (o.sourceRecords c.sources ++ ·) (List.append_nil _)

theorem accounts_of_finish (h : (d.finish o c).result = .ok c') :
    c'.Accounts o d.directory c.sources c.libraries (c.sources.filter o.isSourceFile)
      (c.sources.filter fun s => !o.isSourceFile s)
      (c.libraries.filter fun l => !o.linkFlag.toList.isPrefixOf l.toList) := by
  cases h
  exact {
    kept_eq := rfl
    dropped_eq := rfl
    interleaves := Interleaves.of_filter o.isSourceFile c.sources
    sources_eq := rfl
    unflagged_eq := rfl
    forall₂_libraries := Options.nameLibraries_eq_iff.2 rfl
    length_libraries := List.length_map _ }

section Failures

/-- Holds of the records that are not about what a configuration leaves out or keeps as it is. -/
def Preliminary (r : Record) : Prop :=
  r.level ≠ .warn ∧ ∀ source, r ≠ .dropped source

theorem preliminary_of_trace {r : Record} (h : r.level = .trace) : Preliminary r := by
  apply And.intro
  · rw [h]
    exact nofun
  · intro source hr
    subst hr
    cases h

theorem emits_contribute (o : Options) (c : Configuration) (cs : List Clause) :
    Traced.Emits Preliminary (contribute o c cs) := by
  rw [Traced.Emits, log_contribute]
  exact fun r hr => preliminary_of_trace (Clause.level_of_mem_resolve hr)

theorem emits_contributeEach (o : Options) (c : Configuration) (css : List (List Clause)) :
    Traced.Emits Preliminary (contributeEach o c css) := by
  induction css generalizing c with
  | nil => exact Traced.emits_pure c
  | cons cs css ih =>
    rw [contributeEach, List.foldlM_cons]
    exact (emits_contribute o c cs).bind ih

theorem emits_discover (d : Document) (o : Options) (name : String) :
    Traced.Emits Preliminary (d.discover o name) := by
  have hrecord : Traced.Emits Preliminary (Traced.emit [.resolving name]) :=
    List.forall_mem_singleton.2 ⟨nofun, nofun⟩
  rw [discover]
  refine (Traced.emits_liftM _).bind fun t => ?_
  refine hrecord.bind fun _ => ?_
  exact (Traced.emits_liftM _).bind fun r => emits_contributeEach o _ r.2

theorem discover_of_count_ne_one (h : d.targetNames.count name ≠ 1) :
    ∃ e, d.discover o name = .fail e := by
  have hfind : ∃ e, d.findTarget name = .error e := by
    by_cases hm : name ∈ d.targetNames
    · have hcount := List.count_pos_iff.2 hm
      exact ⟨_, findTarget_eq_error_iff.2 (.inr ⟨by omega, rfl⟩)⟩
    · exact ⟨_, findTarget_eq_error_iff.2 (.inl ⟨hm, rfl⟩)⟩
  obtain ⟨e, he⟩ := hfind
  rw [discover, he]
  exact ⟨e, rfl⟩

end Failures

/-- A configuration has all sources and libraries that were found, except that the sources it drops
and the libraries without the link flag are recorded, behind the records of the resolutions. A run
that fails makes no such record. -/
theorem configure_accounts (d : Document) (o : Options) (name : String) :
    (∀ c, (d.configure o name).result = .ok c →
      ∃ sources libraries traces kept dropped unflagged,
        d.Discovers o name sources libraries traces ∧ (∀ r ∈ traces, r.level = .trace) ∧
        (d.configure o name).log = .resolving name :: (traces ++ dropped.map .dropped ++
          unflagged.map fun l => .unflagged l o.linkFlag) ∧
        c.Accounts o d.directory sources libraries kept dropped unflagged) ∧
    (∀ e, (d.configure o name).result = .error e →
      ∀ r ∈ (d.configure o name).log, r.level ≠ .warn ∧ ∀ source, r ≠ .dropped source) ∧
    (d.targetNames.count name ≠ 1 → (d.configure o name).log = []) := by
  rw [configure_eq]
  refine ⟨?_, ?_, ?_⟩
  · intro c h
    rw [Traced.result_bind] at h
    obtain ⟨c₀, h₀, h⟩ := bind_eq_ok_iff.1 h
    obtain ⟨traces, hfound, hlog⟩ := discover_of_ok h₀
    refine ⟨_, _, traces, _, _, _, hfound, hfound.level_eq, ?_, accounts_of_finish h⟩
    rw [Traced.log_bind_of_ok h₀, hlog, log_finish, List.cons_append, List.append_assoc]
  · intro e h
    rw [Traced.result_bind] at h
    rcases bind_eq_error_iff.1 h with h | ⟨c, -, h⟩
    · rw [Traced.log_bind_of_error h]
      exact emits_discover d o name
    · cases h
  · intro h
    obtain ⟨e, he⟩ := discover_of_count_ne_one (o := o) h
    rw [he]
    rfl

def mixed : Document where
  directory := some "lib"
  conditions := some [⟨"True", .boolean true,
    ⟨⟨[("libraries", .list [.text "-lm", .text "z"])]⟩, []⟩, none⟩]
  targets := [⟨"app", some ["a.c", "notes.md"], some [], some []⟩,
    ⟨"bare", some ["notes.md"], none, none⟩]

theorem configure_accounts_mixed :
    (mixed.configure .default "app").result = .ok ⟨["lib/a.c"], [], [], [], ["m", "z"]⟩ ∧
      (∃ sources libraries traces kept dropped unflagged,
        mixed.Discovers .default "app" sources libraries traces ∧
        Configuration.Accounts ⟨["lib/a.c"], [], [], [], ["m", "z"]⟩ .default (some "lib")
          sources libraries kept dropped unflagged) ∧
      (mixed.configure .default "app").log = [.resolving "app", .condition "True" true,
        .dropped "notes.md", .unflagged "z" "-l"] ∧
      (mixed.configure .default "bare").result = .error (.missingKey "targets[bare].conditions") ∧
      (.resolving "bare" ∈ (mixed.configure .default "bare").log ∧
        (Record.resolving "bare").level ≠ .warn) ∧
      mixed.targetNames.count "none" ≠ 1 ∧ (mixed.configure .default "none").log = [] := by
  have hok : (mixed.configure .default "app").result =
      .ok ⟨["lib/a.c"], [], [], [], ["m", "z"]⟩ := rfl
  have herror : (mixed.configure .default "bare").result =
      .error (.missingKey "targets[bare].conditions") := rfl
  have hmem : .resolving "bare" ∈ (mixed.configure .default "bare").log := List.mem_cons_self
  have hcount : mixed.targetNames.count "none" ≠ 1 := by decide
  obtain ⟨haccounts, -, -⟩ := configure_accounts mixed .default "app"
  obtain ⟨-, hfails, -⟩ := configure_accounts mixed .default "bare"
  obtain ⟨-, -, hnone⟩ := configure_accounts mixed .default "none"
  obtain ⟨_, _, _, _, _, _, hdiscovers, -, -, hfound⟩ := haccounts _ hok
  exact ⟨hok, ⟨_, _, _, _, _, _, hdiscovers, hfound⟩, rfl, herror,
    ⟨hmem, (hfails _ herror _ hmem).1⟩, hcount, hnone hcount⟩

end Document

end BuildDesc
