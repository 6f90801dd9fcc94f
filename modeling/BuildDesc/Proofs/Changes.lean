import BuildDesc.Options
import BuildDesc.Proofs.Outcomes

namespace BuildDesc

namespace Platform

variable {nameOf : Platform → String} {p : Platform} {name : String}

theorem osName_injective : Function.Injective osName := by
  intro p q
  cases p <;> cases q <;> decide

theorem target_injective : Function.Injective target := by
  intro p q
  cases p <;> cases q <;> decide

theorem eq_of_find? {ps : List Platform} (h : (ps.find? fun p => nameOf p == name) = some p) :
    nameOf p = name :=
  beq_iff_eq.1 (List.find?_eq_some_iff_append.1 h).1

/-- Where no two platforms have one name, a platform is found by its own name. -/
theorem named_eq_ok_iff (hinj : Function.Injective nameOf) :
    named nameOf name = .ok p ↔ nameOf p = name := by
  rw [named]
  split
  · next q hq =>
    apply Iff.intro
    · intro h
      cases h
      exact eq_of_find? hq
    · intro h
      rw [hinj (h.trans (eq_of_find? hq).symm)]
      rfl
  · next hnone =>
    refine ⟨nofun, ?_⟩
    intro h
    have hp : p ∈ [linux, windows, mac] := by cases p <;> decide
    exact absurd (beq_iff_eq.2 h) (List.find?_eq_none.1 hnone p hp)

theorem named_of_forall_ne (h : ∀ p, nameOf p ≠ name) :
    named nameOf name = .error (.unknownOs name) := by
  rw [named]
  split
  · next p hp => exact absurd (eq_of_find? hp) (h p)
  · rfl

theorem ofOsName_eq_ok_iff : ofOsName name = .ok p ↔ p.osName = name :=
  named_eq_ok_iff osName_injective

theorem ofTarget_eq_ok_iff : ofTarget name = .ok p ↔ p.target = name :=
  named_eq_ok_iff target_injective

end Platform

namespace Options

inductive Slot where
  | binding (name : String)
  | sourceExtensions
  | linkFlag
  | maxRounds

abbrev Slot.Value : Slot → Type
  | binding _ => Option String
  | sourceExtensions => List String
  | linkFlag => String
  | maxRounds => Nat

def get (o : Options) : (s : Slot) → s.Value
  | .binding name => o.bindings[name]?
  | .sourceExtensions => o.sourceExtensions
  | .linkFlag => o.linkFlag
  | .maxRounds => o.maxRounds

/-- Holds of a change, a slot and what the change puts there. To bind a platform by a name that none
has is no such change. -/
inductive Change.Sets : Change → (s : Slot) → s.Value → Prop
  | platform (p : Platform) : Sets (.platform p) (.binding osBinding) (some p.token)
  | osName {p : Platform} {name : String} (h : p.osName = name) :
    Sets (.osName name) (.binding osBinding) (some p.token)
  | hostPlatform {p : Platform} {target : String} (h : p.target = target) :
    Sets (.hostPlatform target) (.binding osBinding) (some p.token)
  | libraryKind (kind : String) : Sets (.libraryKind kind) (.binding libraryBinding) (some kind)
  | binding (name text : String) : Sets (.binding name text) (.binding name) (some text)
  | bindings {b : Bindings} {name text : String} (h : b[name]? = some text) :
    Sets (.bindings b) (.binding name) (some text)
  | sourceExtensions (extensions : List String) :
    Sets (.sourceExtensions extensions) .sourceExtensions extensions
  | linkFlag (flag : String) : Sets (.linkFlag flag) .linkFlag flag
  | maxRounds (rounds : Nat) : Sets (.maxRounds rounds) .maxRounds rounds

def Change.Touches (c : Change) (s : Slot) : Prop :=
  ∃ v, c.Sets s v

/-- Holds of the changes that fail: those that bind a platform by a name that none has. -/
inductive Change.Fails : Change → Prop
  | osName {name : String} (h : ∀ p : Platform, p.osName ≠ name) : Fails (.osName name)
  | hostPlatform {target : String} (h : ∀ p : Platform, p.target ≠ target) :
    Fails (.hostPlatform target)

/-- Holds of what the last of the changes that set a slot puts there. -/
def LastSets (cs : List Change) (s : Slot) (v : s.Value) : Prop :=
  ∃ before c after, cs = before ++ c :: after ∧ c.Sets s v ∧ ∀ d ∈ after, ¬d.Touches s

/-- The options after changes in turn, each of which changes nothing if it fails. -/
def tryChanges (o : Options) (cs : List Change) : Options :=
  cs.foldl tryChange o

variable {o p : Options} {c d : Change} {cs before after : List Change} {s : Slot}
  {name text : String}

theorem ext_get (h : ∀ s, o.get s = p.get s) : o = p := by
  obtain ⟨b, es, flag, n⟩ := o
  obtain ⟨b', es', flag', n'⟩ := p
  obtain rfl : b = b' := Std.ExtTreeMap.ext_getElem? fun name => h (.binding name)
  obtain rfl : es = es' := h .sourceExtensions
  obtain rfl : flag = flag' := h .linkFlag
  obtain rfl : n = n' := h .maxRounds
  rfl

section Steps

theorem get_withBinding_self (o : Options) (name text : String) :
    (o.withBinding name text).get (.binding name) = some text :=
  Std.ExtTreeMap.getElem?_insert_self

theorem get_withBinding_of_ne (h : s ≠ .binding name) (text : String) :
    (o.withBinding name text).get s = o.get s := by
  cases s with
  | binding k =>
    have hk : ¬compare name k = .eq := by
      intro he
      exact h (congrArg Slot.binding (Std.LawfulEqCmp.eq_of_compare he).symm)
    exact Std.ExtTreeMap.getElem?_insert.trans (if_neg hk)
  | sourceExtensions => rfl
  | linkFlag => rfl
  | maxRounds => rfl

theorem get_withBindings (o : Options) (b : Bindings) (name : String) :
    (o.withBindings b).get (.binding name) = b[name]?.or (o.get (.binding name)) :=
  Std.ExtTreeMap.getElem?_union

theorem get_tryChange {v : s.Value} (h : c.Sets s v) : (o.tryChange c).get s = v := by
  cases h with
  | platform p => exact get_withBinding_self o osBinding p.token
  | @osName p name h =>
    rw [tryChange, change, Platform.ofOsName_eq_ok_iff.2 h]
    exact get_withBinding_self o osBinding p.token
  | @hostPlatform p target h =>
    rw [tryChange, change, Platform.ofTarget_eq_ok_iff.2 h]
    exact get_withBinding_self o osBinding p.token
  | libraryKind kind => exact get_withBinding_self o libraryBinding kind
  | binding name text => exact get_withBinding_self o name text
  | @bindings b name text h =>
    refine (get_withBindings o b name).trans ?_
    rw [h, Option.some_or]
  | sourceExtensions => rfl
  | linkFlag => rfl
  | maxRounds => rfl

/-- A change that looks a platform up binds no other name, whether or not it finds one. -/
theorem get_tryChange_of_platform {found : Except Error Platform}
    (hc : o.change c = found >>= fun p => return o.withBinding osBinding p.token)
    (hne : ∀ p, found = .ok p → s ≠ .binding osBinding) : (o.tryChange c).get s = o.get s := by
  rw [tryChange, hc]
  cases found with
  | ok p => exact get_withBinding_of_ne (hne p rfl) p.token
  | error e => rfl

theorem get_tryChange_of_not_touches (h : ¬c.Touches s) : (o.tryChange c).get s = o.get s := by
  have hne : ∀ {name text}, c.Sets (.binding name) (some text) → s ≠ .binding name := by
    rintro name text hsets rfl
    exact h ⟨some text, hsets⟩
  cases c with
  | platform p => exact get_withBinding_of_ne (hne (.platform p)) p.token
  | osName name =>
    refine get_tryChange_of_platform rfl ?_
    exact fun p hp => hne (.osName (Platform.ofOsName_eq_ok_iff.1 hp))
  | hostPlatform target =>
    refine get_tryChange_of_platform rfl ?_
    exact fun p hp => hne (.hostPlatform (Platform.ofTarget_eq_ok_iff.1 hp))
  | libraryKind kind => exact get_withBinding_of_ne (hne (.libraryKind kind)) kind
  | binding name text => exact get_withBinding_of_ne (hne (.binding name text)) text
  | bindings b =>
    cases s with
    | binding name =>
      refine (get_withBindings o b name).trans ?_
      cases hb : b[name]? with
      | none => exact Option.none_or
      | some text => exact absurd ⟨some text, .bindings hb⟩ h
    | sourceExtensions => rfl
    | linkFlag => rfl
    | maxRounds => rfl
  | sourceExtensions extensions =>
    cases s with
    | sourceExtensions => exact absurd ⟨extensions, .sourceExtensions extensions⟩ h
    | _ => rfl
  | linkFlag flag =>
    cases s with
    | linkFlag => exact absurd ⟨flag, .linkFlag flag⟩ h
    | _ => rfl
  | maxRounds rounds =>
    cases s with
    | maxRounds => exact absurd ⟨rounds, .maxRounds rounds⟩ h
    | _ => rfl

end Steps

section Runs

theorem tryChanges_append (o : Options) (cs ds : List Change) :
    o.tryChanges (cs ++ ds) = (o.tryChanges cs).tryChanges ds :=
  List.foldl_append

theorem tryChanges_append_cons (o : Options) (before : List Change) (c : Change)
    (after : List Change) :
    o.tryChanges (before ++ c :: after) = ((o.tryChanges before).tryChange c).tryChanges after :=
  tryChanges_append o before (c :: after)

theorem get_tryChanges_of_not_touches (h : ∀ c ∈ cs, ¬c.Touches s) :
    (o.tryChanges cs).get s = o.get s := by
  induction cs generalizing o with
  | nil => rfl
  | cons c cs ih =>
    rw [List.forall_mem_cons] at h
    exact (ih h.2).trans (get_tryChange_of_not_touches h.1)

theorem LastSets.get_tryChanges {v : s.Value} (h : LastSets cs s v) (o : Options) :
    (o.tryChanges cs).get s = v := by
  obtain ⟨before, c, after, rfl, hc, hafter⟩ := h
  rw [tryChanges_append_cons, get_tryChanges_of_not_touches hafter]
  exact get_tryChange hc

theorem LastSets.append_left {v : s.Value} (h : LastSets cs s v) (before : List Change) :
    LastSets (before ++ cs) s v := by
  obtain ⟨first, c, after, rfl, hc, hafter⟩ := h
  exact ⟨before ++ first, c, after, (List.append_assoc _ _ _).symm, hc, hafter⟩

theorem lastSets_or_untouched (cs : List Change) (s : Slot) :
    (∃ v, LastSets cs s v) ∨ ∀ c ∈ cs, ¬c.Touches s := by
  induction cs with
  | nil => exact .inr (List.forall_mem_nil _)
  | cons c cs ih =>
    rcases ih with ⟨v, hv⟩ | huntouched
    · exact .inl ⟨v, hv.append_left [c]⟩
    · by_cases hc : c.Touches s
      · obtain ⟨v, hv⟩ := hc
        exact .inl ⟨v, [], c, cs, rfl, hv, huntouched⟩
      · exact .inr (List.forall_mem_cons.2 ⟨hc, huntouched⟩)

theorem get_tryChanges_eq_iff {v : s.Value} :
    (o.tryChanges cs).get s = v ↔
      LastSets cs s v ∨ (∀ c ∈ cs, ¬c.Touches s) ∧ o.get s = v := by
  apply Iff.intro
  · rintro rfl
    rcases lastSets_or_untouched cs s with ⟨v, hv⟩ | huntouched
    · rw [hv.get_tryChanges o]
      exact .inl hv
    · exact .inr ⟨huntouched, (get_tryChanges_of_not_touches huntouched).symm⟩
  · intro h
    rcases h with h | ⟨h, rfl⟩
    · exact h.get_tryChanges o
    · exact get_tryChanges_of_not_touches h

/-- What stands in a slot at first is of no use if a change sets the slot. -/
theorem tryChanges_congr (h : ∀ s, (∃ c ∈ cs, c.Touches s) ∨ o.get s = p.get s) :
    o.tryChanges cs = p.tryChanges cs := by
  apply ext_get
  intro s
  rcases lastSets_or_untouched cs s with ⟨v, hv⟩ | huntouched
  · rw [hv.get_tryChanges o, hv.get_tryChanges p]
  · rw [get_tryChanges_of_not_touches huntouched, get_tryChanges_of_not_touches huntouched]
    refine (h s).resolve_left ?_
    rintro ⟨c, hc, hs⟩
    exact huntouched c hc hs

theorem tryChanges_overwritten (h : ∀ s, c.Touches s → ∃ d ∈ after, d.Touches s) :
    o.tryChanges (before ++ c :: after) = o.tryChanges (before ++ after) := by
  rw [tryChanges_append_cons, tryChanges_append]
  apply tryChanges_congr
  intro s
  by_cases hc : c.Touches s
  · exact .inl (h s hc)
  · exact .inr (get_tryChange_of_not_touches hc)

theorem tryChange_comm (h : ∀ s, ¬(c.Touches s ∧ d.Touches s)) (o : Options) :
    (o.tryChange c).tryChange d = (o.tryChange d).tryChange c := by
  apply ext_get
  intro s
  by_cases hc : c.Touches s
  · have hd : ¬d.Touches s := fun hd => h s ⟨hc, hd⟩
    obtain ⟨v, hv⟩ := hc
    rw [get_tryChange_of_not_touches hd, get_tryChange hv, get_tryChange hv]
  · rw [get_tryChange_of_not_touches hc]
    by_cases hd : d.Touches s
    · obtain ⟨v, hv⟩ := hd
      rw [get_tryChange hv, get_tryChange hv]
    · rw [get_tryChange_of_not_touches hd, get_tryChange_of_not_touches hd,
        get_tryChange_of_not_touches hc]

theorem tryChanges_swap (h : ∀ s, ¬(c.Touches s ∧ d.Touches s)) :
    o.tryChanges (before ++ c :: d :: after) = o.tryChanges (before ++ d :: c :: after) := by
  rw [tryChanges_append, tryChanges_append]
  exact congrArg (tryChanges · after) (tryChange_comm h (o.tryChanges before))

end Runs

section Failures

theorem fails_iff : c.Fails ↔ ∃ e, o.change c = .error e := by
  apply Iff.intro
  · intro h
    cases h with
    | @osName name h =>
      refine ⟨.unknownOs name, ?_⟩
      rw [change, Platform.ofOsName, Platform.named_of_forall_ne h]
      rfl
    | @hostPlatform target h =>
      refine ⟨.unknownOs target, ?_⟩
      rw [change, Platform.ofTarget, Platform.named_of_forall_ne h]
      rfl
  · intro h
    obtain ⟨e, h⟩ := h
    cases c with
    | osName name =>
      apply Change.Fails.osName
      intro p hp
      rw [change, Platform.ofOsName_eq_ok_iff.2 hp] at h
      cases h
    | hostPlatform target =>
      apply Change.Fails.hostPlatform
      intro p hp
      rw [change, Platform.ofTarget_eq_ok_iff.2 hp] at h
      cases h
    | _ => cases h

theorem Change.Fails.not_touches (h : c.Fails) (s : Slot) : ¬c.Touches s := by
  rintro ⟨v, hv⟩
  cases h with
  | osName hne =>
    cases hv with
    | osName hp => exact hne _ hp
  | hostPlatform hne =>
    cases hv with
    | hostPlatform hp => exact hne _ hp

theorem tryChange_of_fails (h : c.Fails) (o : Options) : o.tryChange c = o :=
  ext_get fun s => get_tryChange_of_not_touches (h.not_touches s)

theorem change_eq_ok_iff : o.change c = .ok p ↔ ¬c.Fails ∧ o.tryChange c = p := by
  rw [fails_iff (o := o), tryChange]
  cases o.change c with
  | ok changed => simp
  | error e => simp

theorem foldlM_change_eq_ok_iff :
    cs.foldlM change o = .ok p ↔ (∀ c ∈ cs, ¬c.Fails) ∧ o.tryChanges cs = p := by
  induction cs generalizing o with
  | nil =>
    rw [and_iff_right (List.forall_mem_nil _)]
    exact Except.ok.injEq o p ▸ Iff.rfl
  | cons c cs ih =>
    rw [List.foldlM_cons, bind_eq_ok_iff, List.forall_mem_cons]
    apply Iff.intro
    · intro h
      obtain ⟨changed, hc, hcs⟩ := h
      obtain ⟨hfails, rfl⟩ := change_eq_ok_iff.1 hc
      obtain ⟨hfail, rfl⟩ := ih.1 hcs
      exact ⟨⟨hfails, hfail⟩, rfl⟩
    · intro h
      obtain ⟨⟨hfails, hfail⟩, hp⟩ := h
      exact ⟨o.tryChange c, change_eq_ok_iff.2 ⟨hfails, rfl⟩, ih.2 ⟨hfail, hp⟩⟩

end Failures

section Listings

theorem tryChanges_listing {b : Bindings} {es : List (String × String)} (h : es.Perm b.toList)
    (o : Options) :
    o.tryChanges (es.map fun e => .binding e.1 e.2) = o.tryChange (.bindings b) := by
  have hmem : ∀ name text, (name, text) ∈ es ↔ b[name]? = some text := by
    intro name text
    rw [h.mem_iff, Std.ExtTreeMap.mem_toList_iff_getElem?_eq_some]
  have hnodup : (es.map Prod.fst).Nodup := by
    rw [(h.map Prod.fst).nodup_iff, Std.ExtTreeMap.map_fst_toList_eq_keys]
    exact Std.ExtTreeMap.nodup_keys
  apply ext_get
  intro s
  by_cases htouches : (Change.bindings b).Touches s
  · obtain ⟨v, hv⟩ := htouches
    rw [get_tryChange hv]
    cases hv with
    | @bindings _ name text hb =>
      obtain ⟨before, after, rfl⟩ := List.append_of_mem ((hmem name text).2 hb)
      rw [List.map_append, List.nodup_append, List.map_cons, List.nodup_cons] at hnodup
      -- no later entry has the name again
      have hafter : ∀ d ∈ after.map fun e => Change.binding e.1 e.2,
          ¬d.Touches (.binding name) := by
        intro d hd hs
        obtain ⟨e, he, rfl⟩ := List.mem_map.1 hd
        obtain ⟨v, hv⟩ := hs
        cases hv with
        | binding => exact hnodup.2.1.1 (List.mem_map.2 ⟨e, he, rfl⟩)
      rw [List.map_append, List.map_cons]
      apply LastSets.get_tryChanges
      exact ⟨_, .binding name text, _, rfl, .binding name text, hafter⟩
  · rw [get_tryChange_of_not_touches htouches]
    apply get_tryChanges_of_not_touches
    intro c hc hs
    obtain ⟨e, he, rfl⟩ := List.mem_map.1 hc
    obtain ⟨v, hv⟩ := hs
    cases hv with
    | binding => exact htouches ⟨some e.2, .bindings ((hmem e.1 e.2).1 he)⟩

end Listings

theorem get_default (name : String) :
    default.get (.binding name) =
      if name = libraryBinding then some "static_library" else none := by
  change ((∅ : Bindings).insert libraryBinding "static_library")[name]? = _
  rw [Std.ExtTreeMap.getElem?_insert, Std.ExtTreeMap.getElem?_empty]
  simp only [Std.LawfulEqCmp.compare_eq_iff_eq, @eq_comm _ name]

/-- Holds of options if changes in turn leave in each slot what the last change that sets it puts
there. -/
structure LastWins (o : Options) : Prop where
  get_eq_iff : ∀ cs s v, (o.tryChanges cs).get s = v ↔
    LastSets cs s v ∨ (∀ c ∈ cs, ¬c.Touches s) ∧ o.get s = v
  listing : ∀ (b : Bindings) (es : List (String × String)), es.Perm b.toList →
    o.tryChanges (es.map fun e => .binding e.1 e.2) = o.tryChange (.bindings b)
  failing : ∀ c, Change.Fails c → o.tryChange c = o
  swap : ∀ before c d after, (∀ s, ¬(Change.Touches c s ∧ Change.Touches d s)) →
    o.tryChanges (before ++ c :: d :: after) = o.tryChanges (before ++ d :: c :: after)
  overwritten : ∀ before c after, (∀ s, Change.Touches c s → ∃ d ∈ after, d.Touches s) →
    o.tryChanges (before ++ c :: after) = o.tryChanges (before ++ after)

/-- The last change that sets a slot decides what stands there after changes in turn. So changes of
different slots may be swapped, and one whose slots are all set again may be left out. -/
theorem tryChanges_lastWins :
    (∀ o, LastWins o) ∧
    (∀ name, default.get (.binding name) =
      if name = libraryBinding then some "static_library" else none) ∧
    ∀ cs o, ofChanges cs = .ok o ↔ (∀ c ∈ cs, ¬c.Fails) ∧ default.tryChanges cs = o := by
  refine ⟨?_, get_default, fun cs o => foldlM_change_eq_ok_iff⟩
  intro o
  exact {
    get_eq_iff := fun _ _ _ => get_tryChanges_eq_iff
    listing := fun _ _ h => tryChanges_listing h o
    failing := fun _ h => tryChange_of_fails h o
    swap := fun _ _ _ _ => tryChanges_swap
    overwritten := fun _ _ _ => tryChanges_overwritten }

def sampleChanges : List Change :=
  [.platform .mac, .maxRounds 3, .osName "win32", .osName "beos"]

theorem tryChanges_lastWins_sample :
    (default.tryChanges sampleChanges).get (.binding osBinding) = some "win" ∧
    (default.tryChanges sampleChanges).get .sourceExtensions = ["c", "cc", "cpp"] ∧
    (Change.osName "beos").Fails ∧ default.tryChange (.osName "beos") = default ∧
    default.tryChanges sampleChanges =
      default.tryChanges [.maxRounds 3, .platform .mac, .osName "win32", .osName "beos"] ∧
    default.tryChanges sampleChanges =
      default.tryChanges [.maxRounds 3, .osName "win32", .osName "beos"] ∧
    [("b", "2"), ("a", "1")].Perm (((∅ : Bindings).insert "a" "1").insert "b" "2").toList ∧
    default.tryChanges [.binding "b" "2", .binding "a" "1"] =
      default.tryChange (.bindings (((∅ : Bindings).insert "a" "1").insert "b" "2")) := by
  obtain ⟨hwins, -⟩ := tryChanges_lastWins
  obtain ⟨hget, hlisting, hfailing, hswap, hoverwritten⟩ := hwins default
  have hfails : (Change.osName "beos").Fails := by
    apply Change.Fails.osName
    intro p
    cases p <;> decide
  have hwindows : (Change.osName "win32").Sets (.binding osBinding) (some "win") :=
    .osName (p := .windows) rfl
  have hlast : LastSets sampleChanges (.binding osBinding) (some "win") :=
    ⟨[.platform .mac, .maxRounds 3], .osName "win32", [.osName "beos"], rfl, hwindows,
      List.forall_mem_singleton.2 (hfails.not_touches _)⟩
  have huntouched : ∀ c ∈ sampleChanges, ¬c.Touches .sourceExtensions := by
    intro c hc hs
    obtain ⟨v, hv⟩ := hs
    rw [sampleChanges] at hc
    simp only [List.mem_cons, List.not_mem_nil, or_false] at hc
    rcases hc with rfl | rfl | rfl | rfl <;> cases hv
  have hapart : ∀ s, ¬((Change.platform .mac).Touches s ∧ (Change.maxRounds 3).Touches s) := by
    rintro s ⟨⟨v, hv⟩, ⟨w, hw⟩⟩
    cases hv
    cases hw
  have hagain : ∀ s, (Change.platform .mac).Touches s →
      ∃ d ∈ [Change.maxRounds 3, .osName "win32", .osName "beos"], d.Touches s := by
    rintro s ⟨v, hv⟩
    cases hv
    exact ⟨.osName "win32", by simp, _, hwindows⟩
  have hperm : [("b", "2"), ("a", "1")].Perm
      (((∅ : Bindings).insert "a" "1").insert "b" "2").toList := by
    decide +kernel
  exact ⟨(hget _ _ _).2 (.inl hlast), (hget _ _ _).2 (.inr ⟨huntouched, rfl⟩),
    hfails, hfailing _ hfails, hswap [] _ _ _ hapart, hoverwritten [] _ _ hagain, hperm,
    hlisting _ _ hperm⟩

end Options

end BuildDesc
