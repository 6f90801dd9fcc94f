import BuildDesc.FileTree
import BuildDesc.Proofs.Outcomes
import BuildDesc.Proofs.Paths

namespace BuildDesc.FileTree

variable {t t' : FileTree} {path folder name s s' : String} {l m : Location}
  {ss ss' : List (List Char)} {content : ByteArray}

/-- Holds of a path to a file with a text. -/
def Holds (t : FileTree) (path s : String) : Prop :=
  (t.locate? path).bind t.entry? = some (.file s.toUTF8)

/-- Holds of the place of the folder that a path leads to, which for the empty path is the place
that paths start from. -/
def Leads (t : FileTree) (path : String) (l : Location) : Prop :=
  t.follow? (t.start path) (Path.segments path) = some l ∧ t.isFolder l = true

/-- Holds of two trees when the second one has a text at a path and is the first one elsewhere. -/
structure Updates (t t' : FileTree) (path s : String) : Prop where
  holds : t'.Holds path s
  workingFolder : t'.workingFolder = t.workingFolder
  entries : ∀ l, t.locate? path ≠ some l → t'.entry? l = t.entry? l
  places : ∀ other, t'.locate? other = t.locate? other
  elsewhere : ∀ other, t.locate? other ≠ t.locate? path → t'.read other = t.read other

section Reading

theorem fromUTF8?_eq_some_iff {b : ByteArray} : String.fromUTF8? b = some s ↔ b = s.toUTF8 := by
  rw [String.fromUTF8?, String.toUTF8_eq_toByteArray]
  split
  · next h =>
    rw [Option.some.injEq]
    apply Iff.intro
    · intro h
      subst h
      rfl
    · intro h
      subst h
      rfl
  · next h =>
    refine ⟨nofun, ?_⟩
    intro hb
    subst hb
    exact absurd s.isValidUTF8 h

theorem read_eq_ok_iff :
    t.read path = .ok content ↔ (t.locate? path).bind t.entry? = some (.file content) := by
  rw [read]
  split
  · next c hc =>
    rw [hc]
    simp [pure, Except.pure]
  · next hc =>
    refine ⟨nofun, fun h => absurd h (hc content)⟩

theorem eq_io_of_read {e : Error} (h : t.read path = .error e) : e = .io path := by
  rw [read] at h
  split at h
  · cases h
  · exact (Except.error.inj h).symm

theorem readText_eq_ok_iff : t.readText path = .ok s ↔ t.Holds path s := by
  rw [readText, bind_eq_ok_iff, Holds, ← read_eq_ok_iff]
  apply Iff.intro
  · intro h
    obtain ⟨content, hread, h⟩ := h
    split at h
    · next text htext =>
      cases h
      rwa [← fromUTF8?_eq_some_iff.1 htext]
    · cases h
  · intro h
    refine ⟨s.toUTF8, h, ?_⟩
    rw [fromUTF8?_eq_some_iff.2 rfl]
    rfl

theorem Holds.unique (h : t.Holds path s) (h' : t.Holds path s') : s = s' :=
  Except.ok.inj ((readText_eq_ok_iff.2 h).symm.trans (readText_eq_ok_iff.2 h'))

theorem eq_io_of_readText {e : Error} (h : t.readText path = .error e) : e = .io path := by
  rcases bind_eq_error_iff.1 h with h | ⟨content, -, h⟩
  · exact eq_io_of_read h
  · split at h
    · cases h
    · exact (Except.error.inj h).symm

theorem readText_of_forall_not_holds (h : ∀ s, ¬t.Holds path s) :
    t.readText path = .error (.io path) := by
  cases hread : t.readText path with
  | ok s => exact absurd (readText_eq_ok_iff.1 hread) (h s)
  | error e => rw [eq_io_of_readText hread]

end Reading

section Following

theorem follow?_cons (t : FileTree) (l : Location) (segment : List Char) (ss : List (List Char)) :
    t.follow? l (segment :: ss) =
      if t.isFolder l && (String.ofList segment).utf8ByteSize ≤ maxNameSize then
        t.follow? (step l segment) ss
      else none := by
  rw [follow?]

theorem follow?_append (t : FileTree) (l : Location) (ss ss' : List (List Char)) :
    t.follow? l (ss ++ ss') = (t.follow? l ss).bind fun m => t.follow? m ss' := by
  induction ss generalizing l with
  | nil => rfl
  | cons segment ss ih =>
    rw [List.cons_append, follow?_cons, follow?_cons]
    split
    · exact ih (step l segment)
    · rfl

theorem follow?_congr (h : ∀ l, t'.isFolder l = t.isFolder l) (l : Location)
    (ss : List (List Char)) : t'.follow? l ss = t.follow? l ss := by
  induction ss generalizing l with
  | nil => rfl
  | cons segment ss ih => rw [follow?_cons, follow?_cons, h, ih]

theorem follow?_of_locate? (h : t.locate? path = some l) :
    t.follow? (t.start path) (Path.segments path) = some l := by
  rw [locate?] at h
  split at h
  · cases h
  · exact h

theorem exists_of_follow?_append_singleton {segment : List Char}
    (h : t.follow? m (ss ++ [segment]) = some l) :
    ∃ n, t.follow? m ss = some n ∧ t.isFolder n = true ∧ l = step n segment := by
  rw [follow?_append] at h
  obtain ⟨n, hn, h⟩ := Option.bind_eq_some_iff.1 h
  rw [follow?_cons] at h
  split at h
  · next hc => exact ⟨n, hn, (Bool.and_eq_true_iff.1 hc).1, (Option.some.inj h).symm⟩
  · cases h

theorem follow?_append_nil (h : t.follow? m ss = some l) (hl : t.isFolder l = true) :
    t.follow? m (ss ++ [[]]) = some l := by
  rw [follow?_append, h, Option.bind_some, follow?_cons, hl]
  rfl

/-- What a name that is joined to a path leads to is in the folder of that path. -/
theorem leads_of_locate?_join (hslash : '/' ∉ name.toList) (hidle : Path.isIdle name.toList = false)
    (hup : name.toList ≠ ['.', '.']) (h : t.locate? (Path.join folder name) = some l) :
    ∃ m, t.Leads folder m ∧ l = name :: m := by
  obtain ⟨ss, hjoin, hfolder⟩ := Path.segments_join hslash folder
  have hstart : t.start (Path.join folder name) = t.start folder := by
    rw [start, start, Path.isAbsolute_join hslash]
  have hfollow := follow?_of_locate? h
  rw [hjoin, hstart] at hfollow
  obtain ⟨m, hm, hisFolder, rfl⟩ := exists_of_follow?_append_singleton hfollow
  refine ⟨m, ⟨?_, hisFolder⟩, ?_⟩
  · rcases hfolder with hfolder | hfolder
    · rwa [hfolder]
    · rw [hfolder]
      exact follow?_append_nil hm hisFolder
  · rw [step, hidle, if_neg Bool.false_ne_true, if_neg hup, String.ofList_toList]

end Following

section Writing

theorem entry_set_self (t : FileTree) (l : Location) (e : FileEntry) :
    entry? (t.set l e) l = some e :=
  if_pos rfl

theorem entry_set_of_ne (e : FileEntry) (h : m ≠ l) : entry? (t.set l e) m = t.entry? m :=
  if_neg h

theorem isFolder_set (h : t.isFolder l = false) (content : ByteArray) (m : Location) :
    (t.set l (.file content)).isFolder m = t.isFolder m := by
  by_cases hm : m = l
  · subst hm
    rw [h, isFolder, entry_set_self]
  · rw [isFolder, isFolder, entry_set_of_ne _ hm]

/-- A file that is written does not change where paths lead. -/
theorem locate?_set (h : t.isFolder l = false) (content : ByteArray) (path : String) :
    (t.set l (.file content)).locate? path = t.locate? path := by
  rw [locate?, locate?, follow?_congr (isFolder_set h content)]
  rfl

theorem write_eq_ok_iff :
    t.write path content = .ok t' ↔
      ∃ l, t.locate? path = some l ∧ t.isFolder l = false ∧ t' = t.set l (.file content) := by
  rw [write]
  split
  · next l hl =>
    rw [hl]
    split
    · next hf =>
      refine ⟨nofun, fun ⟨m, hm, hn, _⟩ => ?_⟩
      cases hm
      rw [hf] at hn
      cases hn
    · next hf =>
      apply Iff.intro
      · intro h
        exact ⟨l, rfl, Bool.eq_false_iff.2 hf, (Except.ok.inj h).symm⟩
      · intro h
        obtain ⟨m, hm, -, rfl⟩ := h
        cases hm
        rfl
  · next hl =>
    refine ⟨nofun, fun ⟨l, h, _⟩ => ?_⟩
    rw [hl] at h
    cases h

theorem eq_io_of_write {e : Error} (h : t.write path content = .error e) : e = .io path := by
  rw [write] at h
  split at h
  · split at h
    · exact (Except.error.inj h).symm
    · cases h
  · exact (Except.error.inj h).symm

theorem write_of_forall_isFolder (h : ∀ l, t.locate? path = some l → t.isFolder l = true) :
    t.write path content = .error (.io path) := by
  cases hw : t.write path content with
  | ok t' =>
    obtain ⟨l, hl, hf, -⟩ := write_eq_ok_iff.1 hw
    rw [h l hl] at hf
    cases hf
  | error e => rw [eq_io_of_write hw]

theorem updates_of_write (h : t.write path s.toUTF8 = .ok t') : t.Updates t' path s := by
  obtain ⟨l, hl, hf, rfl⟩ := write_eq_ok_iff.1 h
  have hplaces := locate?_set hf s.toUTF8
  refine ⟨?_, rfl, fun m hm => entry_set_of_ne _ fun he => hm (he ▸ hl), hplaces, ?_⟩
  · rw [Holds, hplaces, hl, Option.bind_some, entry_set_self]
  · intro other hother
    rw [read, read, hplaces]
    cases hm : t.locate? other with
    | none => rfl
    | some m =>
      rw [hm, hl] at hother
      rw [Option.bind_some, Option.bind_some,
        entry_set_of_ne _ fun he => hother (congrArg some he)]

end Writing

end BuildDesc.FileTree
