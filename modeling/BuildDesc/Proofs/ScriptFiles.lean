import BuildDesc.Proofs.FileTrees
import BuildDesc.Proofs.Templates

namespace BuildDesc

namespace FileM

variable {α β : Type}

theorem run_bind (x : FileM α) (f : α → FileM β) (t : FileTree) :
    (x >>= f).run t =
      match x.run t with
      | (.ok a, t') => (f a).run t'
      | (.error e, t') => (.error e, t') := by
  change (match x.run t with | (r, t') => ExceptT.bindCont f r t') = _
  cases x.run t with
  | mk r t' =>
    cases r with
    | ok a => rfl
    | error e => rfl

theorem run_readText (path : String) (t : FileTree) :
    (readText path).run t = (t.readText path, t) :=
  rfl

theorem run_lift (x : Except Error α) (t : FileTree) : (liftM x : FileM α).run t = (x, t) :=
  rfl

theorem run_writeText (path text : String) (t : FileTree) :
    (writeText path text).run t =
      match t.write path text.toUTF8 with
      | .ok t' => (.ok (), t')
      | .error e => (.error e, t) := by
  change ((liftM (t.write path text.toUTF8) : FileM FileTree) >>= set).run t = _
  rw [run_bind, run_lift]
  cases t.write path text.toUTF8 with
  | ok t' => rfl
  | error e => rfl

end FileM

namespace ResourceScript

variable {s : ResourceScript} {t t' : FileTree} {template folder path text out : String}

section Naming

theorem exists_fileName_eq (s : ResourceScript) :
    ∃ stem, s.fileName = stem ++ ".rc" ∧ '/' ∉ stem.toList := by
  rw [fileName]
  cases h : Path.stem? s.executable with
  | none => exact ⟨"", rfl, List.not_mem_nil⟩
  | some stem => exact ⟨stem, rfl, Path.not_mem_stem? h⟩

theorem not_mem_fileName (s : ResourceScript) : '/' ∉ s.fileName.toList := by
  obtain ⟨stem, hname, hstem⟩ := s.exists_fileName_eq
  rw [hname, String.toList_append, List.mem_append, not_or]
  exact ⟨hstem, by decide⟩

theorem getLast?_fileName (s : ResourceScript) : s.fileName.toList.getLast? = some 'c' := by
  obtain ⟨stem, hname, -⟩ := s.exists_fileName_eq
  rw [hname, String.toList_append, List.getLast?_append]
  rfl

theorem fileName_ne {segment : List Char} (s : ResourceScript) (h : segment.getLast? ≠ some 'c') :
    s.fileName.toList ≠ segment := by
  intro he
  subst he
  exact h s.getLast?_fileName

theorem isIdle_fileName (s : ResourceScript) : Path.isIdle s.fileName.toList = false := by
  rw [Path.isIdle, Bool.or_eq_false_iff, List.isEmpty_eq_false_iff, beq_eq_false_iff_ne]
  exact ⟨s.fileName_ne (by decide), s.fileName_ne (by decide)⟩

end Naming

section Running

def written (s : ResourceScript) (t : FileTree) (template folder : String) :
    Except Error FileTree := do
  let text ← t.readText template
  let out ← s.render text
  t.write (Path.join folder s.fileName) out.toUTF8

/-- The only write of a run comes behind everything else that can fail. -/
theorem run_write (s : ResourceScript) (t : FileTree) (template folder : String) :
    (s.write template folder).run t =
      match s.written t template folder with
      | .ok t' => (.ok (Path.join folder s.fileName), t')
      | .error e => (.error e, t) := by
  rw [write, written, FileM.run_bind, FileM.run_readText]
  cases t.readText template with
  | error e => rfl
  | ok text =>
    dsimp only
    rw [FileM.run_bind, FileM.run_lift]
    cases hout : s.render text with
    | error e => simp only [bind, Except.bind, hout]
    | ok out =>
      dsimp only
      rw [FileM.run_bind, FileM.run_writeText]
      simp only [bind, Except.bind, hout]
      cases t.write (Path.join folder s.fileName) out.toUTF8 with
      | error e => rfl
      | ok t' => rfl

theorem eq_of_run_write_error {e : Error}
    (h : (s.write template folder).run t = (.error e, t')) : t' = t := by
  rw [run_write] at h
  cases hw : s.written t template folder with
  | ok u =>
    rw [hw] at h
    cases h
  | error e' =>
    rw [hw] at h
    exact (Prod.mk.inj h).2.symm

theorem written_of_run_write_ok (h : (s.write template folder).run t = (.ok path, t')) :
    path = Path.join folder s.fileName ∧ s.written t template folder = .ok t' := by
  rw [run_write] at h
  cases hw : s.written t template folder with
  | ok u =>
    rw [hw] at h
    cases h
    exact ⟨rfl, rfl⟩
  | error e =>
    rw [hw] at h
    cases h

theorem written_eq_ok_iff :
    s.written t template folder = .ok t' ↔
      ∃ text out, t.Holds template text ∧ s.render text = .ok out ∧
        t.write (Path.join folder s.fileName) out.toUTF8 = .ok t' := by
  rw [written, bind_eq_ok_iff]
  apply Iff.intro
  · intro h
    obtain ⟨text, htext, h⟩ := h
    obtain ⟨out, hout, h⟩ := bind_eq_ok_iff.1 h
    exact ⟨text, out, FileTree.readText_eq_ok_iff.1 htext, hout, h⟩
  · intro h
    obtain ⟨text, out, htext, hout, h⟩ := h
    exact ⟨text, FileTree.readText_eq_ok_iff.2 htext, bind_eq_ok hout h⟩

theorem written_of_unread (h : ∀ text, ¬t.Holds template text) :
    s.written t template folder = .error (.io template) := by
  rw [written, FileTree.readText_of_forall_not_holds h]
  rfl

theorem written_of_holds (h : t.Holds template text) :
    s.written t template folder =
      s.render text >>= fun out => t.write (Path.join folder s.fileName) out.toUTF8 := by
  rw [written, FileTree.readText_eq_ok_iff.2 h]
  rfl

theorem written_of_unfilled {e : Error} (h : t.Holds template text)
    (he : s.render text = .error e) : s.written t template folder = .error e := by
  rw [written_of_holds h, he]
  rfl

theorem written_of_filled (h : t.Holds template text) (hout : s.render text = .ok out) :
    s.written t template folder = t.write (Path.join folder s.fileName) out.toUTF8 := by
  rw [written_of_holds h, hout]
  rfl

end Running

/-- Holds of a script that is written as a whole, right in the folder that it is for and under a
name of one segment, or not at all, with the file tree left as it was. -/
structure Confined (s : ResourceScript) (t : FileTree) (template folder : String) : Prop where
  fileName : ∃ stem, s.fileName = stem ++ ".rc" ∧ '/' ∉ s.fileName.toList
  components :
    Path.components (Path.join folder s.fileName) = Path.components folder ++ [s.fileName.toList]
  location : ∀ l, t.locate? (Path.join folder s.fileName) = some l →
    ∃ m, t.Leads folder m ∧ l = s.fileName :: m
  unread : (∀ text, ¬t.Holds template text) →
    (s.write template folder).run t = (.error (.io template), t)
  unfilled : ∀ text e, t.Holds template text → s.render text = .error e →
    (s.write template folder).run t = (.error e, t)
  refused : ∀ text out, t.Holds template text → s.render text = .ok out →
    (∀ l, t.locate? (Path.join folder s.fileName) = some l → t.isFolder l = true) →
    (s.write template folder).run t = (.error (.io (Path.join folder s.fileName)), t)
  failed : ∀ e t', (s.write template folder).run t = (.error e, t') → t' = t
  succeeds : ∀ text out l, t.Holds template text → s.render text = .ok out →
    t.locate? (Path.join folder s.fileName) = some l → t.isFolder l = false →
    ∃ t', (s.write template folder).run t = (.ok (Path.join folder s.fileName), t')
  updates : ∀ path t', (s.write template folder).run t = (.ok path, t') →
    path = Path.join folder s.fileName ∧ ∃ text out, t.Holds template text ∧
      s.render text = .ok out ∧ t.Updates t' path out

/-- However odd the path of an executable is, its script goes into the folder that it is written to
and nowhere else, and only if it goes there as a whole. -/
theorem write_confined (executable version commit template folder : String) (t : FileTree) :
    (ofPath executable version commit).Confined t template folder := by
  generalize ofPath executable version commit = s
  have hslash := s.not_mem_fileName
  have hidle := s.isIdle_fileName
  obtain ⟨stem, hname, -⟩ := s.exists_fileName_eq
  refine ⟨⟨stem, hname, hslash⟩, Path.components_join hslash hidle folder,
    fun l hl => FileTree.leads_of_locate?_join hslash hidle (s.fileName_ne (by decide)) hl,
    ?_, ?_, ?_, ?_, ?_, ?_⟩
  · intro h
    rw [run_write, written_of_unread h]
  · intro text e htext he
    rw [run_write, written_of_unfilled htext he]
  · intro text out htext hout hplace
    rw [run_write, written_of_filled htext hout, FileTree.write_of_forall_isFolder hplace]
  · exact fun e t' h => eq_of_run_write_error h
  · intro text out l htext hout hl hf
    refine ⟨t.set l (.file out.toUTF8), ?_⟩
    have hwrite : t.write (Path.join folder s.fileName) out.toUTF8 =
        .ok (t.set l (.file out.toUTF8)) := FileTree.write_eq_ok_iff.2 ⟨l, hl, hf, rfl⟩
    rw [run_write, written_of_filled htext hout, hwrite]
  · intro path t' h
    obtain ⟨rfl, hw⟩ := written_of_run_write_ok h
    obtain ⟨text, out, htext, hout, hwrite⟩ := written_eq_ok_iff.1 hw
    exact ⟨rfl, text, out, htext, hout, FileTree.updates_of_write hwrite⟩

def sampleTree : FileTree :=
  ((FileTree.empty ["work"]).place "x.rc.in" (.file "v@VERSION@".toUTF8)).place "out" .folder

theorem write_confined_upwards :
    (∃ t', ((ofPath "a/.." "1.0" "").write "x.rc.in" "out").run sampleTree = (.ok "out/.rc", t') ∧
      t'.Holds "out/.rc" "v1.0" ∧ t'.read "x.rc.in" = sampleTree.read "x.rc.in") ∧
    ((ofPath "a/.." "1.0" "").write "out" "out").run sampleTree =
      (.error (.io "out"), sampleTree) := by
  have htext : sampleTree.Holds "x.rc.in" "v@VERSION@" := rfl
  have hkey : Template.IsKey "VERSION".toList := ⟨by decide, List.all_eq_true.1 rfl⟩
  have hsplits : Template.Splits "v@VERSION@".toList [.literal 'v', .key "VERSION"] :=
    .literal nofun (.key hkey .nil)
  have hout : (ofPath "a/.." "1.0" "").render "v@VERSION@" = .ok "v1.0" := by
    rw [render_eq_ok_iff, hsplits.parts_eq]
    rfl
  have hpath : Path.join "out" (ofPath "a/.." "1.0" "").fileName = "out/.rc" := by decide
  have hplace : sampleTree.locate? "out/.rc" = some [".rc", "out", "work"] := rfl
  apply And.intro
  · have h := write_confined "a/.." "1.0" "" "x.rc.in" "out" sampleTree
    obtain ⟨t', hrun⟩ := h.succeeds _ _ _ htext hout (hpath ▸ hplace) rfl
    rw [hpath] at hrun
    obtain ⟨-, text, out, htext', hout', hupdates⟩ := h.updates _ _ hrun
    cases htext.unique htext'
    cases hout.symm.trans hout'
    refine ⟨t', hrun, hupdates.holds, hupdates.elsewhere "x.rc.in" ?_⟩
    rw [hplace]
    decide
  · have h := write_confined "a/.." "1.0" "" "out" "out" sampleTree
    have hfolder : (sampleTree.locate? "out").bind sampleTree.entry? = some .folder := rfl
    apply h.unread
    intro text htext
    cases hfolder.symm.trans htext

end ResourceScript

end BuildDesc
