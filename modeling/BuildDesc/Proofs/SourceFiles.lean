import BuildDesc.Configuration
import BuildDesc.Proofs.FileNames

namespace BuildDesc.Options

variable {o : Options} {p q s : String} {directory : Option String} {sources : List String}

theorem isSourceFile_iff_extension? :
    o.isSourceFile p = true ↔ ∃ e ∈ o.sourceExtensions, Path.extension? p = some e := by
  rw [isSourceFile]
  cases Path.extension? p with
  | none => simp
  | some e => simp [eq_comm]

theorem isSourceFile_iff :
    o.isSourceFile p = true ↔ Path.lastName p ≠ ['.', '.'] ∧
      ∃ e ∈ o.sourceExtensions, Path.HasExtension (Path.lastName p) e.toList := by
  rw [isSourceFile_iff_extension?]
  apply Iff.intro
  · intro h
    obtain ⟨e, he, hext⟩ := h
    obtain ⟨hup, hext⟩ := Path.extension?_eq_some_iff.1 hext
    exact ⟨hup, e, he, hext⟩
  · intro h
    obtain ⟨hup, e, he, hext⟩ := h
    exact ⟨e, he, Path.extension?_eq_some_iff.2 ⟨hup, hext⟩⟩

theorem isSourceFile_eq_false
    (h : ∀ ext, ¬Path.HasExtension (Path.lastName p) ext) : o.isSourceFile p = false := by
  rw [← Bool.not_eq_true, isSourceFile_iff]
  intro hsource
  obtain ⟨-, e, -, hext⟩ := hsource
  exact h e.toList hext

theorem isSourceFile_congr (h : Path.extension? p = Path.extension? q) :
    o.isSourceFile p = o.isSourceFile q := by
  rw [Bool.eq_iff_iff, isSourceFile_iff_extension?, isSourceFile_iff_extension?, h]

theorem isSourceFile_folder (h : Path.isIdle (Path.lastName p) = false) (folder : String) :
    o.isSourceFile s!"{folder}/{p}" = o.isSourceFile p :=
  isSourceFile_congr (Path.extension?_folder h folder)

section Judging

def withPlainExtensions (o : Options) : Options :=
  { o with
    sourceExtensions :=
      o.sourceExtensions.filter fun e => !e.toList.contains '.' && !e.toList.contains '/' }

theorem isSourceFile_withPlainExtensions (o : Options) (p : String) :
    o.withPlainExtensions.isSourceFile p = o.isSourceFile p := by
  rw [Bool.eq_iff_iff, isSourceFile_iff, isSourceFile_iff]
  apply and_congr_right'
  apply Iff.intro
  · intro h
    obtain ⟨e, he, hext⟩ := h
    exact ⟨e, (List.mem_filter.1 he).1, hext⟩
  · intro h
    obtain ⟨e, he, hext⟩ := h
    obtain ⟨hdot, hslash⟩ := hext.not_mem
    refine ⟨e, List.mem_filter.2 ⟨he, ?_⟩, hext⟩
    simp [hdot, hslash]

/-- Holds of options that tell by the name of a path, and by nothing else in it, whether it is the
path of a source file. -/
structure JudgesByName (o : Options) (p : String) : Prop where
  isSourceFile_iff : o.isSourceFile p = true ↔ Path.lastName p ≠ ['.', '.'] ∧
    ∃ e ∈ o.sourceExtensions, Path.HasExtension (Path.lastName p) e.toList
  hidden : ∀ name, Path.lastName p = '.' :: name → '.' ∉ name → o.isSourceFile p = false
  bare : '.' ∉ Path.lastName p → o.isSourceFile p = false
  plain : o.withPlainExtensions.isSourceFile p = o.isSourceFile p
  folder : Path.isIdle (Path.lastName p) = false →
    ∀ folder : String, o.isSourceFile s!"{folder}/{p}" = o.isSourceFile p

/-- A source file is told by the extension of the name that its path ends with, whatever folders are
in front of the name. A dot at the front of the name begins no extension. -/
theorem isSourceFile_byName (o : Options) (p : String) : o.JudgesByName p where
  isSourceFile_iff := isSourceFile_iff
  hidden name hname hdot := by
    apply isSourceFile_eq_false
    intro ext hext
    rw [hname] at hext
    exact hdot hext.dot_mem_tail
  bare hdot := isSourceFile_eq_false fun ext hext => hdot hext.dot_mem
  plain := o.isSourceFile_withPlainExtensions p
  folder h folder := isSourceFile_folder h folder

theorem isSourceFile_byName_default :
    (default.isSourceFile "lib.h/core.c/./" = true ∧
      default.isSourceFile "../lib.h/core.c/./" = true) ∧
    (Path.lastName "lib/.c" = ['.', 'c'] ∧ default.isSourceFile "lib/.c" = false) ∧
    '.' ∉ Path.lastName "lib.c/c" ∧ default.isSourceFile "lib.c/c" = false := by
  have hcore := isSourceFile_byName default "lib.h/core.c/./"
  have hname : Path.lastName "lib.h/core.c/./" = "core".toList ++ '.' :: "c".toList := by decide
  have hsource : default.isSourceFile "lib.h/core.c/./" = true := by
    rw [hcore.isSourceFile_iff, hname]
    exact ⟨by decide, "c", List.mem_cons_self, "core".toList, by decide, rfl, by decide⟩
  have hhidden : Path.lastName "lib/.c" = ['.', 'c'] := by decide
  have hbare : '.' ∉ Path.lastName "lib.c/c" := by decide
  refine ⟨⟨hsource, ?_⟩, ⟨hhidden, ?_⟩, hbare, ?_⟩
  · rw [← hsource]
    exact hcore.folder (by decide) ".."
  · exact (isSourceFile_byName default "lib/.c").hidden ['c'] hhidden (by decide)
  · exact (isSourceFile_byName default "lib.c/c").bare hbare

end Judging

section Keeping

theorem isSourceFile_locateSource (h : o.isSourceFile s = true) (directory : Option String) :
    o.isSourceFile (locateSource directory s) = true := by
  cases directory with
  | none => exact h
  | some d =>
    obtain ⟨-, e, -, hext⟩ := isSourceFile_iff.1 h
    rw [← h]
    exact isSourceFile_folder hext.isIdle_eq_false d

theorem isSourceFile_of_mem_keepSources (h : s ∈ o.keepSources directory sources) :
    o.isSourceFile s = true := by
  obtain ⟨t, ht, rfl⟩ := List.mem_map.1 h
  exact isSourceFile_locateSource (List.mem_filter.1 ht).2 directory

theorem keepSources_eq_map (h : ∀ s ∈ sources, o.isSourceFile s = true)
    (directory : Option String) :
    o.keepSources directory sources = sources.map (locateSource directory) := by
  rw [keepSources, List.filter_eq_self.2 h]

/-- Sources that are kept are source files as seen from any folder, so keeping them once more drops
none of them. -/
theorem keepSources_stable (o : Options) (directory : Option String) (sources : List String) :
    (∀ s ∈ o.keepSources directory sources, o.isSourceFile s = true) ∧
    o.keepSources none (o.keepSources directory sources) = o.keepSources directory sources ∧
    (∀ outer, o.keepSources outer (o.keepSources directory sources) =
      (o.keepSources directory sources).map (locateSource outer)) ∧
    ∀ s, o.isSourceFile s = true → ∀ folder : String, o.isSourceFile s!"{folder}/{s}" = true := by
  have hkept : ∀ s ∈ o.keepSources directory sources, o.isSourceFile s = true :=
    fun s hs => isSourceFile_of_mem_keepSources hs
  refine ⟨hkept, ?_, keepSources_eq_map hkept, ?_⟩
  · rw [keepSources_eq_map hkept none]
    exact List.map_id' _
  · exact fun s hs folder => isSourceFile_locateSource hs (some folder)

theorem keepSources_stable_folder :
    default.keepSources (some "../lib.h") ["./a.c", "b.h", "/c.cpp/."] =
      ["../lib.h/./a.c", "../lib.h//c.cpp/."] ∧
    "../lib.h//c.cpp/." ∈ default.keepSources (some "../lib.h") ["./a.c", "b.h", "/c.cpp/."] ∧
    default.isSourceFile "../lib.h//c.cpp/." = true ∧
    default.isSourceFile "/c.cpp/." = true ∧ default.isSourceFile "..//c.cpp/." = true := by
  obtain ⟨hkept, -, -, hfolder⟩ :=
    keepSources_stable default (some "../lib.h") ["./a.c", "b.h", "/c.cpp/."]
  have heq : default.keepSources (some "../lib.h") ["./a.c", "b.h", "/c.cpp/."] =
      ["../lib.h/./a.c", "../lib.h//c.cpp/."] := by decide
  have hmem : "../lib.h//c.cpp/." ∈
      default.keepSources (some "../lib.h") ["./a.c", "b.h", "/c.cpp/."] := by
    rw [heq]
    exact List.mem_cons_of_mem _ List.mem_cons_self
  have hsource : default.isSourceFile "/c.cpp/." = true := by decide
  exact ⟨heq, hmem, hkept _ hmem, hsource, hfolder _ hsource ".."⟩

end Keeping

end BuildDesc.Options
