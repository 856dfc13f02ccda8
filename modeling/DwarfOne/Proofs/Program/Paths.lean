/-
# `Proofs.Program.Paths` — files by name

Several files may have one name, and a file may have none.  A program therefore
keeps, for each name, the places of the files with it.  The places are noted while
files are still being added, and later passes change the files; `Indexed` says
that they are nevertheless the places that a look through all files finds.
-/
import DwarfOne.Proofs.Program.Passes
import DwarfOne.Source.Basic
import Mathlib.Data.List.Basic

namespace DwarfOne
namespace Program

/-- The places kept for a name are those of the files with it, in order. -/
def Indexed (p : Program) : Prop :=
  ∀ path, p.paths.getD path [] = p.files.toList.findIdxs (·.name = path)

/-! ## What keeps the index -/

theorem indexed_empty (d : DebugInfo) : (empty d).Indexed := by
  intro path
  exact Std.TreeMap.getD_emptyc

theorem Indexed.addUnit {p : Program} (h : p.Indexed) (u : CompileUnit) :
    (p.addUnit u).Indexed := by
  intro path
  have hpath := h path
  simp only [Program.addUnit, foldl_addPart, Std.TreeMap.getD_insert, Array.toList_push,
    List.findIdxs_append, List.findIdxs_singleton, Array.length_toList, Nat.zero_add]
  by_cases hname : u.file.name = path
  · subst hname
    simp [hpath]
  · simp [hname, hpath]

theorem Indexed.foldl_addUnit {p : Program} (h : p.Indexed) (units : List CompileUnit) :
    (units.foldl Program.addUnit p).Indexed := by
  induction units generalizing p with
  | nil => exact h
  | cons u units ih => exact ih (h.addUnit u)

/-- What changes neither the index nor a name keeps the index. -/
theorem Indexed.of_names {p p' : Program} (h : p.Indexed) (hpaths : p'.paths = p.paths)
    (hnames : p'.files.map File.name = p.files.map File.name) : p'.Indexed := by
  intro path
  have hlists : p'.files.toList.map File.name = p.files.toList.map File.name := by
    rw [← Array.toList_map, hnames, Array.toList_map]
  have hscan := congrArg (List.findIdxs (· = path)) hlists
  rw [List.findIdxs_map, List.findIdxs_map] at hscan
  rw [hpaths, h path]
  exact hscan.symm

theorem indexed_of_build [RangeMap UInt32] {d : DebugInfo} {settings : DiagnosticSettings}
    {p : Program} {shown : Diagnostics} (h : build d settings = .ok (p, shown)) : p.Indexed := by
  obtain ⟨units, -, linked, -, -, hmembers, hgiven⟩ := exists_passed_of_walk h
  have hlines := hgiven.linesAside
  have hentered : (entered d units).Indexed := (indexed_empty d).foldl_addUnit units
  have hlinked : linked.Indexed := by
    rw [hmembers.eq_types]
    exact hentered
  exact hlinked.of_names hlines.paths_eq (hlines.map_files fun _ => rfl)

/-! ## Looking up a name -/

/-- What stands at the places found is what was looked for. -/
theorem filterMap_findIdxs {α : Type} (q : α → Bool) (items : List α) :
    (items.findIdxs q).filterMap (items[·]?) = items.filter q := by
  induction items with
  | nil => rfl
  | cons a rest ih =>
      have hrest : (rest.findIdxs q 1).filterMap ((a :: rest)[·]?) = rest.filter q := by
        rw [List.findIdxs_start, List.filterMap_map, ← ih]
        rfl
      rw [List.findIdxs_cons, List.filter_cons]
      split
      · rw [List.filterMap_cons_some (List.getElem?_cons_zero ..), Nat.zero_add, hrest]
      · exact hrest

theorem Indexed.filesNamed_eq {p : Program} (h : p.Indexed) (path : String) :
    p.filesNamed path = p.files.toList.filter (·.name = path) := by
  rw [filesNamed, h path, ← filterMap_findIdxs]
  simp only [Array.getElem?_toList]

end Program

/-! ## Rendering a name -/

theorem Source.files_nil (s : Source) (nested : Nested) : s.files nested [] = .ok [] := by
  have hfunctions : s.functionsOf [] = [] := by
    simp [functionsOf]
  have hvars : s.variablesPart nested [] = .ok [] := by
    simp [variablesPart, pure, Except.pure]
  have hdeclarations : s.declarationsPart nested [] = .ok [] := by
    simp [declarationsPart, hfunctions, pure, Except.pure]
  have hdefinitions : s.definitionsPart nested [] = .ok [] := by
    rw [definitionsPart, hfunctions]
    split
    · rfl
    · rfl
  rw [files, hvars, hdeclarations, hdefinitions]
  rfl

namespace Program

/-- Looking up a name gives what a look through all files gives, and these files are what is
rendered for the name. -/
theorem filesNamed_of_build [RangeMap UInt32] {d : DebugInfo} {settings : DiagnosticSettings}
    {p : Program} {shown : Diagnostics} (h : build d settings = .ok (p, shown)) :
    (∀ path, p.paths.getD path [] = p.files.toList.findIdxs (·.name = path)) ∧
    (∀ path, p.filesNamed path = p.files.toList.filter (·.name = path)) ∧
    ∀ s : Source, s.program = p → ∀ path,
      s.render (.path path) =
        Code.ofTokens <$> s.files s.writtenOut (p.files.toList.filter (·.name = path)) ∧
      ((∀ file ∈ p.files, file.name ≠ path) → s.render (.path path) = .ok .empty) := by
  have hindexed := indexed_of_build h
  refine ⟨hindexed, hindexed.filesNamed_eq, ?_⟩
  rintro s rfl path
  have hrender : s.render (.path path) =
      Code.ofTokens <$> s.files s.writtenOut (s.program.files.toList.filter (·.name = path)) := by
    rw [Source.render, Source.tokens, hindexed.filesNamed_eq]
  refine ⟨hrender, fun hnone => ?_⟩
  have hfiles : s.program.files.toList.filter (·.name = path) = [] := by
    rw [List.filter_eq_nil_iff]
    intro file hfile
    simpa using hnone file (Array.mem_toList_iff.mp hfile)
  rw [hrender, hfiles, Source.files_nil]
  rfl

/-- Units named `a` and `b`, one without a name, and one named twice, at last `a`. -/
def namedUnits : List UInt8 :=
  [0, 0, 0, 16, 0, 0x11, 0, 0x12, 0, 0, 0, 16, 0, 0x38, 97, 0,
   0, 0, 0, 16, 0, 0x11, 0, 0x12, 0, 0, 0, 32, 0, 0x38, 98, 0,
   0, 0, 0, 18, 0, 0x11, 0, 0x12, 0, 0, 0, 50, 0x01, 0x36, 0, 0, 0, 4,
   0, 0, 0, 14, 0, 0x11, 0, 0x38, 120, 0, 0, 0x38, 97, 0]

/-- The offsets and names of these units. -/
def unitNames : List (UInt32 × String) :=
  [(0, "a"), (16, "b"), (32, ""), (50, "a")]

theorem filesNamed_namedUnits : ∃ d p shown,
    DebugInfo.decode .big namedUnits none = .ok d ∧ build d .default = .ok (p, shown) ∧
      (p.files.toList.map fun f => (f.offset, f.name)) = unitNames ∧
      p.paths.getD "a" [] = [0, 3] ∧
      (p.filesNamed "a").map File.offset = [0, 50] ∧
      (p.filesNamed "").map File.offset = [32] ∧
      ∀ s : Source, s.program = p → s.render (.path "c") = .ok .empty := by
  obtain ⟨d, p, shown, hd, hp, hview⟩ := exists_of_outcome (show
    outcome .big namedUnits (fun p => p.files.toList.map fun f => (f.offset, f.name)) =
      some unitNames by
    decide +kernel)
  obtain ⟨hplaces, hfiles, hrender⟩ := filesNamed_of_build hp
  have hscan : ∀ path, p.paths.getD path [] = unitNames.findIdxs (·.2 = path) := by
    intro path
    rw [hplaces, ← hview, List.findIdxs_map]
    rfl
  have hoffsets : ∀ path, (p.filesNamed path).map File.offset =
      (unitNames.filter (·.2 = path)).map Prod.fst := by
    intro path
    rw [hfiles, ← hview, List.filter_map, List.map_map]
    rfl
  refine ⟨d, p, shown, hd, hp, hview, hscan "a", hoffsets "a", hoffsets "", ?_⟩
  intro s hs
  refine (hrender s hs "c").2 fun file hfile hname => ?_
  have hmem : file ∈ p.filesNamed "c" := by
    rw [hfiles]
    exact List.mem_filter.mpr ⟨Array.mem_toList_iff.mpr hfile, by simpa using hname⟩
  have hnone := List.mem_map_of_mem hmem (f := File.offset)
  rw [hoffsets] at hnone
  cases hnone

end Program
end DwarfOne
