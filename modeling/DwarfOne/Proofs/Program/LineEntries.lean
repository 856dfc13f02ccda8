/-
# `Proofs.Program.LineEntries` — where the entries of the line tables are

Every entry of a table that a file has is among the lines of the function at its
address, or was warned of; none is lost, and none is there twice
(`LinesSettled`).
-/
import DwarfOne.Proofs.Program.LineTables
import DwarfOne.Proofs.Program.Warnings
import Mathlib.Algebra.BigOperators.Option

namespace DwarfOne
namespace Program

theorem LinesAside.linesOf_eq {p p' : Program} (h : LinesAside p p') : p'.linesOf = p.linesOf := by
  funext o file
  rw [linesOf, linesOf, entriesOf, entriesOf, h.functionAt?_eq, h.debug_eq]

theorem LinesAside.outsideOf_eq {p p' : Program} (h : LinesAside p p') :
    p'.outsideOf = p.outsideOf := by
  funext file
  rw [outsideOf, outsideOf, entriesOf, entriesOf, h.functionAt?_eq, h.debug_eq]

theorem mem_linesOf_iff {p : Program} {o : UInt32} {file : File} {entry : LineEntry} :
    entry ∈ p.linesOf o file ↔
      entry ∈ p.entriesOf file ∧ p.functionAt? file entry.address = some o := by
  rw [linesOf, linesFor, List.mem_filter, decide_eq_true_iff]

/-! ## Counting -/

/-- For each entry of a file the function it falls to. -/
def owners (p : Program) (file : File) : List (Option UInt32) :=
  (p.entriesOf file).map fun entry => p.functionAt? file entry.address

theorem length_linesOf (p : Program) (o : UInt32) (file : File) :
    (p.linesOf o file).length = (p.owners file).countP (· = some o) := by
  rw [linesOf, linesFor, ← List.countP_eq_length_filter, owners, List.countP_map]
  rfl

theorem length_outsideOf (p : Program) (file : File) :
    (p.outsideOf file).length = (p.owners file).countP (· = none) := by
  rw [outsideOf, linesOutside, List.length_map, ← List.countP_eq_length_filter, owners,
    List.countP_map]
  rfl

/-- Every owner is one of the keys or none. -/
theorem sum_countP_add_countP_none {keys : List UInt32} (hkeys : keys.Nodup)
    {owners : List (Option UInt32)} (howners : ∀ o, some o ∈ owners → o ∈ keys) :
    (keys.map fun o => owners.countP (· = some o)).sum + owners.countP (· = none) =
      owners.length := by
  have hall : ∀ owner ∈ (owners : Multiset (Option UInt32)),
      owner ∈ Finset.insertNone keys.toFinset := by
    intro owner howner
    rw [Finset.mem_insertNone]
    intro o ho
    exact List.mem_toFinset.mpr (howners o (ho ▸ howner))
  have hsum := Multiset.sum_count_eq_card hall
  rw [Finset.sum_insertNone, List.sum_toFinset _ hkeys, Multiset.coe_card] at hsum
  simp only [Multiset.count, Multiset.coe_countP] at hsum
  rw [Nat.add_comm]
  simpa only [eq_comm] using hsum

/-- Each entry of a table went to one function or was warned of. -/
theorem sum_length_linesOf (p : Program) :
    (p.functions.keys.map fun o => (p.files.toList.flatMap (p.linesOf o)).length).sum +
        (p.files.toList.flatMap p.outsideOf).length =
      (p.files.toList.map fun file => (p.entriesOf file).length).sum := by
  have hkeys : ∀ o, some o ∈ p.files.toList.flatMap p.owners → o ∈ p.functions.keys := by
    intro o ho
    obtain ⟨file, -, howner⟩ := List.mem_flatMap.mp ho
    obtain ⟨entry, -, hat⟩ := List.mem_map.mp howner
    obtain ⟨-, f, hf, -⟩ := exists_of_functionAt? hat
    exact Std.TreeMap.mem_keys.mpr (Std.TreeMap.mem_iff_isSome_getElem?.mpr (by simp [hf]))
  have hsum := sum_countP_add_countP_none Std.TreeMap.nodup_keys hkeys
  simpa [List.length_flatMap, List.countP_flatMap, Function.comp_def, length_linesOf,
    length_outsideOf, owners] using hsum

/-! ## Lines of the finished program -/

section

variable {d : DebugInfo} {units : List CompileUnit} {linked p : Program}
  (h : Passed d units linked p)
include h

/-- The lines of a function of the finished program. -/
theorem Passed.lines_eq {o : UInt32} {f : Function} (hf : p.functions[o]? = some f) :
    f.lines = p.files.toList.flatMap (p.linesOf o) := by
  have hall : linked.settled.take linked.files.size = p.files.toList := by
    rw [h.lines.toList_files, List.take_of_length_le (by simp [settled])]
  rw [h.lines.functions, hall, h.members.eq_types] at hf
  obtain ⟨f₀, hf₀, rfl⟩ := Option.map_eq_some_iff.mp hf
  obtain ⟨-, e, hdeclared⟩ := exists_declared_function h.readFrom hf₀
  rw [Function.addLines, hdeclared.readFrom.2.lines_eq, List.nil_append,
    h.lines.linesAside.linesOf_eq, h.members.eq_types]

/-- Lines are where their functions are. -/
theorem Passed.covers_of_mem_lines {o : UInt32} {f : Function} (hf : p.functions[o]? = some f)
    {entry : LineEntry} (hentry : entry ∈ f.lines) : f.covers entry.address = true := by
  rw [h.lines_eq hf] at hentry
  obtain ⟨file, -, hline⟩ := List.mem_flatMap.mp hentry
  obtain ⟨-, f', hf', hcovers⟩ := exists_of_functionAt? (mem_linesOf_iff.mp hline).2
  rw [hf, Option.some.injEq] at hf'
  exact hf' ▸ hcovers

/-- The numbers of lines, function by function. -/
theorem Passed.map_length_lines : (p.functions.toList.map fun entry => entry.2.lines.length) =
      p.functions.keys.map fun o => (p.files.toList.flatMap (p.linesOf o)).length := by
  rw [← Std.TreeMap.map_fst_toList_eq_keys, List.map_map]
  refine List.map_congr_left fun entry hentry => ?_
  rw [h.lines_eq (Std.TreeMap.mem_toList_iff_getElem?_eq_some.mp hentry)]
  rfl

end

/-! ## Warnings about lines -/

theorem kind_of_mem_unlinked {p : Program} {links : List (UInt32 × UInt32)} {w : Diagnostic}
    (hw : w ∈ p.unlinked links) : w.kind = .unknownAttribute := by
  obtain ⟨link, -, rfl⟩ := List.mem_map.mp hw
  rfl

theorem kind_of_mem_outsideOf {p : Program} {file : File} {w : Diagnostic}
    (hw : w ∈ p.outsideOf file) : w.kind = .unrecognizedLine := by
  obtain ⟨entry, -, rfl⟩ := List.mem_map.mp hw
  rfl

/-- Of all warnings only those of the last pass are about lines. -/
theorem filter_unrecognizedLine {ws : List Diagnostic} (hws : ∀ w ∈ ws, w.kind ≠ .unrecognizedLine)
    (read : Program) (links : List (UInt32 × UInt32)) (p : Program) (files : List File) :
    (ws ++ (read.unlinked links ++ files.flatMap p.outsideOf)).filter
      (·.kind = .unrecognizedLine) = files.flatMap p.outsideOf := by
  have hunits : ws.filter (·.kind = .unrecognizedLine) = [] := by
    simpa using hws
  have hlinks : (read.unlinked links).filter (·.kind = .unrecognizedLine) = [] := by
    rw [List.filter_eq_nil_iff]
    intro w hw
    simp [kind_of_mem_unlinked hw]
  have hlines : (files.flatMap p.outsideOf).filter (·.kind = .unrecognizedLine) =
      files.flatMap p.outsideOf := by
    rw [List.filter_eq_self]
    intro w hw
    obtain ⟨file, -, hw⟩ := List.mem_flatMap.mp hw
    exact decide_eq_true (kind_of_mem_outsideOf hw)
  rw [List.filter_append, List.filter_append, hunits, hlinks, hlines, List.nil_append,
    List.nil_append]

/-! ## All entries -/

/-- What has become of the line tables of a finished program.  Each entry, in the
order of the table, is among the lines of the function of its file at its
address, the one listed last if there are several; if there is none, it has a
warning instead. -/
structure LinesSettled (p : Program) (events : List Diagnostic) : Prop where
  given : ∀ file ∈ p.files, ∀ o, file.lineTable = some o → (p.debug.lineTable? o).isSome
  lines : ∀ (o : UInt32) f, p.functions[o]? = some f →
    f.lines = p.files.toList.flatMap (p.linesOf o)
  outside : events.filter (·.kind = .unrecognizedLine) = p.files.toList.flatMap p.outsideOf
  within : ∀ (o : UInt32) f, p.functions[o]? = some f →
    ∀ entry ∈ f.lines, f.low ≤ entry.address ∧ entry.address < f.high
  count : (p.functions.toList.map fun entry => entry.2.lines.length).sum +
      events.countP (·.kind = .unrecognizedLine) =
    (p.files.toList.map fun file => (p.entriesOf file).length).sum

/-- With all warnings shown, no entry of a line table is lost, put in a wrong
place or put in twice. -/
theorem linesSettled_of_build [RangeMap UInt32] {d : DebugInfo} {p : Program} {shown : Diagnostics}
    (hp : build d .everything = .ok (p, shown)) :
    p.debug = d ∧ p.LinesSettled shown.reported.toList := by
  refine ⟨(traced_of_walk hp).debug_eq, ?_⟩
  rcases walk_cases d with ⟨e, he⟩ | ⟨units, linked, q, ws, hpassed, hgives, hws⟩
  · rw [build, he] at hp
    cases hp
  · obtain ⟨rfl, rfl⟩ := hgives.eq_of_ok hp
    rw [Diagnostics.reported_reportAll_everything]
    have haside := hpassed.lines.linesAside
    have houtside := filter_unrecognizedLine hws (entered d units) (entered d units).memberLinks
      linked linked.settled
    rw [← hpassed.lines.toList_files, ← haside.outsideOf_eq] at houtside ⊢
    constructor
    case given =>
        intro file hfile o ho
        obtain ⟨place, hplace⟩ := Array.mem_iff_getElem?.mp hfile
        exact ((hpassed.lineTable_eq_some_iff hplace).mp ho).2.2
    case lines => exact fun o f hf => hpassed.lines_eq hf
    case outside => exact houtside
    case within =>
        intro o f hf entry hentry
        exact Function.covers_iff.mp (hpassed.covers_of_mem_lines hf hentry)
    case count =>
        rw [hpassed.map_length_lines, List.countP_eq_length_filter, houtside]
        exact p.sum_length_linesOf

/-- An entry that two functions cover goes to the one listed last; the last entry
of each table is outside. -/
theorem linesSettled_of_sampleTables : ∃ d p shown,
    DebugInfo.decode .big sampleTables (some sampleLines) = .ok d ∧
      build d .everything = .ok (p, shown) ∧
      (p.functions.toList.map fun entry => (entry.1, entry.2.lines.map (·.line))) =
        [(18, [1]), (42, [2]), (88, [])] ∧
      (p.files.toList.map fun file => (p.outsideOf file).map (·.offset)) =
        [[0x150], [], [0x200], []] ∧
      p.debug = d ∧ p.LinesSettled shown.reported.toList := by
  obtain ⟨d, p, shown, hd, hp, hview⟩ := exists_of_outcomeUnder (show
    outcomeUnder .everything .big sampleTables (some sampleLines)
        (fun p => (p.functions.toList.map fun entry => (entry.1, entry.2.lines.map (·.line)),
          p.files.toList.map fun file => (p.outsideOf file).map (·.offset))) =
      some ([(18, [1]), (42, [2]), (88, [])], [[0x150], [], [0x200], []]) by decide +kernel)
  obtain ⟨hlines, houtside⟩ := Prod.mk.inj hview
  exact ⟨d, p, shown, hd, hp, hlines, houtside, linesSettled_of_build hp⟩

end Program
end DwarfOne
