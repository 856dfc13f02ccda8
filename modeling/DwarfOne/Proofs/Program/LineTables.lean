/-
# `Proofs.Program.LineTables` — line tables of a finished program

What the last pass did can be read off the program it leaves.  A file has the
line table it names if there is one at that offset, but the table at offset zero
only if no file before it names that, whether or not there is one
(`Passed.lineTable_eq_some_iff`).  A file that has none was passed over.
-/
import DwarfOne.Proofs.Bytes.Order
import DwarfOne.Proofs.Program.Passes

namespace DwarfOne
namespace Program

theorem zeroClaimed_eq_true_iff {p : Program} {count : Nat} :
    p.zeroClaimed count = true ↔
      ∃ j < count, ∃ file, p.files[j]? = some file ∧ file.statementList = some 0 := by
  rw [zeroClaimed, List.any_eq_true]
  constructor
  · rintro ⟨file, hfile, hzero⟩
    obtain ⟨j, hj⟩ := List.mem_iff_getElem?.mp hfile
    rw [List.getElem?_take] at hj
    split at hj
    case isTrue hlt =>
        rw [Array.getElem?_toList] at hj
        exact ⟨j, hlt, file, hj, of_decide_eq_true hzero⟩
    case isFalse => cases hj
  · rintro ⟨j, hlt, file, hfile, hzero⟩
    refine ⟨file, List.mem_iff_getElem?.mpr ⟨j, ?_⟩, decide_eq_true hzero⟩
    rw [List.getElem?_take, if_pos hlt, Array.getElem?_toList, hfile]

/-- Whether a table is claimed has nothing to do with which are given. -/
theorem LinesAside.zeroClaimed_eq {p p' : Program} (h : LinesAside p p') :
    p'.zeroClaimed = p.zeroClaimed := by
  funext count
  have hlists : p'.files.map File.statementList = p.files.map File.statementList :=
    h.map_files fun _ => rfl
  have hany := congrArg (fun lists => (lists.toList.take count).any (· = some (0 : UInt32))) hlists
  simpa [zeroClaimed, ← List.map_take, List.any_map, Function.comp_def] using hany

theorem LinesAside.tableOf_eq {p p' : Program} (h : LinesAside p p') : p'.tableOf = p.tableOf := by
  funext zeroClaimed file
  rw [tableOf, tableOf, h.debug_eq]

/-! ## Files of the finished program -/

section

variable {d : DebugInfo} {units : List CompileUnit} {linked p : Program}
  (h : Passed d units linked p) {place : Nat} {file : File}
  (hfile : p.files[place]? = some file)
include h hfile

/-- The last pass gave the file the table it was to have, if any. -/
theorem Passed.exists_given : ∃ before, linked.files[place]? = some before ∧
    before.lineTable = none ∧
    file = before.given (linked.tableOf (linked.zeroClaimed place) before) := by
  rw [← Array.getElem?_toList, h.lines.toList_files, getElem?_settled] at hfile
  obtain ⟨before, hbefore, rfl⟩ := Option.map_eq_some_iff.mp hfile
  refine ⟨before, hbefore, ?_, rfl⟩
  exact lineTable_of_linkedBy h.readFrom h.members before (Array.mem_of_getElem? hbefore)

/-- Which line table a file of the finished program has. -/
theorem Passed.lineTable_eq_some_iff {o : UInt32} : file.lineTable = some o ↔
    file.statementList = some o ∧ ¬ (o = 0 ∧ p.zeroClaimed place = true) ∧
      (p.debug.lineTable? o).isSome = true := by
  have haside := h.lines.linesAside
  obtain ⟨before, -, hnew, rfl⟩ := h.exists_given hfile
  rw [haside.zeroClaimed_eq, haside.debug_eq, File.statementList_given]
  cases htable : linked.tableOf (linked.zeroClaimed place) before with
  | none =>
      constructor
      · intro ho
        simp [File.given, hnew] at ho
      · rintro ⟨hlist, hopen, hsome⟩
        obtain ⟨table, hfound⟩ := Option.isSome_iff_exists.mp hsome
        rw [tableOf_eq_some_iff.mpr ⟨o, hlist, hopen, hfound⟩] at htable
        cases htable
  | some table =>
      obtain ⟨o', hlist, hopen, hfound⟩ := tableOf_eq_some_iff.mp htable
      simp only [File.given, Option.isSome_some, if_true, hlist]
      constructor
      · intro ho
        cases ho
        exact ⟨rfl, hopen, Option.isSome_of_eq_some hfound⟩
      · exact And.left

/-- A file that ends without a table was passed over. -/
theorem Passed.gives_nextFile [RangeMap UInt32] (hnone : file.lineTable = none) :
    ∃ q zeroClaimed claimed ws, (linked.assignLinesOf place).Gives (q, zeroClaimed) ws ∧
      (nextFile (q, zeroClaimed) place).Gives (q, claimed) [] := by
  obtain ⟨before, hbefore, -, rfl⟩ := h.exists_given hfile
  have hplace : place < linked.files.size := (Array.getElem?_eq_some_iff.mp hbefore).1
  obtain ⟨q, hgives, hgiven⟩ := exists_gives_assignLinesOf
    (lineTable_of_linkedBy h.readFrom h.members) place (Nat.le_of_lt hplace)
  have hfile' : q.files[place]? = some before := by
    rw [hgiven.files, if_neg (Nat.lt_irrefl place), hbefore]
  have htable : q.tableOf (linked.zeroClaimed place) before = none := by
    rw [hgiven.linesAside.tableOf_eq]
    cases htable : linked.tableOf (linked.zeroClaimed place) before with
    | none => rfl
    | some table =>
        obtain ⟨o, hlist, -⟩ := tableOf_eq_some_iff.mp htable
        simp [File.given, htable, hlist] at hnone
  exact ⟨q, _, _, _, hgives, gives_nextFile_of_none hfile' htable⟩

end

/-- The line table of the file at a place, as the statement lists decide it. -/
structure TableGiven (p : Program) (place : Nat) (file : File) : Prop where
  zero_iff : file.lineTable = some 0 ↔
    (file.statementList = some 0 ∧ ∀ j < place, ∀ earlier, p.files[j]? = some earlier →
      earlier.statementList ≠ some 0) ∧ (p.debug.lineTable? 0).isSome
  of_ne_zero : ∀ o, o ≠ 0 → file.statementList = some o →
    file.lineTable = if (p.debug.lineTable? o).isSome then some o else none
  of_none : file.statementList = none → file.lineTable = none
  named : ∀ o, file.lineTable = some o → file.statementList = some o

theorem Passed.tableGiven {d : DebugInfo} {units : List CompileUnit} {linked p : Program}
    (h : Passed d units linked p) {place : Nat} {file : File}
    (hfile : p.files[place]? = some file) : p.TableGiven place file := by
  have htable := fun o => h.lineTable_eq_some_iff hfile (o := o)
  constructor
  case zero_iff =>
      have hclaimed : ¬ (0 = (0 : UInt32) ∧ p.zeroClaimed place = true) ↔
          ∀ j < place, ∀ earlier, p.files[j]? = some earlier → earlier.statementList ≠ some 0 := by
        simp [zeroClaimed_eq_true_iff]
      rw [htable, hclaimed, and_assoc]
  case of_ne_zero =>
      intro o ho hlist
      by_cases hfound : (p.debug.lineTable? o).isSome = true
      · rw [if_pos hfound, htable]
        exact ⟨hlist, fun hzero => ho hzero.1, hfound⟩
      · rw [if_neg hfound, Option.eq_none_iff_forall_ne_some]
        intro o' ho'
        obtain ⟨hlist', -, hfound'⟩ := (htable o').mp ho'
        rw [hlist, Option.some.injEq] at hlist'
        exact hfound (hlist' ▸ hfound')
  case of_none =>
      intro hlist
      rw [Option.eq_none_iff_forall_ne_some]
      intro o ho
      rw [((htable o).mp ho).1] at hlist
      cases hlist
  case named => exact fun o ho => ((htable o).mp ho).1

/-- In every program that is built the statement lists decide on the line tables.
A file that is left without one is passed over: the round that comes to it adds
no warning and leaves the program as it was. -/
theorem tableGiven_of_build [RangeMap UInt32] {d : DebugInfo} {settings : DiagnosticSettings}
    {p : Program} {shown : Diagnostics} (hp : build d settings = .ok (p, shown)) :
    p.debug = d ∧ ∃ read afterUnits linked afterLinks,
      readUnits d (.empty settings) = .ok (read, afterUnits) ∧
      read.linkMembers afterUnits = .ok (linked, afterLinks) ∧
      linked.assignLines afterLinks = .ok (p, shown) ∧
      ∀ (place : Nat) file, p.files[place]? = some file → p.TableGiven place file ∧
        (file.lineTable = none → ∃ q zeroClaimed claimed ws,
          (linked.assignLinesOf place).Gives (q, zeroClaimed) ws ∧
            (nextFile (q, zeroClaimed) place).Gives (q, claimed) []) := by
  refine ⟨(traced_of_walk hp).debug_eq, ?_⟩
  obtain ⟨read, afterUnits, linked, afterLinks, hread, hlinks, hlines⟩ := walk_eq_ok_iff.mp hp
  obtain ⟨units, -, -, -, hpassed⟩ := exists_passed hread hlinks hlines
  refine ⟨read, afterUnits, linked, afterLinks, hread, hlinks, hlines, fun place file hfile => ?_⟩
  exact ⟨hpassed.tableGiven hfile, hpassed.gives_nextFile hfile⟩

/-- Four units.  The first two name the table at offset zero, the third that after
it and the last none that exists.  The code of the second function in the first
unit is within that of the first. -/
def sampleTables : List UInt8 :=
  [0, 0, 0, 18, 0, 0x11, 0, 0x12, 0, 0, 0, 70, 1, 6, 0, 0, 0, 0,
   0, 0, 0, 24, 0, 6, 0, 0x12, 0, 0, 0, 42, 1, 0x11, 0, 0, 1, 0, 1, 0x21, 0, 0, 1, 0x40,
   0, 0, 0, 24, 0, 6, 0, 0x12, 0, 0, 0, 66, 1, 0x11, 0, 0, 1, 0x20, 1, 0x21, 0, 0, 1, 0x30,
   0, 0, 0, 4,
   0, 0, 0, 18, 0, 0x11, 0, 0x12, 0, 0, 0, 116, 1, 6, 0, 0, 0, 0,
   0, 0, 0, 24, 0, 6, 0, 0x12, 0, 0, 0, 112, 1, 0x11, 0, 0, 1, 0, 1, 0x21, 0, 0, 1, 0x40,
   0, 0, 0, 4,
   0, 0, 0, 18, 0, 0x11, 0, 0x12, 0, 0, 0, 138, 1, 6, 0, 0, 0, 38,
   0, 0, 0, 4,
   0, 0, 0, 18, 0, 0x11, 0, 0x12, 0, 0, 0, 160, 1, 6, 0, 0, 0, 99,
   0, 0, 0, 4]

/-- The line section for it. -/
def sampleLines : List UInt8 :=
  [0, 0, 0, 38, 0, 0, 1, 0,
   0, 0, 0, 1, 0xff, 0xff, 0, 0, 0, 0,
   0, 0, 0, 2, 0xff, 0xff, 0, 0, 0, 0x24,
   0, 0, 0, 3, 0xff, 0xff, 0, 0, 0, 0x50,
   0, 0, 0, 18, 0, 0, 2, 0,
   0, 0, 0, 7, 0, 4, 0, 0, 0, 0]

theorem tableGiven_of_sampleTables : ∃ d p shown,
    DebugInfo.decode .big sampleTables (some sampleLines) = .ok d ∧
      build d .default = .ok (p, shown) ∧
      (p.files.toList.map fun file => (file.statementList, file.lineTable)) =
        [(some 0, some 0), (some 0, none), (some 38, some 38), (some 99, none)] ∧
      p.debug = d ∧ ∃ read afterUnits linked afterLinks,
        readUnits d (.empty .default) = .ok (read, afterUnits) ∧
        read.linkMembers afterUnits = .ok (linked, afterLinks) ∧
        linked.assignLines afterLinks = .ok (p, shown) ∧
        ∀ (place : Nat) file, p.files[place]? = some file → p.TableGiven place file ∧
          (file.lineTable = none → ∃ q zeroClaimed claimed ws,
            (linked.assignLinesOf place).Gives (q, zeroClaimed) ws ∧
              (nextFile (q, zeroClaimed) place).Gives (q, claimed) []) := by
  obtain ⟨d, p, shown, hd, hp, hview⟩ := exists_of_outcomeUnder (show
    outcomeUnder .default .big sampleTables (some sampleLines)
        (fun p => p.files.toList.map fun file => (file.statementList, file.lineTable)) =
      some [(some 0, some 0), (some 0, none), (some 38, some 38), (some 99, none)] by
    decide +kernel)
  exact ⟨d, p, shown, hd, hp, hview, tableGiven_of_build hp⟩

end Program
end DwarfOne
