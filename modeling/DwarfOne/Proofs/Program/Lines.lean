/-
# `Proofs.Program.Lines` — which function gets which line

The last pass goes through the files in order.  A file is given the line table
its statement list names, except that the table at offset zero goes only to the
first file that names it; each entry of the table then goes to the function of
the file at its address, or to a warning.

`LinesGiven p count q` says what `q` is when that has been done for the first
`count` files of `p`.  A round adds one file to it (`LinesGiven.next`), and the
whole pass is the case where all are done.
-/
import DwarfOne.Proofs.Program.Entity
import Std.Data.TreeMap.Lemmas

namespace DwarfOne

/-! ## Functions by address -/

/-- Whether there is code of the function at an address. -/
def Function.covers (f : Function) (address : UInt32) : Bool :=
  f.low ≤ address && address < f.high

theorem Function.covers_iff {f : Function} {address : UInt32} :
    f.covers address = true ↔ f.low ≤ address ∧ address < f.high := by
  rw [covers, Bool.and_eq_true, decide_eq_true_iff, decide_eq_true_iff]

namespace Program

/-- The function of a file at an address.  If several are there, the one listed
last counts. -/
def functionAt? (p : Program) (file : File) (address : UInt32) : Option UInt32 :=
  file.functions.reverse.find? fun o => p.functions[o]?.any (·.covers address)

section Ranges

variable [RangeMap UInt32]

/-- One round of `functionRanges`. -/
def addRange (p : Program) (ranges : RangeMap.Map UInt32) (o : UInt32) : RangeMap.Map UInt32 :=
  match p.functions[o]? with
  | some f => if f.low < f.high then RangeMap.insert ranges f.low f.high o else ranges
  | none => ranges

theorem get?_addRange (p : Program) (ranges : RangeMap.Map UInt32) (o address : UInt32) :
    RangeMap.get? (p.addRange ranges o) address =
      ([o].find? fun o => p.functions[o]?.any (·.covers address)).or
        (RangeMap.get? ranges address) := by
  rw [List.find?_singleton]
  unfold addRange
  cases p.functions[o]? with
  | none => rfl
  | some f =>
      simp only [Option.any_some, Function.covers_iff]
      by_cases hrange : f.low < f.high
      · rw [if_pos hrange, RangeMap.get?_insert hrange]
        by_cases hcovers : f.low ≤ address ∧ address < f.high
        · simp [hcovers]
        · simp [hcovers]
      · -- a range that ends before it starts holds no address
        have hnone : ¬ (f.low ≤ address ∧ address < f.high) := by
          rintro ⟨hlow, hhigh⟩
          exact hrange (UInt32.lt_of_le_of_lt hlow hhigh)
        simp [hrange, hnone]

theorem get?_foldl_addRange (p : Program) (address : UInt32) :
    ∀ (listed : List UInt32) (ranges : RangeMap.Map UInt32),
      RangeMap.get? (listed.foldl p.addRange ranges) address =
        (listed.reverse.find? fun o => p.functions[o]?.any (·.covers address)).or
          (RangeMap.get? ranges address)
  | [], _ => rfl
  | o :: listed, ranges => by
      rw [List.foldl_cons, get?_foldl_addRange p address listed, get?_addRange,
        List.reverse_cons, List.find?_append, Option.or_assoc]

/-- Looking an address up among the ranges of a file finds the function there. -/
theorem get?_functionRanges (p : Program) (file : File) :
    RangeMap.get? (p.functionRanges file) = p.functionAt? file := by
  funext address
  have hrounds := p.get?_foldl_addRange address file.functions RangeMap.empty
  rw [RangeMap.get?_empty, Option.or_none] at hrounds
  exact hrounds

end Ranges

theorem exists_of_functionAt? {p : Program} {file : File} {address o : UInt32}
    (h : p.functionAt? file address = some o) :
    o ∈ file.functions ∧ ∃ f, p.functions[o]? = some f ∧ f.covers address = true := by
  refine ⟨List.mem_reverse.mp (List.mem_of_find?_eq_some h), ?_⟩
  have hany := List.find?_some h
  cases hf : p.functions[o]? with
  | none => simp [hf] at hany
  | some f => exact ⟨f, rfl, by simpa [hf] using hany⟩

end Program

/-! ## What the pass leaves alone -/

def Function.withoutLines (f : Function) : Function :=
  { f with lines := [] }

def File.withoutTable (f : File) : File :=
  { f with lineTable := none }

namespace Program

/-- Two programs that differ in lines and line tables only. -/
structure LinesAside (p p' : Program) : Prop where
  debug_eq : p'.debug = p.debug
  types_eq : p'.types = p.types
  vars_eq : p'.vars = p.vars
  paths_eq : p'.paths = p.paths
  functions : ∀ o : UInt32, p'.functions[o]?.map Function.withoutLines =
    p.functions[o]?.map Function.withoutLines
  files : p'.files.map File.withoutTable = p.files.map File.withoutTable

theorem LinesAside.mem_functions_iff {p p' : Program} (h : LinesAside p p') {o : UInt32} :
    o ∈ p'.functions ↔ o ∈ p.functions := by
  have hsome := congrArg Option.isSome (h.functions o)
  rw [Option.isSome_map, Option.isSome_map] at hsome
  rw [Std.TreeMap.mem_iff_isSome_getElem?, Std.TreeMap.mem_iff_isSome_getElem?, hsome]

theorem LinesAside.symm {p p' : Program} (h : LinesAside p p') : LinesAside p' p :=
  ⟨h.debug_eq.symm, h.types_eq.symm, h.vars_eq.symm, h.paths_eq.symm,
    fun o => (h.functions o).symm, h.files.symm⟩

/-- Functions are as they were but for the lines. -/
theorem LinesAside.map_function {p p' : Program} (h : LinesAside p p') {α : Type}
    (view : Function → α) (hview : ∀ f, view f.withoutLines = view f) (o : UInt32) :
    p'.functions[o]?.map view = p.functions[o]?.map view := by
  simpa [Function.comp_def, hview] using congrArg (Option.map view) (h.functions o)

/-- Files are as they were but for the table. -/
theorem LinesAside.map_files {p p' : Program} (h : LinesAside p p') {α : Type} {view : File → α}
    (hview : ∀ f, view f.withoutTable = view f) : p'.files.map view = p.files.map view := by
  simpa [Function.comp_def, hview] using congrArg (Array.map view) h.files

theorem LinesAside.exists_mem_files {p p' : Program} (h : LinesAside p p')
    {listed : File → List UInt32} (hlisted : ∀ f, listed f.withoutTable = listed f) {o : UInt32}
    (ho : ∃ f ∈ p.files, o ∈ listed f) : ∃ f ∈ p'.files, o ∈ listed f := by
  obtain ⟨f, hf, ho⟩ := ho
  have hmem : listed f ∈ p'.files.map listed := by
    rw [h.map_files hlisted]
    exact Array.mem_map_of_mem hf
  obtain ⟨f', hf', heq⟩ := Array.mem_map.mp hmem
  exact ⟨f', hf', heq ▸ ho⟩

/-- Which function is at an address has nothing to do with lines. -/
theorem LinesAside.functionAt?_eq {p p' : Program} (h : LinesAside p p') :
    p'.functionAt? = p.functionAt? := by
  funext file address
  unfold functionAt?
  congr 1
  funext o
  have hcovers := h.map_function (·.covers address) (fun _ => rfl) o
  simpa [Option.any_map] using congrArg (Option.any id) hcovers

/-! ## The entries of one table -/

end Program

def Function.addLines (lines : List LineEntry) (f : Function) : Function :=
  { f with lines := f.lines ++ lines }

@[simp] theorem Function.addLines_nil : addLines [] = id := by
  funext f
  simp [addLines]

@[simp] theorem Function.addLines_addLines (f : Function) (lines lines' : List LineEntry) :
    (f.addLines lines).addLines lines' = f.addLines (lines ++ lines') := by
  simp [addLines]

namespace Program

/-- The entries that fall to a function, if `at?` says which function is at an
address. -/
def linesFor (at? : UInt32 → Option UInt32) (entries : List LineEntry) (o : UInt32) :
    List LineEntry :=
  entries.filter (at? ·.address = some o)

/-- The warnings about entries that fall to no function. -/
def linesOutside (file : File) (at? : UInt32 → Option UInt32) (entries : List LineEntry) :
    List Diagnostic :=
  (entries.filter (at? ·.address = none)).map (outsideLine file)

/-- Only lines were added. -/
structure LinesAdded (lines : UInt32 → List LineEntry) (p p' : Program) : Prop where
  eq_functions : p' = { p with functions := p'.functions }
  functions : ∀ o : UInt32, p'.functions[o]? = p.functions[o]?.map (Function.addLines (lines o))

theorem LinesAdded.refl {lines : UInt32 → List LineEntry} (hlines : ∀ o, lines o = [])
    (p : Program) : LinesAdded lines p p :=
  ⟨rfl, fun o => by simp [hlines]⟩

theorem LinesAdded.trans {lines lines' : UInt32 → List LineEntry} {p p' p'' : Program}
    (h : LinesAdded lines p p') (h' : LinesAdded lines' p' p'') :
    LinesAdded (fun o => lines o ++ lines' o) p p'' := by
  constructor
  · rw [h'.eq_functions, h.eq_functions]
  · intro o
    rw [h'.functions, h.functions, Option.map_map]
    congr 1
    funext f
    exact f.addLines_addLines (lines o) (lines' o)

section Assigning

variable [RangeMap UInt32] (file : File) {ranges : RangeMap.Map UInt32}
  {at? : UInt32 → Option UInt32}

theorem exists_gives_assignLine (hranges : RangeMap.get? ranges = at?) (p : Program)
    (entry : LineEntry) : ∃ p',
      (assignLine file ranges p entry).Gives p' (linesOutside file at? [entry]) ∧
        LinesAdded (linesFor at? [entry]) p p' := by
  unfold assignLine
  rw [hranges]
  cases hat : at? entry.address with
  | none =>
      refine ⟨p, ?_, .refl (fun o => by simp [linesFor, hat]) p⟩
      have houtside : linesOutside file at? [entry] = [outsideLine file entry] := by
        simp [linesOutside, hat]
      rw [houtside]
      exact (Build.gives_warn _).bind (Build.gives_pure p)
  | some o =>
      have houtside : linesOutside file at? [entry] = [] := by simp [linesOutside, hat]
      rw [houtside]
      refine ⟨_, Build.gives_pure _, rfl, fun o' => ?_⟩
      rw [Std.TreeMap.getElem?_modify]
      by_cases ho : o = o'
      · subst ho
        simp [linesFor, hat]
        rfl
      · simp [linesFor, hat, ho]

theorem exists_gives_assignAll (hranges : RangeMap.get? ranges = at?) :
    ∀ (entries : List LineEntry) (p : Program), ∃ p',
      Build.Gives (entries.foldlM (assignLine file ranges) p) p'
          (linesOutside file at? entries) ∧
        LinesAdded (linesFor at? entries) p p'
  | [], p => ⟨p, Build.gives_pure p, .refl (fun _ => rfl) p⟩
  | entry :: entries, p => by
      obtain ⟨p₁, hfirst, hadded⟩ := exists_gives_assignLine file hranges p entry
      obtain ⟨p', hrest, hadded'⟩ := exists_gives_assignAll hranges entries p₁
      refine ⟨p', ?_, ?_⟩
      · have houtside : linesOutside file at? (entry :: entries) =
            linesOutside file at? [entry] ++ linesOutside file at? entries := by
          rw [linesOutside, linesOutside, linesOutside, ← List.map_append, ← List.filter_append]
          rfl
        rw [List.foldlM_cons, houtside]
        exact hfirst.bind hrest
      · have hlines : linesFor at? (entry :: entries) = fun o =>
            linesFor at? [entry] o ++ linesFor at? entries o := by
          funext o
          rw [linesFor, linesFor, linesFor, ← List.filter_append]
          rfl
        rw [hlines]
        exact hadded.trans hadded'

end Assigning

/-! ## One file -/

end Program

/-- The entries of a table, if there is one. -/
def LineTable.entriesOf (table : Option LineTable) : List LineEntry :=
  (table.map LineTable.entries).getD []

/-- A file that was given the table it names, or none. -/
def File.given (file : File) (table : Option LineTable) : File :=
  if table.isSome then { file with lineTable := file.statementList } else file

@[simp] theorem File.functions_given (file : File) (table : Option LineTable) :
    (file.given table).functions = file.functions := by
  unfold given
  split <;> rfl

@[simp] theorem File.name_given (file : File) (table : Option LineTable) :
    (file.given table).name = file.name := by
  unfold given
  split <;> rfl

@[simp] theorem File.statementList_given (file : File) (table : Option LineTable) :
    (file.given table).statementList = file.statementList := by
  unfold given
  split <;> rfl

@[simp] theorem File.withoutTable_given (file : File) (table : Option LineTable) :
    (file.given table).withoutTable = file.withoutTable := by
  unfold given
  split <;> rfl

namespace Program

theorem tableOf_eq_some_iff {p : Program} {zeroClaimed : Bool} {file : File} {table : LineTable} :
    p.tableOf zeroClaimed file = some table ↔ ∃ o, file.statementList = some o ∧
      ¬ (o = 0 ∧ zeroClaimed = true) ∧ p.debug.lineTable? o = some table := by
  unfold tableOf
  cases hlist : file.statementList with
  | none => simp
  | some o =>
      by_cases hzero : o = 0 ∧ zeroClaimed = true
      · simp [hzero]
      · simp only [bind, Option.bind_some, Option.some.injEq, exists_eq_left', hzero, if_false,
          not_false_eq_true, true_and]

/-- A file without a table is passed over. -/
theorem assignFileLines_of_none [RangeMap UInt32] {p : Program} {place : Nat} {file : File}
    {zeroClaimed : Bool} (hfile : p.files[place]? = some file)
    (htable : p.tableOf zeroClaimed file = none) :
    p.assignFileLines zeroClaimed place = pure p := by
  simp only [assignFileLines, hfile, htable]

theorem gives_nextFile_of_none [RangeMap UInt32] {p : Program} {place : Nat} {file : File}
    {zeroClaimed : Bool} (hfile : p.files[place]? = some file)
    (htable : p.tableOf zeroClaimed file = none) :
    (nextFile (p, zeroClaimed) place).Gives
      (p, zeroClaimed || decide (p.files[place]?.bind File.statementList = some 0)) [] := by
  rw [nextFile, assignFileLines_of_none hfile htable]
  exact Build.gives_pure _

theorem exists_gives_assignFileLines [RangeMap UInt32] {p : Program} {place : Nat} {file : File}
    (hfile : p.files[place]? = some file) (zeroClaimed : Bool) {table : Option LineTable}
    (htable : p.tableOf zeroClaimed file = table) : ∃ p',
      (p.assignFileLines zeroClaimed place).Gives p'
          (linesOutside file (p.functionAt? file) (LineTable.entriesOf table)) ∧
        LinesAdded (linesFor (p.functionAt? file) (LineTable.entriesOf table))
          { p with files := p.files.setIfInBounds place (file.given table) } p' := by
  cases table with
  | none =>
      have hsame : p.files.setIfInBounds place (file.given none) = p.files := by
        obtain ⟨hplace, rfl⟩ := Array.getElem?_eq_some_iff.mp hfile
        simp [File.given, Array.setIfInBounds_def, hplace]
      refine ⟨p, ?_, ?_⟩
      · rw [assignFileLines_of_none hfile htable]
        exact Build.gives_pure p
      · rw [hsame]
        exact .refl (fun _ => rfl) p
  | some table =>
      obtain ⟨p', hgives, hadded⟩ := exists_gives_assignAll file (p.get?_functionRanges file)
        table.entries { p with files := p.files.setIfInBounds place (file.given (some table)) }
      refine ⟨p', ?_, hadded⟩
      simp only [assignFileLines, hfile, htable]
      exact hgives

/-! ## All files -/

/-- Whether one of the first files names the table at offset zero. -/
def zeroClaimed (p : Program) (count : Nat) : Bool :=
  (p.files.toList.take count).any (·.statementList = some 0)

/-- The file at a place as the pass leaves it. -/
def settle (p : Program) (place : Nat) (file : File) : File :=
  file.given (p.tableOf (p.zeroClaimed place) file)

/-- The files as the pass leaves them. -/
def settled (p : Program) : List File :=
  p.files.toList.mapIdx p.settle

/-- The entries of the table a file has. -/
def entriesOf (p : Program) (file : File) : List LineEntry :=
  LineTable.entriesOf (file.lineTable.bind p.debug.lineTable?)

/-- The entries of a file that fall to a function. -/
def linesOf (p : Program) (o : UInt32) (file : File) : List LineEntry :=
  linesFor (p.functionAt? file) (p.entriesOf file) o

/-- The warnings about entries of a file that fall to no function. -/
def outsideOf (p : Program) (file : File) : List Diagnostic :=
  linesOutside file (p.functionAt? file) (p.entriesOf file)

theorem getElem?_settled (p : Program) (i : Nat) :
    p.settled[i]? = p.files[i]?.map (p.settle i) := by
  rw [settled, List.getElem?_mapIdx, Array.getElem?_toList]

theorem take_settled_succ {p : Program} {count : Nat} {file : File}
    (hfile : p.files[count]? = some file) :
    p.settled.take (count + 1) = p.settled.take count ++ [p.settle count file] := by
  rw [List.take_add_one, getElem?_settled, hfile]
  rfl

theorem zeroClaimed_succ {p : Program} {count : Nat} {file : File}
    (hfile : p.files[count]? = some file) :
    p.zeroClaimed (count + 1) = (p.zeroClaimed count || decide (file.statementList = some 0)) := by
  rw [zeroClaimed, List.take_add_one, Array.getElem?_toList, hfile, List.any_append]
  simp [zeroClaimed]

/-- What a file is given shows in the file. -/
theorem entriesOf_settle {p : Program} {place : Nat} {file : File} (hnew : file.lineTable = none) :
    p.entriesOf (p.settle place file) =
      LineTable.entriesOf (p.tableOf (p.zeroClaimed place) file) := by
  unfold settle entriesOf
  cases htable : p.tableOf (p.zeroClaimed place) file with
  | none => simp [File.given, hnew]
  | some table =>
      obtain ⟨o, hlist, -, hfound⟩ := tableOf_eq_some_iff.mp htable
      simp [File.given, hlist, hfound]

theorem functionAt?_settle (p : Program) (place : Nat) (file : File) :
    p.functionAt? (p.settle place file) = p.functionAt? file := by
  funext address
  simp [functionAt?, settle]

theorem linesOf_settle {p : Program} {place : Nat} {file : File} (hnew : file.lineTable = none)
    (o : UInt32) : p.linesOf o (p.settle place file) =
      linesFor (p.functionAt? file)
        (LineTable.entriesOf (p.tableOf (p.zeroClaimed place) file)) o := by
  rw [linesOf, entriesOf_settle hnew, functionAt?_settle]

theorem outsideOf_settle {p : Program} {place : Nat} {file : File} (hnew : file.lineTable = none) :
    p.outsideOf (p.settle place file) =
      linesOutside file (p.functionAt? file)
        (LineTable.entriesOf (p.tableOf (p.zeroClaimed place) file)) := by
  rw [outsideOf, entriesOf_settle hnew, functionAt?_settle]
  simp [linesOutside, outsideLine, settle]

/-- What the pass has made of a program when it has gone through so many files. -/
structure LinesGiven (p : Program) (count : Nat) (q : Program) : Prop where
  eq_lines : q = { p with files := q.files, functions := q.functions }
  files : ∀ i, q.files[i]? = if i < count then p.settled[i]? else p.files[i]?
  functions : ∀ o : UInt32, q.functions[o]? =
    p.functions[o]?.map (Function.addLines ((p.settled.take count).flatMap (p.linesOf o)))

namespace LinesGiven

theorem zero (p : Program) : LinesGiven p 0 p :=
  ⟨rfl, fun _ => rfl, fun o => by simp⟩

variable {p q : Program} {count : Nat}

theorem linesAside (h : LinesGiven p count q) : LinesAside p q := by
  have heq := h.eq_lines
  refine ⟨by rw [heq], by rw [heq], by rw [heq], by rw [heq], fun o => ?_, ?_⟩
  · rw [h.functions, Option.map_map]
    rfl
  · refine Array.ext_getElem? fun i => ?_
    rw [Array.getElem?_map, Array.getElem?_map, h.files]
    split
    · rw [getElem?_settled, Option.map_map]
      congr 1
      funext file
      exact file.withoutTable_given _
    · rfl

/-- When all files are done, they are as settled. -/
theorem toList_files (h : LinesGiven p p.files.size q) : q.files.toList = p.settled := by
  refine List.ext_getElem? fun i => ?_
  rw [Array.getElem?_toList, h.files]
  split
  · rfl
  · rw [getElem?_settled, Array.getElem?_eq_none (by omega)]
    rfl

/-- One more file. -/
theorem next [RangeMap UInt32] (h : LinesGiven p count q) {file : File}
    (hfile : p.files[count]? = some file) (hnew : file.lineTable = none) : ∃ q',
      (nextFile (q, p.zeroClaimed count) count).Gives (q', p.zeroClaimed (count + 1))
          (p.outsideOf (p.settle count file)) ∧
        LinesGiven p (count + 1) q' := by
  have hfile' : q.files[count]? = some file := by
    rw [h.files, if_neg (Nat.lt_irrefl count), hfile]
  have htable : q.tableOf (p.zeroClaimed count) file = p.tableOf (p.zeroClaimed count) file := by
    rw [tableOf, tableOf, h.linesAside.debug_eq]
  obtain ⟨q', hgives, hadded⟩ := exists_gives_assignFileLines hfile' _ htable
  rw [h.linesAside.functionAt?_eq] at hgives hadded
  rw [← outsideOf_settle hnew] at hgives
  refine ⟨q', ?_, ?_, fun i => ?_, fun o => ?_⟩
  · have hclaim : (p.zeroClaimed count ||
        decide (q.files[count]?.bind File.statementList = some 0)) =
          p.zeroClaimed (count + 1) := by
      rw [hfile', zeroClaimed_succ hfile]
      rfl
    rw [← List.append_nil (p.outsideOf _), ← hclaim]
    exact hgives.bind (Build.gives_pure _)
  · rw [hadded.eq_functions, h.eq_lines]
  · have hfiles : q'.files = q.files.setIfInBounds count (p.settle count file) := by
      rw [hadded.eq_functions]
      rfl
    rw [hfiles, Array.getElem?_setIfInBounds, h.files]
    by_cases hi : count = i
    · subst hi
      have hlt : count < q.files.size := (Array.getElem?_eq_some_iff.mp hfile').1
      simp [getElem?_settled, hfile, hlt]
    · rw [if_neg hi]
      by_cases hlt : i < count
      · rw [if_pos hlt, if_pos (by omega)]
      · rw [if_neg hlt, if_neg (by omega)]
  · rw [hadded.functions, h.functions, Option.map_map, take_settled_succ hfile, List.flatMap_append]
    congr 1
    funext f
    simp [linesOf_settle hnew]

end LinesGiven

/-- A run of the pass over the first files. -/
theorem exists_gives_assignLinesOf [RangeMap UInt32] {p : Program}
    (hnew : ∀ file ∈ p.files, file.lineTable = none) :
    ∀ count ≤ p.files.size, ∃ q,
      (p.assignLinesOf count).Gives (q, p.zeroClaimed count)
          ((p.settled.take count).flatMap p.outsideOf) ∧
        LinesGiven p count q
  | 0, _ => ⟨p, Build.gives_pure _, .zero p⟩
  | count + 1, hcount => by
      obtain ⟨q, hgives, hgiven⟩ := exists_gives_assignLinesOf hnew count (Nat.le_of_succ_le hcount)
      have hfile : p.files[count]? = some p.files[count] := Array.getElem?_eq_getElem hcount
      obtain ⟨q', hgives', hgiven'⟩ := hgiven.next hfile (hnew _ (Array.getElem_mem hcount))
      refine ⟨q', ?_, hgiven'⟩
      rw [assignLinesOf, List.range_succ, Build.foldlM_concat, take_settled_succ hfile,
        List.flatMap_append, List.flatMap_singleton]
      exact hgives.bind hgives'

/-- The whole pass. -/
theorem exists_gives_assignLines [RangeMap UInt32] {p : Program}
    (hnew : ∀ file ∈ p.files, file.lineTable = none) :
    ∃ q, p.assignLines.Gives q (p.settled.flatMap p.outsideOf) ∧ LinesGiven p p.files.size q := by
  obtain ⟨q, hgives, hgiven⟩ := exists_gives_assignLinesOf hnew p.files.size (Nat.le_refl _)
  refine ⟨q, ?_, hgiven⟩
  rw [List.take_of_length_le (by simp [settled])] at hgives
  rw [← List.append_nil (p.settled.flatMap _)]
  exact hgives.bind (Build.gives_pure q)

end Program
end DwarfOne
