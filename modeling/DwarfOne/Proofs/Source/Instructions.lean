/-
# `Proofs.Source.Instructions` — lines beside the instructions they start at

The instructions of a function are written as remarks, one to a line, and behind each of them
the lines of the line table that start at its address.  The program goes along the sorted
entries once and never looks back; what it writes is what a search of the unsorted entries for
every single address would find (`instructions_sorted`).  That needs the addresses of the
instructions to increase, as those of the disassembler do, and the sort to be stable.

Remarks never touch, so putting the tokens together leaves every one of them as it is
(`comments_onLines`).
-/
import DwarfOne.Proofs.PowerPC.Disassembly
import DwarfOne.Proofs.Source.Delimiters
import DwarfOne.Proofs.Source.Merging
import Mathlib.Data.List.TakeDrop

namespace DwarfOne

/-! ## Sorted lists -/

section Sorted

variable {α : Type} {p : α → Bool} {l : List α}

/-- What holds of a beginning only is found there. -/
theorem takeWhile_eq_filter (h : l.Pairwise fun a b => p b → p a) :
    l.takeWhile p = l.filter p := by
  induction l with
  | nil => rfl
  | cons a l ih =>
      obtain ⟨hfirst, hrest⟩ := List.pairwise_cons.mp h
      by_cases ha : p a
      · rw [List.takeWhile_cons_of_pos ha, List.filter_cons_of_pos ha, ih hrest]
      · rw [List.takeWhile_cons_of_neg ha, List.filter_cons_of_neg ha, eq_comm,
          List.filter_eq_nil_iff]
        exact fun b hb hpb => ha (hfirst b hb hpb)

theorem dropWhile_eq_filter (h : l.Pairwise fun a b => p b → p a) :
    l.dropWhile p = l.filter fun a => !p a := by
  induction l with
  | nil => rfl
  | cons a l ih =>
      obtain ⟨hfirst, hrest⟩ := List.pairwise_cons.mp h
      by_cases ha : p a
      · rw [List.dropWhile_cons_of_pos ha, List.filter_cons_of_neg (by simpa using ha), ih hrest]
      · rw [List.dropWhile_cons_of_neg ha, eq_comm, List.filter_eq_self]
        intro b hb
        rcases List.mem_cons.mp hb with rfl | hb
        · simpa using ha
        · simpa using fun hpb => ha (hfirst b hb hpb)

end Sorted

/-! ## Entries in the order of their addresses -/

namespace LineEntry

def InOrder (lines : List LineEntry) : Prop :=
  lines.Pairwise (·.address ≤ ·.address)

/-- The entries at an address. -/
def startingAt (lines : List LineEntry) (address : UInt32) : List LineEntry :=
  lines.filter (·.address = address)

theorem mem_startingAt {lines : List LineEntry} {address : UInt32} {line : LineEntry} :
    line ∈ startingAt lines address ↔ line ∈ lines ∧ line.address = address := by
  simp [startingAt]

/-- The entries in the order of their addresses. -/
def sorted (lines : List LineEntry) : List LineEntry :=
  lines.mergeSort (·.address ≤ ·.address)

theorem address_le_trans (a b c : LineEntry) (hab : decide (a.address ≤ b.address) = true)
    (hbc : decide (b.address ≤ c.address) = true) : decide (a.address ≤ c.address) = true := by
  simp only [decide_eq_true_eq] at hab hbc ⊢
  exact UInt32.le_trans hab hbc

theorem address_le_total (a b : LineEntry) :
    (decide (a.address ≤ b.address) || decide (b.address ≤ a.address)) = true := by
  simpa using UInt32.le_total a.address b.address

theorem inOrder_sorted (lines : List LineEntry) : InOrder (sorted lines) :=
  (List.pairwise_mergeSort address_le_trans address_le_total lines).imp fun h => of_decide_eq_true h

/-- Entries at the same address stay in the order they came in. -/
theorem startingAt_sorted (lines : List LineEntry) (address : UInt32) :
    startingAt (sorted lines) address = startingAt lines address := by
  have hsame : (startingAt lines address).Pairwise fun a b => decide (a.address ≤ b.address) := by
    refine List.pairwise_of_forall_mem_list fun a ha b hb => ?_
    rw [(mem_startingAt.mp ha).2, (mem_startingAt.mp hb).2]
    exact decide_eq_true (UInt32.le_refl address)
  have hsub : (startingAt lines address).Sublist (sorted lines) :=
    List.sublist_mergeSort address_le_trans address_le_total hsame List.filter_sublist
  have hfilter : (startingAt lines address).Sublist (startingAt (sorted lines) address) := by
    simpa [startingAt] using hsub.filter (·.address = address)
  have hlength : (startingAt (sorted lines) address).length = (startingAt lines address).length :=
    ((List.mergeSort_perm lines _).filter _).length_eq
  exact (hfilter.eq_of_length hlength.symm).symm

/-- An entry is found at one of several addresses only, and there as often as it is listed. -/
theorem perm_flatMap_startingAt (lines : List LineEntry) {code : List Instruction}
    (h : code.Pairwise (·.address < ·.address)) :
    (code.flatMap fun i => startingAt lines i.address).Perm
      (lines.filter fun line => line.address ∈ code.map Instruction.address) := by
  induction code with
  | nil => simp
  | cons i code ih =>
      obtain ⟨hfirst, hrest⟩ := List.pairwise_cons.mp h
      have hnew : i.address ∉ code.map Instruction.address := by
        intro hi
        obtain ⟨j, hj, heq⟩ := List.mem_map.mp hi
        exact UInt32.lt_irrefl i.address (heq ▸ hfirst j hj)
      refine .trans (.append_left _ (ih hrest)) (.trans (.of_eq ?_) (List.filter_append_perm
        (fun line => line.address = i.address) _))
      rw [List.filter_filter, List.filter_filter]
      congr 1
      · exact List.filter_congr fun line _ => by simpa using Or.inl
      · refine List.filter_congr fun line _ => ?_
        by_cases hline : line.address = i.address
        · simp [hline, hnew]
        · simp [hline]

end LineEntry

/-! ## Remarks in code -/

namespace Code

def comments (code : Code) : List Token :=
  code.tokens.toList.filter (·.kind = .comment)

/-- The last token, if there is one, is of a kind. -/
def EndsIn (kind : TokenKind) (code : Code) : Prop :=
  ∀ u ∈ code.tokens.toList.getLast?, u.kind = kind

theorem endsIn_push (code : Code) {t : Token} (ht : t.text ≠ "") : (code.push t).EndsIn t.kind := by
  rcases toList_push code ht with ⟨htokens, -⟩ | ⟨before, u, -, hkind, htokens⟩
  · simp [EndsIn, htokens]
  · simp [EndsIn, htokens, hkind]

theorem comments_push_of_kind_ne (code : Code) {t : Token} (h : t.kind ≠ .comment) :
    (code.push t).comments = code.comments := by
  by_cases ht : t.text = ""
  · rw [push_of_text_eq ht]
  rcases toList_push code ht with ⟨htokens, -⟩ | ⟨before, u, hbefore, hkind, htokens⟩
  · simp [comments, htokens, h]
  · simp [comments, htokens, hbefore, hkind, h]

/-- A remark behind something else stays as it is. -/
theorem comments_push {code : Code} {kind : TokenKind} (hend : code.EndsIn kind)
    (hkind : kind ≠ .comment) {t : Token} (hcomment : t.kind = .comment) (ht : t.text ≠ "") :
    (code.push t).comments = code.comments ++ [t] := by
  rcases toList_push code ht with ⟨htokens, -⟩ | ⟨before, u, hbefore, hu, -⟩
  · simp [comments, htokens, hcomment]
  · have hlast : u.kind = kind := hend u (by simp [hbefore])
    exact absurd (hlast.symm.trans (hu.trans hcomment)) hkind

open Token in
theorem endsIn_newline (code : Code) (indent : Nat) :
    ((newline indent).foldl push code).EndsIn .punctuation ∧
      ((newline indent).foldl push code).comments = code.comments := by
  rw [newline, List.foldl_cons]
  have hbreak : (code.push lineBreak).EndsIn .punctuation ∧
      (code.push lineBreak).comments = code.comments :=
    ⟨code.endsIn_push (by decide), code.comments_push_of_kind_ne (by decide)⟩
  generalize code.push lineBreak = after at hbreak
  induction indent generalizing after with
  | zero => exact hbreak
  | succ indent ih =>
      rw [List.replicate_succ, List.foldl_cons]
      refine ih _ ⟨after.endsIn_push (by decide), ?_⟩
      rw [after.comments_push_of_kind_ne (by decide), hbreak.2]

end Code

/-! ## Instructions and lines -/

namespace Source

open Token

def lineRemark (line : LineEntry) : Token :=
  remark ("Line " ++ Numeral.decimal line.line.toNat)

/-- An instruction and the lines that start at it. -/
def remarksAt (lines : List LineEntry) (i : Instruction) : List Token :=
  remark (instructionText i) :: (LineEntry.startingAt lines i.address).map lineRemark

/-- Each token on a line of its own. -/
def onLines (indent : Nat) (ts : List Token) : List Token :=
  ts.flatMap fun t => newline indent ++ [t]

theorem onLines_append (indent : Nat) (ts us : List Token) :
    onLines indent (ts ++ us) = onLines indent ts ++ onLines indent us :=
  List.flatMap_append

theorem exists_remark_of_mem {lines : List LineEntry} {i : Instruction} {t : Token}
    (h : t ∈ remarksAt lines i) : ∃ text, t = remark text := by
  rcases List.mem_cons.mp h with rfl | h
  · exact ⟨_, rfl⟩
  · obtain ⟨line, -, rfl⟩ := List.mem_map.mp h
    exact ⟨_, rfl⟩

theorem comments_onLines (code : Code) (indent : Nat) {ts : List Token}
    (h : ∀ t ∈ ts, ∃ text, t = remark text) :
    ((onLines indent ts).foldl Code.push code).comments = code.comments ++ ts := by
  induction ts generalizing code with
  | nil => simp [onLines]
  | cons t ts ih =>
      obtain ⟨text, rfl⟩ := h t (by simp)
      obtain ⟨hend, hcomments⟩ := code.endsIn_newline indent
      have hpush := Code.comments_push hend (by decide) (t := remark text) rfl (by simp [remark])
      rw [onLines, List.flatMap_cons, List.foldl_append, List.foldl_append]
      refine (ih _ fun u hu => h u (by simp [hu])).trans ?_
      rw [List.foldl_cons, List.foldl_nil, hpush, hcomments, List.append_assoc]
      rfl

/-- One instruction takes the entries at its address, and leaves those behind it. -/
theorem instructions_cons {lines : List LineEntry} (h : LineEntry.InOrder lines) (indent : Nat)
    (i : Instruction) (code : List Instruction) :
    instructions indent lines (i :: code) = onLines indent (remarksAt lines i) ++
      instructions indent (lines.filter (i.address < ·.address)) code := by
  have hdue : lines.dropWhile (·.address < i.address) =
      lines.filter fun line => !decide (line.address < i.address) := by
    refine dropWhile_eq_filter (h.imp fun {a b} hab hb => ?_)
    simp only [decide_eq_true_eq] at hb ⊢
    exact UInt32.lt_of_le_of_lt hab hb
  have hmono : (lines.filter fun line => !decide (line.address < i.address)).Pairwise
      fun a b => decide (b.address = i.address) = true → decide (a.address = i.address) = true := by
    refine (h.filter _).imp_of_mem fun {a b} ha _ hab hb => ?_
    have hle : ¬ a.address < i.address := by simpa using (List.mem_filter.mp ha).2
    simp only [decide_eq_true_eq] at hb ⊢
    exact UInt32.le_antisymm (hb ▸ hab) (UInt32.not_lt.mp hle)
  have hhere : lines.filter (fun line => decide (line.address = i.address) &&
      !decide (line.address < i.address)) = LineEntry.startingAt lines i.address := by
    refine List.filter_congr fun line _ => ?_
    by_cases hline : line.address = i.address <;> simp [hline]
  have hlater : lines.filter (fun line => !decide (line.address = i.address) &&
      !decide (line.address < i.address)) = lines.filter (i.address < ·.address) := by
    refine List.filter_congr fun line _ => ?_
    rw [← Bool.not_or, ← Bool.decide_or, ← decide_not, decide_eq_decide, or_comm,
      ← UInt32.le_iff_lt_or_eq, UInt32.not_le]
  rw [instructions, hdue, List.span_eq_takeWhile_dropWhile, takeWhile_eq_filter hmono,
    dropWhile_eq_filter hmono, List.filter_filter, List.filter_filter, hhere, hlater]
  simp [onLines, remarksAt, lineRemark, List.flatMap_map]

/-- What is written for sorted entries can be found for each instruction by itself. -/
theorem instructions_of_inOrder {lines : List LineEntry} (h : LineEntry.InOrder lines)
    (indent : Nat) {code : List Instruction} (hcode : code.Pairwise (·.address < ·.address)) :
    instructions indent lines code = onLines indent (code.flatMap (remarksAt lines)) := by
  induction code generalizing lines with
  | nil => rfl
  | cons i code ih =>
      obtain ⟨hfirst, hrest⟩ := List.pairwise_cons.mp hcode
      -- the entries let go of are at no later instruction
      have hkept : ∀ j ∈ code,
          remarksAt (lines.filter (i.address < ·.address)) j = remarksAt lines j := by
        intro j hj
        have hstart : LineEntry.startingAt (lines.filter (i.address < ·.address)) j.address =
            LineEntry.startingAt lines j.address := by
          rw [LineEntry.startingAt, List.filter_filter]
          refine List.filter_congr fun line _ => ?_
          by_cases hline : line.address = j.address
          · simp [hline, hfirst j hj]
          · simp [hline]
        rw [remarksAt, hstart, remarksAt]
      rw [instructions_cons h, ih (h.filter _) hrest, List.flatMap_congr hkept,
        List.flatMap_cons, onLines_append]

theorem instructions_sorted (lines : List LineEntry) (indent : Nat) {code : List Instruction}
    (hcode : code.Pairwise (·.address < ·.address)) :
    instructions indent (LineEntry.sorted lines) code =
      onLines indent (code.flatMap (remarksAt lines)) := by
  rw [instructions_of_inOrder (LineEntry.inOrder_sorted lines) indent hcode]
  congr 2
  funext i
  rw [remarksAt, LineEntry.startingAt_sorted, remarksAt]

/-- The instructions of a function are written in order, each on a line of its own, and behind
each one the lines that start at it, in the order they are listed in.  Whatever was written
before, these are the comments that are added, and they show every entry at the address of an
instruction once and no other. -/
theorem interleaved_of_increasing (s : Source) (f : Function) {code : List Instruction}
    (hcode : s.codeOf f = some code) (hincreasing : code.Pairwise (·.address < ·.address)) :
    s.disassembled f = (if f.locals.isEmpty then [] else [lineBreak]) ++
        onLines 1 (code.flatMap (remarksAt f.lines)) ∧
      (∀ before : Code, ((s.disassembled f).foldl Code.push before).comments =
        before.comments ++ code.flatMap (remarksAt f.lines)) ∧
      (code.flatMap fun i => LineEntry.startingAt f.lines i.address).Perm
        (f.lines.filter fun line => line.address ∈ code.map Instruction.address) := by
  have hwritten : s.disassembled f = (if f.locals.isEmpty then [] else [lineBreak]) ++
      onLines 1 (code.flatMap (remarksAt f.lines)) := by
    rw [← instructions_sorted f.lines 1 hincreasing, disassembled, hcode]
    rfl
  have hremarks : ∀ t ∈ code.flatMap (remarksAt f.lines), ∃ text, t = remark text := by
    intro t ht
    obtain ⟨i, -, ht⟩ := List.mem_flatMap.mp ht
    exact exists_remark_of_mem ht
  refine ⟨hwritten, fun before => ?_, LineEntry.perm_flatMap_startingAt f.lines hincreasing⟩
  rw [hwritten, List.foldl_append, comments_onLines _ 1 hremarks]
  congr 1
  split
  · rfl
  · exact before.comments_push_of_kind_ne (t := lineBreak) (by decide)

/-- The disassembler goes up. -/
theorem increasing_of_codeOf {s : Source} {image : Image} {f : Function}
    {code : List Instruction} (hs : s.disassembly = some (image, PowerPC.disassemble))
    (hcode : s.codeOf f = some code) : code.Pairwise (·.address < ·.address) := by
  have hok : PowerPC.disassemble image f.low f.high = .ok code := by
    simp only [codeOf, hs, Option.bind_eq_bind, Option.bind_some] at hcode
    split at hcode
    · cases h : PowerPC.disassemble image f.low f.high with
      | error e => simp [h, Except.toOption] at hcode
      | ok listing => simpa [h, Except.toOption] using hcode
    · cases hcode
  rcases PowerPC.disassemble_cases image f.low f.high with ⟨data, listing, -, hlisting, h⟩ | ⟨-, h⟩
  · cases h.symm.trans hok
    exact hlisting.increasing
  · cases h.symm.trans hok

/-- Three instructions from address `0x100` on. -/
def startImage : Image where
  bytes := #[0x38, 0x63, 0x00, 0x01, 0x60, 0x00, 0x00, 0x00, 0x4e, 0x80, 0x00, 0x20]
  order := .big
  header :=
    { osabi := 0, abiVersion := 0, fileType := 2, machine := 20, version := 1, entry := 0x100
      programHeaderOffset := 0, sectionHeaderOffset := 0, flags := 0, headerSize := 52
      programHeaderSize := 32, programHeaderCount := 1, sectionHeaderSize := 40
      sectionHeaderCount := 0, nameTableIndex := 0 }
  segments :=
    #[{ type := .load, file := ⟨0, 12⟩, memory := ⟨0x100, 12⟩, physical := 0x100, flags := ⟨5⟩
        align := 4 }]
  sections := #[]
  symbols := none
  warnings := []

/-- The lines of the constructor are out of order; some start where no instruction does. -/
def schedulerLines : Function :=
  { schedulerStart with
    high := 0x10c
    lines :=
      [⟨12, none, 0x108⟩, ⟨9, none, 0x100⟩, ⟨8, none, 0xfc⟩, ⟨10, some 4, 0x100⟩,
        ⟨11, none, 0x106⟩, ⟨13, none, 0x10c⟩, ⟨9, none, 0x100⟩] }

def schedulerCode : Source :=
  { scheduler with disassembly := some (startImage, PowerPC.disassemble) }

theorem interleaved_scheduler :
    ∃ code, schedulerCode.codeOf schedulerLines = some code ∧
      code.Pairwise (·.address < ·.address) ∧
      (Code.ofTokens (schedulerCode.disassembled schedulerLines)).comments.map Token.text =
        ["// 00000100  addi     r3, r3, 1", "// Line 9", "// Line 10", "// Line 9",
          "// 00000104  nop", "// 00000108  blr", "// Line 12"] := by
  have hcode : schedulerCode.codeOf schedulerLines =
      some [⟨0x100, "addi", "r3, r3, 1"⟩, ⟨0x104, "nop", ""⟩, ⟨0x108, "blr", ""⟩] := by
    decide +kernel
  have hincreasing := increasing_of_codeOf rfl hcode
  refine ⟨_, hcode, hincreasing, ?_⟩
  obtain ⟨-, hcomments, -⟩ := interleaved_of_increasing _ _ hcode hincreasing
  rw [Code.ofTokens, hcomments]
  decide +kernel

end Source

end DwarfOne
