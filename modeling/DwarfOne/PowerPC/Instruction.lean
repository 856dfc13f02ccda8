/-
# `PowerPC.Instruction` — decoding 32-bit PowerPC instructions

The integer, load and store, and branch instructions that compilers commonly
write are decoded; any other word is shown as it is.  Each family of
instructions has its own function, and `decode` picks the family by the
primary opcode in the top six bits.
-/
import DwarfOne.Text.Numeral

namespace DwarfOne

structure Instruction where
  address : UInt32
  mnemonic : String
  operands : String
  deriving DecidableEq, Repr

namespace PowerPC

/-! ## Fields -/

/-- The `count` bits of a word from bit `low` up, the lowest bit being 0. -/
def bits (w : UInt32) (low count : Nat) : Nat :=
  w.toNat / Nat.pow 2 low % Nat.pow 2 count

def opcode (w : UInt32) : Nat := bits w 26 6
def rd (w : UInt32) : Nat := bits w 21 5
def ra (w : UInt32) : Nat := bits w 16 5
def rb (w : UInt32) : Nat := bits w 11 5
def extendedOpcode (w : UInt32) : Nat := bits w 1 10
def uimm (w : UInt32) : Nat := bits w 0 16

/-- The lowest bit: the instruction records its result, or a branch links. -/
def lowBit (w : UInt32) : Bool := bits w 0 1 = 1

/-- A branch goes to the displacement itself. -/
def isAbsolute (w : UInt32) : Bool := bits w 1 1 = 1

/-- A number of `width` bits in two's complement. -/
def signExtend (width n : Nat) : Int :=
  if n < Nat.pow 2 (width - 1) then n else (n : Int) - (Nat.pow 2 width : Nat)

def simm (w : UInt32) : Int := signExtend 16 (uimm w)

/-- Where a branch at an address goes. -/
def target (w address : UInt32) (displacement : Int) : UInt32 :=
  if isAbsolute w then UInt32.ofInt displacement
  else address + UInt32.ofInt displacement

/-! ## Operands -/

def reg (n : Nat) : String := "r" ++ Numeral.decimal n

def operands (parts : List String) : String := ", ".intercalate parts

/-- A mnemonic with its operands. -/
abbrev Decoded := String × String

/-- A word that is not understood. -/
def raw (w : UInt32) : Decoded :=
  (".long", "0x" ++ Numeral.zeroPadded 8 (Numeral.upperHex w.toNat))

/-- Compares leave out the condition field if it is the first. -/
def conditionField (w : UInt32) : List String :=
  let field := rd w / 4
  if field = 0 then [] else ["cr" ++ Numeral.decimal field]

/-! ## Families -/

def immediate (w : UInt32) (mnemonic : String) : Decoded :=
  (mnemonic, operands [reg (rd w), reg (ra w), Numeral.signed (simm w)])

def compareImmediate (w : UInt32) (mnemonic value : String) : Decoded :=
  (mnemonic, operands (conditionField w ++ [reg (ra w), value]))

def addImmediate (w : UInt32) : Decoded :=
  if ra w = 0 then ("li", operands [reg (rd w), Numeral.signed (simm w)])
  else immediate w "addi"

def addShifted (w : UInt32) : Decoded :=
  let value := Numeral.upperOffset (uimm w)
  if ra w = 0 then ("lis", operands [reg (rd w), value])
  else ("addis", operands [reg (rd w), reg (ra w), value])

/-- Logical instructions name their target second in the word. -/
def logicalImmediate (w : UInt32) (mnemonic : String) : Decoded :=
  (mnemonic, operands [reg (ra w), reg (rd w), Numeral.upperOffset (uimm w)])

def orImmediate (w : UInt32) : Decoded :=
  if w = 0x60000000 then ("nop", "") else logicalImmediate w "ori"

def rotate (w : UInt32) : Decoded :=
  (if lowBit w then "rlwinm." else "rlwinm",
    operands [reg (ra w), reg (rd w), Numeral.decimal (rb w), Numeral.decimal (bits w 6 5),
      Numeral.decimal (bits w 1 5)])

/-- The displacement field of a long branch, a multiple of four. -/
def longDisplacement (w : UInt32) : Int := signExtend 26 (bits w 2 24 * 4)

def branch (w address : UInt32) : Decoded :=
  let mnemonic :=
    match lowBit w, isAbsolute w with
    | false, false => "b"
    | true, false => "bl"
    | false, true => "ba"
    | true, true => "bla"
  (mnemonic, Numeral.upperOffset (target w address (longDisplacement w)).toNat)

/-- The displacement field of a conditional branch, a multiple of four. -/
def shortDisplacement (w : UInt32) : Int := signExtend 16 (bits w 2 14 * 4)

def conditionName (bi : Nat) : String :=
  match bi % 4 with
  | 0 => "lt"
  | 1 => "gt"
  | 2 => "eq"
  | _ => "so"

def negatedName (bi : Nat) : String :=
  match bi % 4 with
  | 0 => "ge"
  | 1 => "le"
  | 2 => "ne"
  | _ => "ns"

/-- The short name of a conditional branch, if it has one. -/
def conditionalName? (bo bi : Nat) : Option String :=
  match bo with
  | 12 => some ("b" ++ conditionName bi)
  | 4 => some ("b" ++ negatedName bi)
  | 16 => some "bdnz"
  | 18 => some "bdz"
  | 20 => some "b"
  | _ => none

def conditionalBranch (w address : UInt32) : Decoded :=
  let bo := rd w
  let bi := ra w
  let goal := Numeral.upperOffset (target w address (shortDisplacement w)).toNat
  match conditionalName? bo bi with
  | none =>
      (if lowBit w then "bcl" else "bc",
        operands [Numeral.decimal bo, Numeral.decimal bi, goal])
  | some name =>
      let field :=
        if 4 ≤ bi ∧ (bo = 12 ∨ bo = 4) then ["cr" ++ Numeral.decimal (bi / 4)] else []
      (if lowBit w then name ++ "l" else name, operands (field ++ [goal]))

/-- Branches to the link and count registers. -/
def branchRegister (w : UInt32) : Decoded :=
  match extendedOpcode w, rd w with
  | 16, 20 => (if lowBit w then "blrl" else "blr", "")
  | 528, 20 => (if lowBit w then "bctrl" else "bctr", "")
  | 150, _ => ("isync", "")
  | _, _ => raw w

def loadStore (w : UInt32) (mnemonic register : String) : Decoded :=
  (mnemonic, operands [register ++ Numeral.decimal (rd w),
    Numeral.signed (simm w) ++ "(" ++ reg (ra w) ++ ")"])

/-- The special register of a move.  The halves of its number are swapped. -/
def specialRegister? (w : UInt32) : Option String :=
  match ra w + 32 * rb w with
  | 1 => some "xer"
  | 8 => some "lr"
  | 9 => some "ctr"
  | _ => none

def moveSpecial (w : UInt32) (mnemonic : String) : Decoded :=
  match specialRegister? w with
  | some name => (mnemonic ++ name, reg (rd w))
  | none => raw w

/-- A mnemonic with a dot if the instruction records its result. -/
def dotted (w : UInt32) (mnemonic : String) : String :=
  if lowBit w then mnemonic ++ "." else mnemonic

def arithmetic (w : UInt32) (mnemonic : String) : Decoded :=
  (dotted w mnemonic, operands [reg (rd w), reg (ra w), reg (rb w)])

def logical (w : UInt32) (mnemonic : String) : Decoded :=
  (dotted w mnemonic, operands [reg (ra w), reg (rd w), reg (rb w)])

def unary (w : UInt32) (mnemonic : String) : Decoded :=
  (dotted w mnemonic, operands [reg (ra w), reg (rd w)])

def indexed (w : UInt32) (mnemonic : String) : Decoded :=
  (mnemonic, operands [reg (rd w), reg (ra w), reg (rb w)])

def compareRegisters (w : UInt32) (mnemonic : String) : Decoded :=
  (mnemonic, operands (conditionField w ++ [reg (ra w), reg (rb w)]))

/-- The instructions with primary opcode 31. -/
def extended (w : UInt32) : Decoded :=
  match extendedOpcode w with
  | 0 => compareRegisters w "cmpw"
  | 32 => compareRegisters w "cmplw"
  | 8 => arithmetic w "subfc"
  | 10 => arithmetic w "addc"
  | 23 => indexed w "lwzx"
  | 24 => logical w "slw"
  | 28 => logical w "and"
  | 40 => arithmetic w "subf"
  | 60 => logical w "andc"
  | 87 => indexed w "lbzx"
  | 104 => (dotted w "neg", operands [reg (rd w), reg (ra w)])
  | 124 => logical w "nor"
  | 136 => arithmetic w "subfe"
  | 138 => arithmetic w "adde"
  | 151 => indexed w "stwx"
  | 215 => indexed w "stbx"
  | 235 => arithmetic w "mullw"
  | 266 => arithmetic w "add"
  | 279 => indexed w "lhzx"
  | 316 => logical w "xor"
  | 339 => moveSpecial w "mf"
  | 407 => indexed w "sthx"
  | 444 => if rd w = rb w then unary w "mr" else logical w "or"
  | 459 => arithmetic w "divwu"
  | 467 => moveSpecial w "mt"
  | 491 => arithmetic w "divw"
  | 536 => logical w "srw"
  | 792 => logical w "sraw"
  | 824 => (dotted w "srawi", operands [reg (ra w), reg (rd w), Numeral.decimal (rb w)])
  | 922 => unary w "extsh"
  | 954 => unary w "extsb"
  | _ => raw w

/-! ## All of them -/

def decodeWord (w address : UInt32) : Decoded :=
  match opcode w with
  | 7 => immediate w "mulli"
  | 8 => immediate w "subfic"
  | 10 => compareImmediate w "cmplwi" (Numeral.decimal (uimm w))
  | 11 => compareImmediate w "cmpwi" (Numeral.signed (simm w))
  | 12 => immediate w "addic"
  | 13 => immediate w "addic."
  | 14 => addImmediate w
  | 15 => addShifted w
  | 16 => conditionalBranch w address
  | 18 => branch w address
  | 19 => branchRegister w
  | 21 => rotate w
  | 24 => orImmediate w
  | 25 => logicalImmediate w "oris"
  | 26 => logicalImmediate w "xori"
  | 27 => logicalImmediate w "xoris"
  | 28 => logicalImmediate w "andi."
  | 29 => logicalImmediate w "andis."
  | 31 => extended w
  | 32 => loadStore w "lwz" "r"
  | 33 => loadStore w "lwzu" "r"
  | 34 => loadStore w "lbz" "r"
  | 35 => loadStore w "lbzu" "r"
  | 36 => loadStore w "stw" "r"
  | 37 => loadStore w "stwu" "r"
  | 38 => loadStore w "stb" "r"
  | 39 => loadStore w "stbu" "r"
  | 40 => loadStore w "lhz" "r"
  | 41 => loadStore w "lhzu" "r"
  | 42 => loadStore w "lha" "r"
  | 43 => loadStore w "lhau" "r"
  | 44 => loadStore w "sth" "r"
  | 45 => loadStore w "sthu" "r"
  | 46 => loadStore w "lmw" "r"
  | 47 => loadStore w "stmw" "r"
  | 48 => loadStore w "lfs" "f"
  | 49 => loadStore w "lfsu" "f"
  | 50 => loadStore w "lfd" "f"
  | 51 => loadStore w "lfdu" "f"
  | 52 => loadStore w "stfs" "f"
  | 53 => loadStore w "stfsu" "f"
  | 54 => loadStore w "stfd" "f"
  | 55 => loadStore w "stfdu" "f"
  | _ => raw w

/-- The instruction that a word is at an address. -/
def decode (w address : UInt32) : Instruction :=
  let (mnemonic, operands) := decodeWord w address
  { address, mnemonic, operands }

end PowerPC

end DwarfOne
