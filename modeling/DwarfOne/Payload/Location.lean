/-
# `Payload.Location` — where a value lives

A location is a short program for a stack machine.  The four programs
compilers write for plain variables are folded to what they mean; any other
is kept as it is.
-/
import DwarfOne.Payload.Error

namespace DwarfOne

inductive LocationOp
  | reg (n : UInt32)
  | baseReg (n : UInt32)
  | addr (n : UInt32)
  | const (n : UInt32)
  | deref2
  | deref
  | add
  | unknown (opcode : UInt8)
  deriving DecidableEq, Repr

namespace LocationOp

/-- The next operation.  What follows an unknown one cannot be told apart
from its operand, so it takes the rest of the block with it. -/
def read : Reader PayloadError LocationOp := do
  match ← Reader.byte with
  | 1 => return .reg (← Reader.word)
  | 2 => return .baseReg (← Reader.word)
  | 3 => return .addr (← Reader.word)
  | 4 => return .const (← Reader.word)
  | 5 => return .deref2
  | 6 => return .deref
  | 7 => return .add
  | opcode =>
      modify fun c => c.advance c.remaining
      return .unknown opcode

def text : LocationOp → String
  | .reg n => "OP_REG(" ++ Numeral.decimal n.toNat ++ ")"
  | .baseReg n => "OP_BASEREG(" ++ Numeral.decimal n.toNat ++ ")"
  | .addr n => "OP_ADDR(" ++ Numeral.upperOffset n.toNat ++ ")"
  | .const n => "OP_CONST(" ++ Numeral.decimal n.toNat ++ ")"
  | .deref2 => "OP_DEREF2"
  | .deref => "OP_DEREF"
  | .add => "OP_ADD"
  | .unknown opcode => "OP_" ++ Numeral.offset opcode.toNat

end LocationOp

inductive Location
  | register (n : UInt32)
  | address (n : UInt32)
  | constant (n : UInt32)
  /-- At an offset from the value of a register. -/
  | baseOffset (base : UInt32) (offset : Int32)
  | unrecognized (ops : List LocationOp)
  deriving DecidableEq, Repr

namespace Location

/-- The meaning of a program, if it is one of those folded. -/
def fold : List LocationOp → Location
  | [.reg n] => .register n
  | [.addr n] => .address n
  | [.const n] => .constant n
  | [.const n, .add] => .constant n
  | [.baseReg r, .const n, .add] => .baseOffset r n.toInt32
  | ops => .unrecognized ops

def decode (order : ByteOrder) (block : List UInt8) : Except PayloadError Location :=
  fold <$> (Reader.toEnd LocationOp.read).on (.ofBytes order block 0)

def text : Location → String
  | .register n => "r" ++ Numeral.decimal n.toNat
  | .address n => Numeral.upperOffset n.toNat
  | .constant n => Numeral.decimal n.toNat
  | .baseOffset base offset =>
      Numeral.signed offset.toInt ++ "(r" ++ Numeral.decimal base.toNat ++ ")"
  | .unrecognized ops => " ".intercalate (ops.map LocationOp.text)

end Location

end DwarfOne
