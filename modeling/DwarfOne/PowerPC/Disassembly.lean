/-
# `PowerPC.Disassembly` — the instructions of a stretch of code

The code must lie in the file bytes of one load segment.  Which instruction
set it is in is the image's to say.
-/
import DwarfOne.Image.Basic
import DwarfOne.PowerPC.Instruction

namespace DwarfOne

inductive DisassemblyError
  | unsupported (machine : UInt16)
  | unmapped (start stop : UInt32)
  deriving DecidableEq, Repr

def DisassemblyError.message : DisassemblyError → String
  | .unsupported machine => "no disassembler for machine " ++ Numeral.decimal machine.toNat
  | .unmapped start stop =>
      "address range " ++ Numeral.offset start.toNat ++ ".." ++ Numeral.offset stop.toNat ++
        " isn't mapped"

/-- The instructions from one address up to another. -/
abbrev Disassembler := Image → UInt32 → UInt32 → Except DisassemblyError (List Instruction)

/-- The bytes from one address up to another. -/
def Image.code (image : Image) (start stop : UInt32) : Except DisassemblyError (List UInt8) :=
  if stop < start then .error (.unmapped start stop)
  else
    match image.dataAt? start with
    | none => .error (.unmapped start stop)
    | some bytes =>
        let size := (stop - start).toNat
        if bytes.length < size then .error (.unmapped start stop)
        else .ok (bytes.take size)

namespace PowerPC

/-- One instruction for each four bytes; fewer at the end are left over. -/
def decodeAll (order : ByteOrder) (address : UInt32) : List UInt8 → List Instruction
  | a :: b :: c :: d :: rest =>
      decode (UInt32.ofNat (order.value [a, b, c, d])) address ::
        decodeAll order (address + 4) rest
  | _ => []

def disassemble : Disassembler := fun image start stop => do
  return decodeAll image.order start (← image.code start stop)

end PowerPC

/-- The disassembler for a machine. -/
def Disassembler.forMachine (machine : UInt16) : Except DisassemblyError Disassembler :=
  if machine = 20 then .ok PowerPC.disassemble else .error (.unsupported machine)

end DwarfOne
