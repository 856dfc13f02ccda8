/-
# `Record.Error` — why debug sections cannot be decoded

All of these but the first mean that the sections are damaged.
-/
import DwarfOne.Bytes.Cursor

namespace DwarfOne

inductive DebugError
  /-- The image simply has no debug information. -/
  | sectionNotFound (name : String)
  | truncated (cause : OutOfBounds)
  | recordOverrun (offset : Nat) (length : UInt32) (stop : Nat)
  | unknownForm (name : UInt16) (offset : Nat) (form : UInt16)
  | badLineTable (offset : Nat) (length : UInt32)
  deriving DecidableEq, Repr

def DebugError.message : DebugError → String
  | .sectionNotFound name => "no " ++ name ++ " section"
  | .truncated cause => "debug data is truncated: " ++ cause.message
  | .recordOverrun offset length stop =>
      "record at offset " ++ Numeral.offset offset ++ " claims " ++
        Numeral.decimal length.toNat ++ " bytes but the section ends at " ++
        Numeral.offset stop
  | .unknownForm name offset form =>
      "attribute " ++ Numeral.offset name.toNat ++ " at offset " ++ Numeral.offset offset ++
        " has unknown form " ++ Numeral.decimal form.toNat
  | .badLineTable offset length =>
      "line table at offset " ++ Numeral.offset offset ++ " has bad length " ++
        Numeral.decimal length.toNat

/-- A section reader takes the plain reads as they are. -/
instance : MonadLift (Reader OutOfBounds) (Reader DebugError) where
  monadLift r := r.mapError .truncated

end DwarfOne
