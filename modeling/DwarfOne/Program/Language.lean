/-
# `Program.Language` — the source language of a unit
-/
import DwarfOne.Text.Numeral

namespace DwarfOne

def languageName (value : UInt32) : String :=
  match value with
  | 0x1 => "C89"
  | 0x2 => "C"
  | 0x3 => "Ada 83"
  | 0x4 => "C++"
  | 0x5 => "Cobol 74"
  | 0x6 => "Cobol 85"
  | 0x7 => "Fortran 77"
  | 0x8 => "Fortran 90"
  | 0x9 => "Pascal 83"
  | 0xa => "Modula 2"
  | _ => "language " ++ Numeral.offset value.toNat

end DwarfOne
