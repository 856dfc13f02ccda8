/-
# `Source.Settings` — what rendered source shows

The remarks are comments beside the code; turning any of them on or off
leaves the code alone.
-/
import DwarfOne.Source.Fundamental

namespace DwarfOne

/-- Which comments accompany the code. -/
structure Remarks where
  /-- Where each record is. -/
  entryOffsets : Bool
  classSizes : Bool
  memberOffsets : Bool
  memberBitOffsets : Bool
  memberBitSizes : Bool
  variableAddresses : Bool
  variableMangledNames : Bool
  functionMangledNames : Bool
  functionAddresses : Bool
  functionSizes : Bool
  /-- Where parameters and local variables are kept. -/
  variableLocations : Bool
  deriving DecidableEq, Repr

namespace Remarks

def all : Remarks :=
  { entryOffsets := true, classSizes := true, memberOffsets := true, memberBitOffsets := true
    memberBitSizes := true, variableAddresses := true, variableMangledNames := true
    functionMangledNames := true, functionAddresses := true, functionSizes := true
    variableLocations := true }

def none : Remarks :=
  { entryOffsets := false, classSizes := false, memberOffsets := false, memberBitOffsets := false
    memberBitSizes := false, variableAddresses := false, variableMangledNames := false
    functionMangledNames := false, functionAddresses := false, functionSizes := false
    variableLocations := false }

end Remarks

structure SourceSettings where
  classes : Bool
  enums : Bool
  arrays : Bool
  routineTypes : Bool
  memberPointers : Bool
  vars : Bool
  declarations : Bool
  definitions : Bool
  remarks : Remarks
  /-- By name, whatever the case. -/
  sortTypes : Bool
  /-- By address. -/
  sortFunctions : Bool
  /-- Whether types with made-up names, which start with `@`, are written
  where they are used. -/
  inlineAnonymous : Bool
  hexEnumerators : Bool
  /-- Whether every enumerator shows its value. -/
  explicitEnumerators : Bool
  /-- Whether definitions show their instructions. -/
  disassembly : Bool
  fundamentals : FundamentalNames
  deriving DecidableEq

namespace SourceSettings

def default : SourceSettings :=
  { classes := true, enums := true, arrays := true, routineTypes := true, memberPointers := true
    vars := true, declarations := true, definitions := true, remarks := .all
    sortTypes := false, sortFunctions := false, inlineAnonymous := true, hexEnumerators := false
    explicitEnumerators := false, disassembly := false, fundamentals := .default }

end SourceSettings

end DwarfOne
