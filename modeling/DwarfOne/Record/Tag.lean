/-
# `Record.Tag` — what a record describes

Sixteen bits after a record's length say what kind of thing it is.  Values
the format does not assign are kept, with a range of them set aside for
compilers.
-/
import DwarfOne.Text.Numeral

namespace DwarfOne

inductive Tag
  | padding
  | arrayType
  | classType
  | entryPoint
  | enumerationType
  | formalParameter
  | globalSubroutine
  | globalVariable
  | label
  | lexicalBlock
  | localVariable
  | member
  | pointerType
  | referenceType
  | compileUnit
  | stringType
  | structureType
  | subroutine
  | subroutineType
  | typedef
  | unionType
  | unspecifiedParameters
  | variant
  | commonBlock
  | commonInclusion
  | inheritance
  | inlinedSubroutine
  | module
  | pointerToMemberType
  | setType
  | subrangeType
  | withStatement
  /-- In the range left to compilers. -/
  | user (value : UInt16)
  | unknown (value : UInt16)
  deriving DecidableEq, Repr

namespace Tag

def ofValue (value : UInt16) : Tag :=
  match value with
  | 0x00 => .padding
  | 0x01 => .arrayType
  | 0x02 => .classType
  | 0x03 => .entryPoint
  | 0x04 => .enumerationType
  | 0x05 => .formalParameter
  | 0x06 => .globalSubroutine
  | 0x07 => .globalVariable
  | 0x0a => .label
  | 0x0b => .lexicalBlock
  | 0x0c => .localVariable
  | 0x0d => .member
  | 0x0f => .pointerType
  | 0x10 => .referenceType
  | 0x11 => .compileUnit
  | 0x12 => .stringType
  | 0x13 => .structureType
  | 0x14 => .subroutine
  | 0x15 => .subroutineType
  | 0x16 => .typedef
  | 0x17 => .unionType
  | 0x18 => .unspecifiedParameters
  | 0x19 => .variant
  | 0x1a => .commonBlock
  | 0x1b => .commonInclusion
  | 0x1c => .inheritance
  | 0x1d => .inlinedSubroutine
  | 0x1e => .module
  | 0x1f => .pointerToMemberType
  | 0x20 => .setType
  | 0x21 => .subrangeType
  | 0x22 => .withStatement
  | _ => if 0x4080 ≤ value then .user value else .unknown value

/-- The name the format gives the tag, without its common beginning. -/
def suffix : Tag → String
  | .padding => "padding"
  | .arrayType => "array_type"
  | .classType => "class_type"
  | .entryPoint => "entry_point"
  | .enumerationType => "enumeration_type"
  | .formalParameter => "formal_parameter"
  | .globalSubroutine => "global_subroutine"
  | .globalVariable => "global_variable"
  | .label => "label"
  | .lexicalBlock => "lexical_block"
  | .localVariable => "local_variable"
  | .member => "member"
  | .pointerType => "pointer_type"
  | .referenceType => "reference_type"
  | .compileUnit => "compile_unit"
  | .stringType => "string_type"
  | .structureType => "structure_type"
  | .subroutine => "subroutine"
  | .subroutineType => "subroutine_type"
  | .typedef => "typedef"
  | .unionType => "union_type"
  | .unspecifiedParameters => "unspecified_parameters"
  | .variant => "variant"
  | .commonBlock => "common_block"
  | .commonInclusion => "common_inclusion"
  | .inheritance => "inheritance"
  | .inlinedSubroutine => "inlined_subroutine"
  | .module => "module"
  | .pointerToMemberType => "ptr_to_member_type"
  | .setType => "set_type"
  | .subrangeType => "subrange_type"
  | .withStatement => "with_stmt"
  | .user value => "user_" ++ Numeral.offset value.toNat
  | .unknown value => Numeral.offset value.toNat

/-- `DW_TAG_member`. -/
def text (t : Tag) : String :=
  "DW_TAG_" ++ t.suffix

end Tag

end DwarfOne
