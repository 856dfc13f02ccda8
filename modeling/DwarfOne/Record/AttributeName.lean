/-
# `Record.AttributeName` — what an attribute says of its record

The low four bits of an attribute's sixteen bit name are its form.  Most
attributes come in one form only and are told apart by all sixteen bits; four
of them come in several and are told apart by the upper twelve.
-/
import DwarfOne.Text.Numeral

namespace DwarfOne

inductive AttributeName
  | sibling
  | location
  | name
  | fundType
  | modFundType
  | userDefType
  | modUserDefType
  | ordering
  | subscrData
  | byteSize
  | bitOffset
  | bitSize
  | elementList
  | stmtList
  | lowPc
  | highPc
  | language
  | member
  | discr
  | discrValue
  | stringLength
  | commonReference
  | compDir
  | containingType
  | friends
  | isInline
  | isOptional
  | program
  | privateAccess
  | producer
  | protectedAccess
  | prototyped
  | publicAccess
  | pureVirtual
  | returnAddress
  | specification
  | startScope
  | strideSize
  | isVirtual
  | mangled
  | restoreSP
  | globalRef
  | globalRefByName
  | constValue
  | defaultValue
  | lowerBound
  | upperBound
  /-- In the range left to compilers. -/
  | user (value : UInt16)
  | unknown (value : UInt16)
  deriving DecidableEq, Repr

namespace AttributeName

/-- Attributes that come in several forms, by the upper twelve bits. -/
def ofUpperBits (value : UInt16) : AttributeName :=
  match value &&& 0xfff0 with
  | 0x01c0 => .constValue
  | 0x01e0 => .defaultValue
  | 0x0220 => .lowerBound
  | 0x02f0 => .upperBound
  | upper => if 0x2000 ≤ upper ∧ upper ≤ 0x3ff0 then .user value else .unknown value

def ofValue (value : UInt16) : AttributeName :=
  match value with
  | 0x0012 => .sibling
  | 0x0023 => .location
  | 0x0038 => .name
  | 0x0055 => .fundType
  | 0x0063 => .modFundType
  | 0x0072 => .userDefType
  | 0x0083 => .modUserDefType
  | 0x0095 => .ordering
  | 0x00a3 => .subscrData
  | 0x00b6 => .byteSize
  | 0x00c5 => .bitOffset
  | 0x00d6 => .bitSize
  | 0x00f4 => .elementList
  | 0x0106 => .stmtList
  | 0x0111 => .lowPc
  | 0x0121 => .highPc
  | 0x0136 => .language
  | 0x0142 => .member
  | 0x0152 => .discr
  | 0x0163 => .discrValue
  | 0x0193 => .stringLength
  | 0x01a2 => .commonReference
  | 0x01b8 => .compDir
  | 0x01d2 => .containingType
  | 0x01f3 => .friends
  | 0x0208 => .isInline
  | 0x0218 => .isOptional
  | 0x0238 => .program
  | 0x0248 => .privateAccess
  | 0x0258 => .producer
  | 0x0268 => .protectedAccess
  | 0x0278 => .prototyped
  | 0x0288 => .publicAccess
  | 0x0298 => .pureVirtual
  | 0x02a3 => .returnAddress
  | 0x02b2 => .specification
  | 0x02c6 => .startScope
  | 0x02e6 => .strideSize
  | 0x0308 => .isVirtual
  | 0x2008 => .mangled
  | 0x2014 => .restoreSP
  | 0x2022 => .globalRef
  | 0x2038 => .globalRefByName
  | _ => ofUpperBits value

/-- The name the format gives the attribute, without its common beginning. -/
def suffix : AttributeName → String
  | .sibling => "sibling"
  | .location => "location"
  | .name => "name"
  | .fundType => "fund_type"
  | .modFundType => "mod_fund_type"
  | .userDefType => "user_def_type"
  | .modUserDefType => "mod_u_d_type"
  | .ordering => "ordering"
  | .subscrData => "subscr_data"
  | .byteSize => "byte_size"
  | .bitOffset => "bit_offset"
  | .bitSize => "bit_size"
  | .elementList => "element_list"
  | .stmtList => "stmt_list"
  | .lowPc => "low_pc"
  | .highPc => "high_pc"
  | .language => "language"
  | .member => "member"
  | .discr => "discr"
  | .discrValue => "discr_value"
  | .stringLength => "string_length"
  | .commonReference => "common_reference"
  | .compDir => "comp_dir"
  | .containingType => "containing_type"
  | .friends => "friends"
  | .isInline => "inline"
  | .isOptional => "is_optional"
  | .program => "program"
  | .privateAccess => "private"
  | .producer => "producer"
  | .protectedAccess => "protected"
  | .prototyped => "prototyped"
  | .publicAccess => "public"
  | .pureVirtual => "pure_virtual"
  | .returnAddress => "return_addr"
  | .specification => "specification"
  | .startScope => "start_scope"
  | .strideSize => "stride_size"
  | .isVirtual => "virtual"
  | .mangled => "MW_mangled"
  | .restoreSP => "MW_restore_SP"
  | .globalRef => "MW_global_ref"
  | .globalRefByName => "MW_global_ref_by_name"
  | .constValue => "const_value"
  | .defaultValue => "default_value"
  | .lowerBound => "lower_bound"
  | .upperBound => "upper_bound"
  | .user value => "user_" ++ Numeral.offset value.toNat
  | .unknown value => Numeral.offset value.toNat

/-- `DW_AT_name`. -/
def text (a : AttributeName) : String :=
  "DW_AT_" ++ a.suffix

/-- The attributes that give a record its type. -/
def isType : AttributeName → Bool
  | .fundType | .userDefType | .modFundType | .modUserDefType => true
  | _ => false

end AttributeName

end DwarfOne
