/-
# `Source.SpecialName` — constructors, destructors and operators

Compilers record these functions under short reserved names.  They are shown
as what the programmer wrote.
-/
namespace DwarfOne

inductive SpecialName
  | constructor
  | destructor
  | operator (text : String)
  deriving DecidableEq, Repr

namespace SpecialName

def operators : List (String × String) :=
  [("__nw", "operator new"), ("__dl", "operator delete"),
   ("__nwa", "operator new[]"), ("__dla", "operator delete[]"),
   ("__as", "operator="), ("__pl", "operator+"), ("__mi", "operator-"),
   ("__ml", "operator*"), ("__dv", "operator/"), ("__md", "operator%"),
   ("__er", "operator^"), ("__ad", "operator&"), ("__or", "operator|"),
   ("__co", "operator~"), ("__nt", "operator!"), ("__lt", "operator<"),
   ("__gt", "operator>"), ("__apl", "operator+="), ("__ami", "operator-="),
   ("__amu", "operator*="), ("__adv", "operator/="), ("__amd", "operator%="),
   ("__aer", "operator^="), ("__aad", "operator&="), ("__aor", "operator|="),
   ("__ls", "operator<<"), ("__rs", "operator>>"), ("__als", "operator<<="),
   ("__ars", "operator>>="), ("__eq", "operator=="), ("__ne", "operator!="),
   ("__le", "operator<="), ("__ge", "operator>="), ("__aa", "operator&&"),
   ("__oo", "operator||"), ("__pp", "operator++"), ("__mm", "operator--"),
   ("__cm", "operator,"), ("__rm", "operator->*"), ("__rf", "operator->"),
   ("__cl", "operator()"), ("__vc", "operator[]")]

def of? (name : String) : Option SpecialName :=
  if name = "__ct" then some .constructor
  else if name = "__dt" then some .destructor
  else (operators.lookup name).map .operator

/-- The name to show for a function, given the name of its class if it has
one. -/
def display (name : String) (owner : Option String) : String :=
  match of? name, owner with
  | some .constructor, some owner => owner
  | some .destructor, some owner => "~" ++ owner
  | some (.operator text), _ => text
  | _, _ => name

end SpecialName

end DwarfOne
