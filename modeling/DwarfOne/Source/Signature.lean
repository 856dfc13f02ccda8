/-
# `Source.Signature` — how functions are declared

A member function that is not static takes the object it is called on as a
parameter called `this`.  That parameter decides whether the function is
`static` or `const`, and is not itself shown.
-/
import DwarfOne.Source.Declarator
import DwarfOne.Source.SpecialName

namespace DwarfOne.Source

open Token

variable (s : Source) (nested : Nested)

/-- A parameter; a definition may say where it is kept. -/
def parameter (indent : Nat) (isDefinition : Bool) (p : Local) :
    Except RenderError (List Token) := do
  let declared ← s.declaration nested indent p.type p.name
  let kept :=
    match p.location with
    | some location =>
        if isDefinition && s.settings.remarks.variableLocations then [space, aside location.text]
        else []
    | none => []
  return declared ++ kept

/-- The parameters in parentheses. -/
def parameters (indent : Nat) (isDefinition : Bool) (r : RoutineType) :
    Except RenderError (List Token) := do
  let shown := r.parameters.filter (·.name ≠ "this")
  let each ← shown.mapM (s.parameter nested indent isDefinition)
  let all := if r.variadic then each ++ [[ofPunctuation "..."]] else each
  return [ofPunctuation "("] ++ (all.intersperse [ofPunctuation ", "]).flatten ++
    [ofPunctuation ")"]

/-- Whether a function is declared `static`. -/
def isStatic (f : Function) (insideClass : Bool) : Bool :=
  match f.owner with
  | none => !f.isGlobal
  | some _ => f.this?.isNone && insideClass

/-- Constructors and destructors have no return type to show. -/
def showsReturnType (f : Function) : Bool :=
  match SpecialName.of? f.name with
  | some .constructor | some .destructor => false
  | _ => true

/-- The return type and a space, if it is shown. -/
def returnPart (indent : Nat) (f : Function) : Except RenderError (List Token) :=
  if showsReturnType f then do
    return (← s.typeName nested indent f.signature.returnType) ++ [space]
  else return []

/-- Everything up to the semicolon or the body. -/
def signature (indent : Nat) (f : Function) (isDefinition insideClass : Bool) :
    Except RenderError (List Token) := do
  let static := if isStatic f insideClass then [ofKeyword "static", space] else []
  let inlined := if f.isInline then [ofKeyword "inline", space] else []
  let returned ← s.returnPart nested indent f
  let owner ← f.owner.mapM s.nameOf
  let qualified :=
    match owner with
    | some owner => if insideClass then [] else [ofIdentifier owner, ofPunctuation "::"]
    | none => []
  let name := ofIdentifier (SpecialName.display f.name owner)
  let parameters ← s.parameters nested indent isDefinition f.signature
  let const :=
    match f.this? with
    | some this => if this.type.isConst then [space, ofKeyword "const"] else []
    | none => []
  return static ++ inlined ++ returned ++ qualified ++ [name] ++ parameters ++ const

def functionDeclaration (indent : Nat) (f : Function) (insideClass : Bool) :
    Except RenderError (List Token) := do
  return (← s.signature nested indent f false insideClass) ++ [ofPunctuation ";"]

end DwarfOne.Source
