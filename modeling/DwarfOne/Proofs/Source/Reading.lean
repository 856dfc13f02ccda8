/-
# `Proofs.Source.Reading` — declarations read back

How C reads a declaration, and C++ with it.  First there may be qualifiers, then comes the
specifier, and the rest is a declarator.  A declarator is read from the name outwards: what
stands behind the name binds tighter than the pointers and references in front of
it, and parentheses hold together what is inside.  So `char (*p)[4]` makes `p` a
pointer to an array, and `char* p[4]` makes it an array of pointers.

In C++ a pointer to a member is marked with the class it belongs to, as in `int C::*p`, and the
name may be that of a member, as in `void C::f()`.

`Declarator` runs over the tokens once.  Parameter lists and dimensions are taken as a
whole, whatever is in them.
-/
import DwarfOne.Proofs.Source.Brackets

namespace DwarfOne

namespace Token

/-- The tokens that are there to be read; one without text leaves no trace. -/
def pushed (ts : List Token) : List Token :=
  ts.filter (!·.text.isEmpty)

def isQualifier (t : Token) : Bool :=
  t = ofKeyword "const" || t = ofKeyword "volatile"

theorem isQualifier_iff {t : Token} :
    t.isQualifier = true ↔ t = ofKeyword "const" ∨ t = ofKeyword "volatile" := by
  rw [isQualifier, Bool.or_eq_true, decide_eq_true_eq, decide_eq_true_eq]

section Pushed

variable {ts ts' : List Token}

@[simp] theorem pushed_nil : pushed [] = [] :=
  rfl

@[simp] theorem pushed_append : pushed (ts ++ ts') = pushed ts ++ pushed ts' :=
  List.filter_append ..

theorem pushed_cons {t : Token} (h : t.text ≠ "") : pushed (t :: ts) = t :: pushed ts :=
  List.filter_cons_of_pos (by simpa [String.isEmpty_iff] using h)

theorem pushed_cons_empty {t : Token} (h : t.text = "") : pushed (t :: ts) = pushed ts :=
  List.filter_cons_of_neg (by simp [h])

@[simp] theorem pushed_ofIdentifier {text : String} (h : text ≠ "") :
    pushed (ofIdentifier text :: ts) = ofIdentifier text :: pushed ts :=
  pushed_cons h

@[simp] theorem pushed_space : pushed (space :: ts) = space :: pushed ts :=
  rfl

/-- A token without text has no brackets. -/
@[simp] theorem after_pushed {stack : List Bracket} : after stack (pushed ts) = after stack ts := by
  induction ts generalizing stack with
  | nil => rfl
  | cons t ts ih =>
      by_cases h : t.text = ""
      · have hmarks : t.marks = [] := by simp [marks, h]
        have hfirst : after stack [t] = some stack := by simp [after, hmarks]
        rw [pushed_cons_empty h, ih, after_cons t, hfirst, Option.bind_some]
      · rw [pushed_cons h]
        show after stack ([t] ++ pushed ts) = after stack ([t] ++ ts)
        simp only [after_append, ih]

/-- It makes no difference to the code. -/
theorem ofTokens_pushed (ts : List Token) : Code.ofTokens (pushed ts) = Code.ofTokens ts := by
  unfold Code.ofTokens
  generalize Code.empty = code
  induction ts generalizing code with
  | nil => rfl
  | cons t ts ih =>
      by_cases h : t.text = ""
      · have hpush : code.push t = code := by simp [Code.push, h]
        rw [pushed_cons_empty h, ih, List.foldl_cons, hpush]
      · rw [pushed_cons h, List.foldl_cons, List.foldl_cons, ih]

end Pushed

end Token

/-- What one part of a declarator makes of a type. -/
inductive Layer
  | pointer
  | reference
  /-- A pointer to a member of a class. -/
  | member (owner : String)
  /-- With what is in the brackets. -/
  | array (size : List Token)
  | function (parameters : List Token)
  deriving DecidableEq, Repr

namespace Layer

/-- A group behind a name. -/
def ofGroup : Bracket → List Token → Layer
  | .round, inside => function inside
  | _, inside => array inside

/-- Whether the part stands in front of the name. -/
def isMark : Layer → Bool
  | pointer | reference | member _ => true
  | array _ | function _ => false

def isMember : Layer → Bool
  | member _ => true
  | _ => false

def isArray : Layer → Bool
  | array _ => true
  | _ => false

end Layer

/-! ## Declarators -/

/-- What has been read of a declarator when its name is known. -/
structure Behind where
  /-- The class in front of the name. -/
  scope : Option String
  name : String
  layers : List Layer
  /-- The marks since the last parenthesis that is open, nearest to the name first. -/
  marks : List Layer
  /-- Those before it, and before the ones around it. -/
  outer : List (List Layer)
  deriving DecidableEq, Repr

/-- How far a declarator has been read. -/
inductive Declarator
  | before (marks : List Layer) (outer : List (List Layer))
  /-- After a class and `::`. -/
  | inside (scope : String) (marks : List Layer) (outer : List (List Layer))
  | behind (b : Behind)
  /-- In a group behind the name, with the brackets open and what was read of it. -/
  | within (b : Behind) (bracket : Bracket) (stack : List Bracket) (read : List Token)
  deriving DecidableEq, Repr

namespace Declarator

open Token

def step : Declarator → Token → Option Declarator
  | before marks outer, t =>
      if t.kind = .identifier then
        some (behind { scope := none, name := t.text, layers := [], marks, outer })
      else if t = ofPunctuation "*" then some (before (.pointer :: marks) outer)
      else if t = ofPunctuation "&" then some (before (.reference :: marks) outer)
      else if t = ofPunctuation "(" ∨ t = ofPunctuation " (" then some (before [] (marks :: outer))
      else if t = space ∨ t.isQualifier then some (before marks outer)
      else none
  | inside scope marks outer, t =>
      if t.kind = .identifier then
        some (behind { scope := some scope, name := t.text, layers := [], marks, outer })
      else none
  | behind b, t =>
      if t = ofPunctuation "(" then some (within b .round [.round] [])
      else if t = ofPunctuation "[" then some (within b .square [.square] [])
      else if t = ofPunctuation ")" then
        match b.outer with
        | [] => none
        | marks :: outer => some (behind { b with layers := b.layers ++ b.marks, marks, outer })
      -- what was taken for the name is that of a class
      else if t = ofPunctuation "::*" ∧ b.layers = [] then
        some (before (.member b.name :: b.marks) b.outer)
      else if t = ofPunctuation "::" ∧ b.layers = [] then some (inside b.name b.marks b.outer)
      else none
  | within b bracket stack read, t =>
      match after stack [t] with
      | none => none
      | some [] => some (behind { b with layers := b.layers ++ [.ofGroup bracket read] })
      | some stack => some (within b bracket stack (read ++ [t]))

def run (r : Declarator) (ts : List Token) : Option Declarator :=
  ts.foldlM step r

/-- The class, the name and the layers, once everything has been read. -/
def finish : Declarator → Option (Option String × String × List Layer)
  | behind ⟨scope, name, layers, marks, []⟩ => some (scope, name, layers ++ marks)
  | _ => none

variable {r : Declarator} {b : Behind} {marks : List Layer} {outer : List (List Layer)}
  {ts ts' : List Token}

@[simp] theorem run_nil : run r [] = some r :=
  rfl

@[simp] theorem run_append : run r (ts ++ ts') = (run r ts).bind (run · ts') := by
  rw [run, List.foldlM_append]
  rfl

theorem run_cons (t : Token) : run r (t :: ts) = (step r t).bind (run · ts) :=
  rfl

theorem run_closing {scope : Option String} {name : String} {layers around : List Layer} :
    run (behind { scope, name, layers, marks, outer := around :: outer })
        (ofPunctuation ")" :: ts) =
      run (behind { scope, name, layers := layers ++ marks, marks := around, outer }) ts :=
  rfl

/-- Inside a group nothing ends it, as long as what is opened there is still open. -/
theorem run_within {bracket : Bracket} {stack stack' : List Bracket} (read : List Token)
    (h : after stack ts = some stack') :
    run (within b bracket (stack ++ [bracket]) read) ts =
      some (within b bracket (stack' ++ [bracket]) (read ++ ts)) := by
  induction ts generalizing stack read with
  | nil =>
      cases h
      simp
  | cons t ts ih =>
      rw [after_cons] at h
      obtain ⟨between, hfirst, hrest⟩ := Option.bind_eq_some_iff.mp h
      have hstep : step (within b bracket (stack ++ [bracket]) read) t =
          some (within b bracket (between ++ [bracket]) (read ++ [t])) := by
        rw [step, after_outer hfirst [bracket]]
        cases between <;> rfl
      rw [run_cons, hstep, Option.bind_some, ih (read ++ [t]) hrest, List.append_assoc]
      rfl

/-- A group is one layer. -/
theorem run_group (bracket : Bracket) {opening closing : Token} (h : Balanced ts)
    (hopening : step (behind b) opening = some (within b bracket [bracket] []))
    (hclosing : after [bracket] [closing] = some []) :
    run (behind b) ([opening] ++ ts ++ [closing]) =
      some (behind { b with layers := b.layers ++ [.ofGroup bracket ts] }) := by
  have hread : run (within b bracket [bracket] []) ts = some (within b bracket [bracket] ts) :=
    run_within [] (h [])
  have hend : step (within b bracket [bracket] ts) closing =
      some (behind { b with layers := b.layers ++ [.ofGroup bracket ts] }) := by
    rw [step, hclosing]
  simp only [List.singleton_append, run_cons, hopening, Option.bind_some, run_append, hread, hend,
    run_nil]

end Declarator

/-! ## Specifiers -/

open Token

/-- How far it has been looked for the end of a specifier.  What is in braces belongs
to it, and everything before. -/
structure SpecifierScan where
  stack : List Bracket
  specifier : List Token
  rest : List Token
  deriving DecidableEq, Repr

namespace SpecifierScan

/-- Braces that close with nothing else open end a specifier, until there are others. -/
def step (scan : SpecifierScan) (t : Token) : Option SpecifierScan :=
  (after scan.stack [t]).map fun stack =>
    if stack = [] ∧ t = ofPunctuation "\x7d" then
      { stack, specifier := scan.specifier ++ scan.rest ++ [t], rest := [] }
    else { scan with stack, rest := scan.rest ++ [t] }

def run (scan : SpecifierScan) (ts : List Token) : Option SpecifierScan :=
  ts.foldlM step scan

/-- Tokens that take the open brackets from one list to another, and end no
specifier. -/
def Passes (stack : List Bracket) (ts : List Token) (stack' : List Bracket) : Prop :=
  ∀ specifier rest, run { stack, specifier, rest } ts =
    some { stack := stack', specifier, rest := rest ++ ts }

variable {stack stack' stack'' : List Bracket} {ts ts' : List Token}

theorem run_append (scan : SpecifierScan) :
    run scan (ts ++ ts') = (run scan ts).bind (run · ts') := by
  rw [run, List.foldlM_append]
  rfl

theorem Passes.append (h : Passes stack ts stack') (h' : Passes stack' ts' stack'') :
    Passes stack (ts ++ ts') stack'' := by
  intro specifier rest
  rw [run_append, h, Option.bind_some, h', List.append_assoc]

theorem passes_nil (stack : List Bracket) : Passes stack [] stack := by
  intro specifier rest
  rw [List.append_nil]
  rfl

/-- Only a brace can end a specifier. -/
theorem passes_singleton {t : Token} (h : after stack [t] = some stack')
    (ht : t ≠ ofPunctuation "\x7d") : Passes stack [t] stack' := by
  intro specifier rest
  simp [run, step, h, ht]

/-- Inside brackets nothing ends a specifier. -/
theorem passes_inside {bracket : Bracket} (outer : List Bracket)
    (h : after stack ts = some stack') :
    Passes (stack ++ bracket :: outer) ts (stack' ++ bracket :: outer) := by
  induction ts generalizing stack with
  | nil =>
      cases h
      exact passes_nil _
  | cons t ts ih =>
      rw [after_cons] at h
      obtain ⟨between, hfirst, hrest⟩ := Option.bind_eq_some_iff.mp h
      have hopen : between ++ bracket :: outer ≠ [] := by simp
      have hhead : Passes (stack ++ bracket :: outer) [t] (between ++ bracket :: outer) := by
        intro specifier rest
        simp [run, step, after_outer hfirst, hopen]
      exact hhead.append (ih hrest)

/-- A group in brackets other than braces ends no specifier. -/
theorem passes_group {bracket : Bracket} {opening closing : Token} (h : Balanced ts)
    (hopening : Passes stack [opening] (bracket :: stack))
    (hclosing : Passes (bracket :: stack) [closing] stack) :
    Passes stack ([opening] ++ ts ++ [closing]) stack :=
  (hopening.append (passes_inside stack (h []))).append hclosing

/-- Looking for the end of a specifier loses nothing. -/
theorem exists_run (scan : SpecifierScan) (h : after scan.stack ts = some stack) :
    ∃ scan', run scan ts = some scan' ∧ scan'.stack = stack ∧
      scan'.specifier ++ scan'.rest = scan.specifier ++ scan.rest ++ ts := by
  induction ts generalizing scan with
  | nil =>
      cases h
      exact ⟨scan, rfl, rfl, (List.append_nil _).symm⟩
  | cons t ts ih =>
      rw [after_cons] at h
      obtain ⟨between, hfirst, hrest⟩ := Option.bind_eq_some_iff.mp h
      obtain ⟨next, hnext, hstack, htokens⟩ : ∃ next, step scan t = some next ∧
          next.stack = between ∧
          next.specifier ++ next.rest = scan.specifier ++ scan.rest ++ [t] := by
        rw [step, hfirst]
        refine ⟨_, rfl, ?_⟩
        dsimp only
        split
        · exact ⟨rfl, List.append_nil _⟩
        · exact ⟨rfl, (List.append_assoc ..).symm⟩
      rw [← hstack] at hrest
      obtain ⟨scan', hrun, hend, hall⟩ := ih next hrest
      refine ⟨scan', ?_, hend, ?_⟩
      · show (step scan t).bind (run · ts) = some scan'
        rw [hnext, Option.bind_some, hrun]
      · rw [hall, htokens, List.append_assoc _ [t]]
        rfl

/-- Where a brace closes with nothing else open, everything before is specifier. -/
theorem run_body {inner : List Token} (h : after [] inner = some [.curly]) :
    run { stack := [], specifier := [], rest := [] } (inner ++ [ofPunctuation "\x7d"]) =
      some { stack := [], specifier := inner ++ [ofPunctuation "\x7d"], rest := [] } := by
  obtain ⟨scan, hrun, hstack, htokens⟩ := exists_run { stack := [], specifier := [], rest := [] } h
  have hclosing : step scan (ofPunctuation "\x7d") =
      some { stack := [], specifier := scan.specifier ++ scan.rest ++ [ofPunctuation "\x7d"]
             rest := [] } := by
    rw [step, hstack]
    rfl
  rw [run_append, hrun, Option.bind_some]
  show (step scan _).bind some = _
  rw [hclosing, htokens]
  rfl

end SpecifierScan

/-- Whether a declarator without marks begins: a name with dimensions at most. -/
def beginsWithName : List Token → Bool
  | [] => false
  | [t] => t.kind = .identifier
  | t :: t' :: _ => t.kind = .identifier && t' = ofPunctuation "["

/-- Qualifiers in front are of no interest.  One that is followed by the name is all
the specifier there is. -/
def dropQualifiers : List Token → List Token
  | t :: t' :: rest =>
      if t.isQualifier && t' = space && !beginsWithName rest then dropQualifiers rest
      else t :: t' :: rest
  | ts => ts

/-- The specifier and the rest.  Without braces it is one word. -/
def splitSpecifier (ts : List Token) : Option (List Token × List Token) := do
  let scan ← SpecifierScan.run { stack := [], specifier := [], rest := [] } ts
  match scan.specifier, scan.rest with
  | [], t :: rest => some ([t], rest)
  | [], [] => none
  | specifier, rest => some (specifier, rest)

/-- What a declaration says. -/
structure Reading where
  /-- The class whose member is declared. -/
  scope : Option String
  name : String
  /-- From the name outwards. -/
  layers : List Layer
  specifier : List Token
  deriving DecidableEq, Repr

def Reading.ofTokens? (ts : List Token) : Option Reading := do
  let (specifier, declarator) ← splitSpecifier (dropQualifiers ts)
  let read ← (Declarator.before [] []).run declarator
  let (scope, name, layers) ← read.finish
  return { scope, name, layers, specifier }

end DwarfOne
