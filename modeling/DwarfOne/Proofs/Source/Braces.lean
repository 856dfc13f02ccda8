/-
# `Proofs.Source.Braces` — what stands in braces

A class or an enumeration is printed as a head and a body in braces.  The body is found among
the letters of the code, without looking at who printed it: it is what stands in the last pair
of braces that is in no other brackets (`BodyScan`).  The head may have braces of its own, since
a base may be written out there.
-/
import DwarfOne.Proofs.Source.Delimiters

namespace DwarfOne

open Token

/-- A character of source text, with the kind of the token it stands in. -/
abbrev Letter := TokenKind × Char

namespace Letter

/-- The brackets that are open after one more letter. -/
def step (stack : List Bracket) (l : Letter) : Option (List Bracket) :=
  if l.1 = .punctuation then Bracket.step stack l.2 else some stack

def after (stack : List Bracket) (ls : List Letter) : Option (List Bracket) :=
  ls.foldlM step stack

variable {stack stack' : List Bracket} {l : Letter} {ls : List Letter}

theorem step_outer (h : step stack l = some stack') (outer : List Bracket) :
    step (stack ++ outer) l = some (stack' ++ outer) := by
  unfold step at h ⊢
  split at h
  case isTrue hkind =>
      rw [if_pos hkind]
      exact Bracket.step_outer h outer
  case isFalse hkind =>
      cases h
      rw [if_neg hkind]

theorem after_cons : after stack (l :: ls) = (step stack l).bind (after · ls) :=
  rfl

/-- Brackets are opened and closed by letters as they are by tokens. -/
theorem after_letters (stack : List Bracket) (ts : List Token) :
    after stack (ts.flatMap letters) = Token.after stack ts := by
  rw [Token.after, flatMap_marks]
  generalize ts.flatMap letters = ls
  induction ls generalizing stack with
  | nil => rfl
  | cons l ls ih =>
      rw [after_cons, step]
      by_cases hkind : l.1 = .punctuation
      · simp only [List.filterMap_cons, if_pos hkind, List.foldlM_cons, ih]
        rfl
      · simp only [List.filterMap_cons, if_neg hkind, Option.bind_some, ih]

end Letter

/-- A run over letters in search of a body. -/
structure BodyScan where
  stack : List Bracket
  /-- What was read since a bracket was opened that is in no other. -/
  inside : List Letter
  /-- What stood in the last braces that were closed. -/
  body : Option (List Letter)

namespace BodyScan

def step (scan : BodyScan) (l : Letter) : Option BodyScan := do
  let stack ← l.step scan.stack
  if scan.stack = [] then return { scan with stack, inside := [] }
  else if scan.stack = [.curly] ∧ stack = [] then
    return { stack, inside := [], body := some scan.inside }
  else return { scan with stack, inside := scan.inside ++ [l] }

def run (scan : BodyScan) (ls : List Letter) : Option BodyScan :=
  ls.foldlM step scan

variable {stack stack' : List Bracket} {inside : List Letter} {body : Option (List Letter)}
  {ls ls' : List Letter}

theorem run_append (scan : BodyScan) :
    scan.run (ls ++ ls') = (scan.run ls).bind (·.run ls') :=
  List.foldlM_append

/-- Something is read, whatever it is. -/
theorem exists_run (scan : BodyScan) (h : Letter.after scan.stack ls = some stack) :
    ∃ scan', scan.run ls = some scan' ∧ scan'.stack = stack := by
  induction ls generalizing scan with
  | nil =>
      cases h
      exact ⟨scan, rfl, rfl⟩
  | cons l ls ih =>
      rw [Letter.after_cons] at h
      obtain ⟨between, hfirst, hrest⟩ := Option.bind_eq_some_iff.mp h
      obtain ⟨next, hnext, rfl⟩ : ∃ next, scan.step l = some next ∧ next.stack = between := by
        unfold step
        rw [hfirst]
        dsimp only [Option.bind_eq_bind, Option.bind_some]
        split
        · exact ⟨_, rfl, rfl⟩
        · split
          · exact ⟨_, rfl, rfl⟩
          · exact ⟨_, rfl, rfl⟩
      obtain ⟨scan', hrun, hstack⟩ := ih next hrest
      refine ⟨scan', ?_, hstack⟩
      show (scan.step l).bind (·.run ls) = some scan'
      rw [hnext, Option.bind_some, hrun]

/-- Inside braces everything is kept. -/
theorem run_inside (stack : List Bracket) (h : Letter.after stack ls = some stack') :
    run ⟨stack ++ [.curly], inside, body⟩ ls = some ⟨stack' ++ [.curly], inside ++ ls, body⟩ := by
  induction ls generalizing stack inside with
  | nil =>
      cases h
      rw [List.append_nil]
      rfl
  | cons l ls ih =>
      rw [Letter.after_cons] at h
      obtain ⟨between, hfirst, hrest⟩ := Option.bind_eq_some_iff.mp h
      have hstep : step ⟨stack ++ [.curly], inside, body⟩ l =
          some ⟨between ++ [.curly], inside ++ [l], body⟩ := by
        have hopen : ∀ stack : List Bracket, stack ++ [.curly] ≠ [] := fun _ => by simp
        unfold step
        rw [Letter.step_outer hfirst [.curly]]
        dsimp only [Option.bind_eq_bind, Option.bind_some]
        rw [if_neg (hopen stack), if_neg fun hboth => hopen between hboth.2]
        rfl
      show (step _ l).bind (·.run ls) = _
      rw [hstep, Option.bind_some, ih between hrest, List.append_assoc]
      rfl

end BodyScan

/-- What stands in the last braces that are in no other brackets. -/
def Code.body? (code : Code) : Option (List Letter) := do
  (← BodyScan.run ⟨[], [], none⟩ code.letters).body

theorem Code.body?_ofTokens {head items : List Token} (hhead : Balanced head)
    (hitems : Balanced items) (isInline : Bool) :
    (ofTokens (head ++ [ofPunctuation "\x7b"] ++ items ++ Source.closing isInline)).body? =
      some (items.flatMap Token.letters) := by
  rw [body?, letters_ofTokens]
  simp only [List.flatMap_append, BodyScan.run_append, Option.bind_eq_bind]
  obtain ⟨scan, hrun, hstack⟩ := BodyScan.exists_run ⟨[], [], none⟩
    ((Letter.after_letters [] head).trans (hhead []))
  have hopening : scan.run ([ofPunctuation "\x7b"].flatMap Token.letters) =
      some ⟨[.curly], [], scan.body⟩ := by
    obtain ⟨stack, inside, body⟩ := scan
    subst hstack
    rfl
  have hinside : BodyScan.run ⟨[.curly], [], scan.body⟩ (items.flatMap Token.letters) =
      some ⟨[.curly], items.flatMap Token.letters, scan.body⟩ :=
    BodyScan.run_inside [] ((Letter.after_letters [] items).trans (hitems []))
  have hclosing : BodyScan.run ⟨[.curly], items.flatMap Token.letters, scan.body⟩
      ((Source.closing isInline).flatMap Token.letters) =
        some ⟨[], [], some (items.flatMap Token.letters)⟩ := by
    cases isInline with
    | true => rfl
    | false => rfl
  rw [hrun, Option.bind_some, hopening, Option.bind_some, hinside, Option.bind_some, hclosing]
  rfl

end DwarfOne
