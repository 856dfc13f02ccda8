/-
# `Proofs.Source.Brackets` — brackets in punctuation

Names, literals and remarks may hold any character; it is in punctuation only that
a bracket opens or closes something.  `after` runs over tokens with the brackets
that are open, and `Balanced`, `Opens` and `Closes` say what tokens do to them, whatever
lies around.

Printing may fail, and types are printed to a depth.  `Agree` goes along with two
printings at once: they come to the same, which has a property, or fails with an
error of which one is told.
-/
import DwarfOne.Source.Basic

namespace DwarfOne

/-! ## Brackets -/

inductive Bracket
  | round
  | square
  | curly
  deriving DecidableEq, Repr

namespace Bracket

@[simp] def opened? : Char → Option Bracket
  | '(' => some round
  | '[' => some square
  | '\x7b' => some curly
  | _ => none

@[simp] def closed? : Char → Option Bracket
  | ')' => some round
  | ']' => some square
  | '\x7d' => some curly
  | _ => none

/-- The brackets that are open after one more character, innermost first.  One that
closes must be the innermost. -/
def step (stack : List Bracket) (c : Char) : Option (List Bracket) :=
  match opened? c, closed? c, stack with
  | some b, _, _ => some (b :: stack)
  | none, none, _ => some stack
  | none, some b, top :: rest => if top = b then some rest else none
  | none, some _, [] => none

/-- Brackets further out are not looked at. -/
theorem step_outer {stack stack' : List Bracket} {c : Char} (h : step stack c = some stack')
    (outer : List Bracket) : step (stack ++ outer) c = some (stack' ++ outer) := by
  unfold step at h ⊢
  split at h
  case h_1 hopened =>
      cases h
      rw [hopened]
      rfl
  case h_2 hopened hclosed =>
      cases h
      rw [hopened, hclosed]
  case h_3 hopened hclosed =>
      rw [hopened, hclosed]
      split at h
      case isTrue htop =>
          cases h
          simp [htop]
      case isFalse => cases h
  case h_4 => cases h

/-- Whether a character neither opens nor closes a bracket. -/
@[simp] def isPlain (c : Char) : Bool :=
  (opened? c).isNone && (closed? c).isNone

theorem step_of_isPlain {c : Char} (h : isPlain c = true) (stack : List Bracket) :
    step stack c = some stack := by
  simp only [isPlain, Bool.and_eq_true, Option.isNone_iff_eq_none] at h
  simp only [step, h.1, h.2]

end Bracket

namespace Token

/-- The characters among which brackets are looked for. -/
def marks (t : Token) : List Char :=
  if t.kind = .punctuation then t.text.toList else []

/-- The brackets that are open after some tokens. -/
def after (stack : List Bracket) (ts : List Token) : Option (List Bracket) :=
  (ts.flatMap marks).foldlM Bracket.step stack

/-- The tokens close the brackets they open, and no others. -/
abbrev Balanced (ts : List Token) : Prop :=
  ∀ stack, after stack ts = some stack

/-- The tokens leave so many parentheses open. -/
abbrev Opens (n : Nat) (ts : List Token) : Prop :=
  ∀ stack, after stack ts = some (List.replicate n .round ++ stack)

/-- The tokens close so many parentheses. -/
abbrev Closes (n : Nat) (ts : List Token) : Prop :=
  ∀ stack, after (List.replicate n .round ++ stack) ts = some stack

/-! ## Running over tokens

These equations let `simp` run over tokens that are known only in part. -/

variable {stack : List Bracket} {ts ts' : List Token}

@[simp] theorem after_nil : after stack [] = some stack :=
  rfl

@[simp] theorem after_append : after stack (ts ++ ts') = (after stack ts).bind (after · ts') := by
  rw [after, List.flatMap_append, List.foldlM_append]
  rfl

theorem after_cons (t : Token) : after stack (t :: ts) = (after stack [t]).bind (after · ts) := by
  show after stack ([t] ++ ts) = _
  exact after_append

theorem after_outer {stack' : List Bracket} (h : after stack ts = some stack')
    (outer : List Bracket) : after (stack ++ outer) ts = some (stack' ++ outer) := by
  unfold after at h ⊢
  generalize ts.flatMap marks = cs at h ⊢
  induction cs generalizing stack with
  | nil =>
      cases h
      rfl
  | cons c cs ih =>
      rw [List.foldlM_cons] at h
      obtain ⟨between, hstep, hrest⟩ := Option.bind_eq_some_iff.mp h
      rw [List.foldlM_cons, Bracket.step_outer hstep outer]
      exact ih hrest

@[simp] theorem after_ite {c : Prop} [Decidable c] :
    after stack (if c then ts else ts') = if c then after stack ts else after stack ts' :=
  apply_ite (after stack) c ts ts'

@[simp] theorem after_ofKeyword (text : String) :
    after stack (ofKeyword text :: ts) = after stack ts :=
  rfl

@[simp] theorem after_ofIdentifier (text : String) :
    after stack (ofIdentifier text :: ts) = after stack ts :=
  rfl

@[simp] theorem after_ofLiteral (text : String) :
    after stack (ofLiteral text :: ts) = after stack ts :=
  rfl

@[simp] theorem after_remark (text : String) : after stack (remark text :: ts) = after stack ts :=
  rfl

@[simp] theorem after_aside (text : String) : after stack (aside text :: ts) = after stack ts :=
  rfl

@[simp] theorem after_space : after stack (space :: ts) = after stack ts :=
  rfl

@[simp] theorem after_lineBreak : after stack (lineBreak :: ts) = after stack ts :=
  rfl

/-- Punctuation without brackets. -/
@[simp] theorem after_ofPunctuation {text : String} (h : text.toList.all Bracket.isPlain = true) :
    after stack (ofPunctuation text :: ts) = after stack ts := by
  have hplain : ∀ cs : List Char, cs.all Bracket.isPlain = true →
      cs.foldlM Bracket.step stack = some stack := by
    intro cs hcs
    induction cs with
    | nil => rfl
    | cons c cs ih =>
        rw [List.all_cons, Bool.and_eq_true] at hcs
        rw [List.foldlM_cons, Bracket.step_of_isPlain hcs.1]
        exact ih hcs.2
  have hmarks : after stack [ofPunctuation text] = some stack := by
    rw [after, List.flatMap_singleton]
    exact hplain _ h
  rw [after_cons, hmarks, Option.bind_some]

@[simp] theorem after_roundOpen :
    after stack (ofPunctuation "(" :: ts) = after (.round :: stack) ts :=
  rfl

@[simp] theorem after_roundOpen_spaced :
    after stack (ofPunctuation " (" :: ts) = after (.round :: stack) ts :=
  rfl

@[simp] theorem after_roundClosed :
    after (.round :: stack) (ofPunctuation ")" :: ts) = after stack ts :=
  rfl

@[simp] theorem after_squareOpen :
    after stack (ofPunctuation "[" :: ts) = after (.square :: stack) ts :=
  rfl

@[simp] theorem after_squareClosed :
    after (.square :: stack) (ofPunctuation "]" :: ts) = after stack ts :=
  rfl

@[simp] theorem after_curlyOpen :
    after stack (ofPunctuation "\x7b" :: ts) = after (.curly :: stack) ts :=
  rfl

@[simp] theorem after_curlyClosed :
    after (.curly :: stack) (ofPunctuation "\x7d" :: ts) = after stack ts :=
  rfl

theorem balanced_flatten {parts : List (List Token)} (h : ∀ ts ∈ parts, Balanced ts) :
    Balanced parts.flatten := by
  intro stack
  induction parts with
  | nil => rfl
  | cons ts parts ih =>
      rw [List.flatten_cons, after_append, h ts List.mem_cons_self stack]
      exact ih fun ts hts => h ts (List.mem_cons_of_mem _ hts)

theorem balanced_flatMap {α : Type} {items : List α} {f : α → List Token}
    (h : ∀ a ∈ items, Balanced (f a)) : Balanced (items.flatMap f) := by
  refine balanced_flatten fun ts hts => ?_
  obtain ⟨a, ha, rfl⟩ := List.mem_map.mp hts
  exact h a ha

@[simp] theorem after_newline (indent : Nat) : after stack (newline indent) = some stack := by
  rw [newline, after_lineBreak]
  induction indent with
  | zero => rfl
  | succ indent ih => exact ih

end Token

/-! ## Printing -/

/-- Two printings come to the same.  What they give has the property, and an error is
one that is allowed. -/
def Agree {α : Type} (E : RenderError → Prop) (Q : α → Prop) (x y : Except RenderError α) : Prop :=
  x = y ∧ match x with
    | .ok a => Q a
    | .error e => E e

namespace Agree

variable {α β : Type} {E : RenderError → Prop} {P Q : α → Prop} {R : β → Prop}
  {x y : Except RenderError α}

theorem pure {a : α} (h : Q a) : Agree E Q (Pure.pure a) (Pure.pure a) :=
  ⟨rfl, h⟩

theorem mono (h : Agree E P x y) (hPQ : ∀ a, P a → Q a) : Agree E Q x y := by
  obtain ⟨rfl, h⟩ := h
  cases x with
  | ok a => exact ⟨rfl, hPQ a h⟩
  | error e => exact ⟨rfl, h⟩

theorem bind {f g : α → Except RenderError β} (h : Agree E P x y)
    (hf : ∀ a, P a → Agree E R (f a) (g a)) : Agree E R (x >>= f) (y >>= g) := by
  obtain ⟨rfl, h⟩ := h
  cases x with
  | ok a => exact hf a h
  | error e => exact ⟨rfl, h⟩

theorem mapM {f g : α → Except RenderError β} : ∀ {items : List α},
    (∀ a ∈ items, Agree E R (f a) (g a)) →
      Agree E (fun bs => ∀ b ∈ bs, R b) (items.mapM f) (items.mapM g)
  | [], _ => by
      rw [List.mapM_nil, List.mapM_nil]
      exact pure fun _ hb => absurd hb List.not_mem_nil
  | a :: items, h => by
      rw [List.mapM_cons, List.mapM_cons]
      refine (h a List.mem_cons_self).bind fun b hb => ?_
      refine (mapM fun a ha => h a (List.mem_cons_of_mem _ ha)).bind fun bs hbs => pure ?_
      intro c hc
      rcases List.mem_cons.mp hc with rfl | hc
      · exact hb
      · exact hbs c hc

/-- What they give may be used as what they give. -/
theorem and_eq_ok (h : Agree E Q x y) : Agree E (fun a => Q a ∧ x = .ok a) x y := by
  obtain ⟨rfl, h⟩ := h
  cases x with
  | ok a => exact ⟨rfl, h, rfl⟩
  | error e => exact ⟨rfl, h⟩

theorem of_ok (h : Agree E Q x y) {a : α} (hx : x = .ok a) : Q a := by
  subst hx
  exact h.2

/-- Where no error is allowed there is a result. -/
theorem exists_ok (h : Agree (fun _ => False) Q x y) : ∃ a, x = .ok a ∧ y = .ok a ∧ Q a := by
  obtain ⟨rfl, h⟩ := h
  cases x with
  | ok a => exact ⟨a, rfl, rfl, h⟩
  | error e => exact h.elim

end Agree

/-- Code is put together from tokens that were printed. -/
theorem Source.exists_tokens_of_render {s : Source} {target : RenderTarget} {code : Code}
    (h : s.render target = .ok code) :
    ∃ tokens, s.tokens target = .ok tokens ∧ code = .ofTokens tokens := by
  cases htokens : s.tokens target with
  | error e =>
      rw [render, htokens] at h
      cases h
  | ok tokens =>
      rw [render, htokens] at h
      cases h
      exact ⟨tokens, rfl, rfl⟩

end DwarfOne
