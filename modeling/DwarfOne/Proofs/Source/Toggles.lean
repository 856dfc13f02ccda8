/-
# `Proofs.Source.Toggles` — remarks leave the code alone

What is left of code when its comments and the blanks in its punctuation are taken away
is `bare`.  Noise leaves nothing behind, so the bare letters of two printings that differ
in their remarks are the same (`keeps_bareLetters`), and with them the bare code
(`bare_render_withRemarks`): no remark changes a name, a value, the order of things, or
the access and the values of enumerators that are carried along.
-/
import DwarfOne.Proofs.Source.Merging
import DwarfOne.Proofs.Source.Printing

namespace DwarfOne

namespace Token

/-- The token without its blanks, if it is punctuation, and nothing of a comment. -/
def bare? (t : Token) : Option Token :=
  match t.kind with
  | .comment => none
  | .punctuation =>
      some { t with text := String.ofList (t.text.toList.filter (!Text.blank.contains ·)) }
  | _ => some t

/-- Whether a letter is neither in a comment nor a blank between words. -/
def isBare (l : TokenKind × Char) : Bool :=
  l.1 ≠ .comment && !(l.1 = .punctuation && Text.blank.contains l.2)

/-- The letters that are left. -/
def bareLetters (ts : List Token) : List (TokenKind × Char) :=
  (ts.flatMap letters).filter isBare

@[simp] theorem bareLetters_append (ts ts' : List Token) :
    bareLetters (ts ++ ts') = bareLetters ts ++ bareLetters ts' := by
  rw [bareLetters, List.flatMap_append, List.filter_append]
  rfl

theorem letters_bare? (t : Token) : t.bare?.toList.flatMap letters = t.letters.filter isBare := by
  obtain ⟨kind, text⟩ := t
  rw [letters, List.filter_map]
  cases kind with
  | comment => simp [bare?, isBare, Function.comp_def]
  | punctuation => simp [bare?, isBare, letters, Function.comp_def]
  | keyword => simp [bare?, isBare, letters, Function.comp_def]
  | identifier => simp [bare?, isBare, letters, Function.comp_def]
  | literal => simp [bare?, isBare, letters, Function.comp_def]

theorem letters_filterMap_bare? (ts : List Token) :
    (ts.filterMap bare?).flatMap letters = bareLetters ts := by
  induction ts with
  | nil => rfl
  | cons t ts ih =>
      have hsplit : bareLetters (t :: ts) = t.letters.filter isBare ++ bareLetters ts := by
        rw [bareLetters, List.flatMap_cons, List.filter_append]
        rfl
      rw [hsplit, ← letters_bare?, ← ih]
      cases hbare : t.bare? with
      | none => simp [hbare]
      | some u => simp [hbare]

end Token

namespace Code

/-- The code without comments and blanks, put together anew.  A token of which nothing is
left is not there. -/
def bare (code : Code) : Code :=
  ofTokens (code.tokens.toList.filterMap Token.bare?)

/-- It is a matter of the letters that are left. -/
theorem bare_ofTokens_eq_iff {ts ts' : List Token} :
    (ofTokens ts).bare = (ofTokens ts').bare ↔
      Token.bareLetters ts = Token.bareLetters ts' := by
  have hletters : ∀ ts, Token.bareLetters (ofTokens ts).tokens.toList = Token.bareLetters ts :=
    fun ts => congrArg (List.filter Token.isBare) (letters_ofTokens ts)
  rw [bare, bare, ofTokens_eq_iff, Token.letters_filterMap_bare?, Token.letters_filterMap_bare?,
    hletters, hletters]

end Code

namespace Source

open Token

theorem bareLetters_newline (indent : Nat) : bareLetters (newline indent) = [] := by
  induction indent with
  | zero => rfl
  | succ indent ih =>
      have hsplit : newline (indent + 1) = newline indent ++ [ofPunctuation "    "] := by
        simp [newline, List.replicate_succ']
      have hblank : bareLetters [ofPunctuation "    "] = [] := by decide
      rw [hsplit, bareLetters_append, ih, hblank]
      rfl

/-- Nothing is left of noise. -/
theorem bareLetters_of_noise {ts : List Token} (h : Noise ts) : bareLetters ts = [] := by
  have hcomment : ∀ text, bareLetters [⟨.comment, text⟩] = [] := by
    intro text
    simp [bareLetters, letters, isBare]
  induction h with
  | nil => rfl
  | space => decide
  | newline indent => exact bareLetters_newline indent
  | aside text => exact hcomment _
  | remark text indent =>
      show bareLetters ([remark text] ++ newline indent) = []
      rw [bareLetters_append, bareLetters_newline]
      exact congrArg (· ++ []) (hcomment _)
  | append _ _ iha ihb => rw [bareLetters_append, iha, ihb]; rfl

theorem keeps_bareLetters : Keeps fun ts ts' => bareLetters ts = bareLetters ts' where
  append ha hb := by rw [bareLetters_append, bareLetters_append, ha, hb]
  code _ := rfl
  noise ha hb := by rw [bareLetters_of_noise ha, bareLetters_of_noise hb]

/-- Whichever remarks are shown, the code is the same, and so is the reason why there is
none. -/
theorem bare_render_withRemarks (s : Source) (r : Remarks) (target : RenderTarget) :
    Code.bare <$> s.render target = Code.bare <$> (s.withRemarks r).render target := by
  have hboth := keeps_bareLetters.tokens s r target
  unfold render
  cases htokens : s.tokens target with
  | error e =>
      rw [htokens] at hboth
      cases htokens' : (s.withRemarks r).tokens target with
      | error e' =>
          rw [htokens'] at hboth
          exact congrArg Except.error hboth
      | ok tokens' =>
          rw [htokens'] at hboth
          exact hboth.elim
  | ok tokens =>
      obtain ⟨tokens', htokens', hended⟩ := hboth.of_ok htokens
      have hletters : bareLetters tokens = bareLetters tokens' := by
        simpa [bareLetters_newline] using hended 0
      rw [htokens']
      exact congrArg Except.ok (Code.bare_ofTokens_eq_iff.mpr hletters)

end Source

end DwarfOne
