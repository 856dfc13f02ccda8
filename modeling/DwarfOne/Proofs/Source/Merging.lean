/-
# `Proofs.Source.Merging` — tokens put together

A code puts neighbours of the same kind together and has no place for a token without
text.  What is left of the tokens are their letters, each with the kind of the token it
stands in: two lists of tokens come to the same code exactly if they have the same
letters (`ofTokens_eq_iff`).  So whatever looks at letters only can look at the tokens
before they are put together.
-/
import DwarfOne.Source.Token

namespace DwarfOne

/-- The characters of a token, each with the kind of the token. -/
def Token.letters (t : Token) : List (TokenKind × Char) :=
  t.text.toList.map (t.kind, ·)

namespace Code

def letters (code : Code) : List (TokenKind × Char) :=
  code.tokens.toList.flatMap Token.letters

/-- Adds a character. -/
def pushLetter (code : Code) (l : TokenKind × Char) : Code :=
  code.push ⟨l.1, String.singleton l.2⟩

theorem push_of_text_eq {code : Code} {t : Token} (h : t.text = "") : code.push t = code := by
  simp [push, h]

@[simp] theorem push_empty (code : Code) (kind : TokenKind) : code.push ⟨kind, ""⟩ = code :=
  push_of_text_eq rfl

/-- A token is added to the last one if that is of the same kind, and behind it if not. -/
theorem toList_push (code : Code) {t : Token} (ht : t.text ≠ "") :
    (code.push t).tokens.toList = code.tokens.toList ++ [t] ∧
        (∀ u ∈ code.tokens.toList.getLast?, u.kind ≠ t.kind) ∨
      ∃ before u, code.tokens.toList = before ++ [u] ∧ u.kind = t.kind ∧
        (code.push t).tokens.toList = before ++ [{ u with text := u.text ++ t.text }] := by
  cases hlast : code.tokens.back? with
  | none => simp_all [push]
  | some u =>
      by_cases hkind : u.kind = t.kind
      · obtain ⟨before, hbefore⟩ := Array.back?_eq_some_iff.mp hlast
        exact .inr ⟨before.toList, u, by simp [hbefore], hkind, by simp [push, ht, hbefore, hkind]⟩
      · refine .inl ⟨by simp [push, ht, hlast, hkind], ?_⟩
        simp_all

/-- Two tokens of the same kind might as well have been one. -/
theorem push_push (code : Code) (kind : TokenKind) (a b : String) :
    (code.push ⟨kind, a⟩).push ⟨kind, b⟩ = code.push ⟨kind, a ++ b⟩ := by
  by_cases ha : a = ""
  · simp [ha]
  by_cases hb : b = ""
  · simp [hb]
  have hab : a ++ b ≠ "" := by simp [ha]
  cases hlast : code.tokens.back? with
  | none => simp [push, ha, hb, hab, hlast]
  | some last =>
      by_cases hkind : last.kind = kind
      · simp [push, ha, hb, hab, hlast, hkind, String.append_assoc]
      · simp [push, ha, hb, hab, hlast, hkind]

/-- A token is added character by character. -/
theorem push_eq_foldl (code : Code) (t : Token) :
    code.push t = t.letters.foldl pushLetter code := by
  obtain ⟨kind, text⟩ := t
  rw [Token.letters, List.foldl_map]
  generalize hcs : text.toList = cs
  obtain rfl : text = String.ofList cs := by rw [← hcs, String.ofList_toList]
  clear hcs
  induction cs generalizing code with
  | nil => exact push_empty code kind
  | cons c cs ih =>
      rw [List.foldl_cons, ← ih, pushLetter, push_push]
      simp

theorem foldl_push (code : Code) (ts : List Token) :
    ts.foldl push code = (ts.flatMap Token.letters).foldl pushLetter code := by
  induction ts generalizing code with
  | nil => rfl
  | cons t ts ih =>
      rw [List.foldl_cons, List.flatMap_cons, List.foldl_append, ← push_eq_foldl, ih]

theorem letters_push (code : Code) (t : Token) :
    (code.push t).letters = code.letters ++ t.letters := by
  by_cases ht : t.text = ""
  · simp [push_of_text_eq ht, Token.letters, ht]
  rcases toList_push code ht with ⟨htokens, -⟩ | ⟨before, u, hbefore, hkind, htokens⟩
  · simp [letters, htokens]
  · simp [letters, htokens, hbefore, Token.letters, hkind]

theorem letters_foldl_push (code : Code) (ts : List Token) :
    (ts.foldl push code).letters = code.letters ++ ts.flatMap Token.letters := by
  induction ts generalizing code with
  | nil => simp
  | cons t ts ih => rw [List.foldl_cons, ih, letters_push, List.flatMap_cons, List.append_assoc]

theorem letters_ofTokens (ts : List Token) :
    (ofTokens ts).letters = ts.flatMap Token.letters :=
  letters_foldl_push empty ts

/-- Codes are the same exactly if the letters are. -/
theorem ofTokens_eq_iff {ts ts' : List Token} :
    ofTokens ts = ofTokens ts' ↔ ts.flatMap Token.letters = ts'.flatMap Token.letters := by
  constructor
  · intro h
    rw [← letters_ofTokens, h, letters_ofTokens]
  · intro h
    rw [ofTokens, ofTokens, foldl_push, foldl_push, h]

end Code

end DwarfOne
