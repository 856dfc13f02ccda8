/-
# `Proofs.Source.Canonical` — one code for the same letters

A code comes about from nothing by adding tokens and whole codes, in any order: `History`.
Whatever the order, it is in one form only, without empty tokens and without neighbours of the
same kind (`Canonical`), and in that form the letters decide everything.  So codes are put
together as lists of letters are, and the laws of appending are those of lists.

That a token might as well come letter by letter, and whole codes with it, carries all of this;
see `Proofs.Source.Merging`.
-/
import DwarfOne.Proofs.Source.Merging
import Mathlib.Data.List.Chain
import Mathlib.Data.List.Induction

namespace DwarfOne
namespace Code

/-! ## The form of a code -/

/-- No token is empty, and neighbours are of different kinds. -/
structure Canonical (code : Code) : Prop where
  text_ne : ∀ t ∈ code.tokens.toList, t.text ≠ ""
  kind_ne : code.tokens.toList.IsChain (·.kind ≠ ·.kind)

theorem canonical_empty : empty.Canonical :=
  ⟨fun _ ht => absurd ht List.not_mem_nil, .nil⟩

theorem Canonical.push {code : Code} (h : code.Canonical) (t : Token) :
    (code.push t).Canonical := by
  by_cases ht : t.text = ""
  · rwa [push_of_text_eq ht]
  rcases toList_push code ht with ⟨htokens, hlast⟩ | ⟨before, u, hbefore, -, htokens⟩
  · -- behind the last token, which is of another kind
    constructor
    · rw [htokens]
      intro v hv
      rcases List.mem_append.mp hv with hv | hv
      · exact h.text_ne v hv
      · rwa [List.mem_singleton.mp hv]
    · rw [htokens, List.isChain_append]
      refine ⟨h.kind_ne, .singleton t, fun v hv w hw => ?_⟩
      obtain rfl : t = w := by simpa using hw
      exact hlast v hv
  · -- in place of the last token, which was of the same kind
    obtain ⟨htexts, hkinds⟩ := h
    rw [hbefore] at htexts hkinds
    constructor
    · rw [htokens]
      intro v hv
      rcases List.mem_append.mp hv with hv | hv
      · exact htexts v (List.mem_append_left _ hv)
      · simp [List.mem_singleton.mp hv, ht]
    · rw [htokens, List.isChain_append]
      obtain ⟨hchain, -, hseam⟩ := List.isChain_append.mp hkinds
      refine ⟨hchain, .singleton _, fun v hv w hw => ?_⟩
      obtain rfl : { u with text := u.text ++ t.text } = w := by simpa using hw
      exact hseam v hv u rfl

theorem canonical_ofTokens (ts : List Token) : (ofTokens ts).Canonical := by
  have hfold : ∀ code : Code, code.Canonical → (ts.foldl Code.push code).Canonical := by
    induction ts with
    | nil => exact fun _ h => h
    | cons t ts ih => exact fun code h => ih _ (h.push t)
  exact hfold empty canonical_empty

/-- Tokens in the right form are left as they are. -/
theorem toList_ofTokens {ts : List Token} (htexts : ∀ t ∈ ts, t.text ≠ "")
    (hkinds : ts.IsChain (·.kind ≠ ·.kind)) : (ofTokens ts).tokens.toList = ts := by
  induction ts using List.reverseRecOn with
  | nil => rfl
  | append_singleton ts t ih =>
      obtain ⟨hchain, -, hseam⟩ := List.isChain_append.mp hkinds
      have hts := ih (fun u hu => htexts u (List.mem_append_left _ hu)) hchain
      have ht : t.text ≠ "" := htexts t (by simp)
      rw [ofTokens, List.foldl_append]
      rcases toList_push (ofTokens ts) ht with ⟨htokens, -⟩ | ⟨before, u, hbefore, hkind, -⟩
      · rw [hts] at htokens
        exact htokens
      · rw [hts] at hbefore
        exact absurd hkind (hseam u (by simp [hbefore]) t rfl)

theorem Canonical.ofTokens_eq {code : Code} (h : code.Canonical) :
    ofTokens code.tokens.toList = code :=
  congrArg Code.mk (Array.toList_inj.mp (toList_ofTokens h.text_ne h.kind_ne))

/-! ## Codes put together -/

theorem append_eq_foldl (a b : Code) : a.append b = b.letters.foldl pushLetter a := by
  rw [append, ← Array.foldl_toList, foldl_push]
  rfl

theorem letters_append (a b : Code) : (a.append b).letters = a.letters ++ b.letters := by
  rw [append, ← Array.foldl_toList, letters_foldl_push]
  rfl

theorem append_assoc (a b c : Code) : (a.append b).append c = a.append (b.append c) := by
  rw [append_eq_foldl, append_eq_foldl a, append_eq_foldl a, letters_append, List.foldl_append]

theorem append_empty (a : Code) : a.append empty = a :=
  append_eq_foldl a empty

/-- A code that is not in the right form would be brought into it. -/
theorem Canonical.empty_append {a : Code} (h : a.Canonical) : empty.append a = a := by
  rw [append, ← Array.foldl_toList]
  exact h.ofTokens_eq

theorem append_ofTokens (ts us : List Token) :
    (ofTokens ts).append (ofTokens us) = ofTokens (ts ++ us) := by
  rw [append_eq_foldl, letters_ofTokens, ← foldl_push, ofTokens, ofTokens, List.foldl_append]

/-! ## Plain text -/

/-- The plain text is the letters without their kinds. -/
theorem toList_join_text (ts : List Token) :
    (String.join (ts.map Token.text)).toList = (ts.flatMap Token.letters).map Prod.snd := by
  induction ts with
  | nil => rfl
  | cons t ts ih =>
      rw [List.map_cons, String.join_cons, String.toList_append, ih, List.flatMap_cons,
        List.map_append]
      simp [Token.letters, Function.comp_def]

theorem plain_eq (code : Code) : code.plain.toList = code.letters.map Prod.snd :=
  toList_join_text _

theorem plain_append (a b : Code) : (a.append b).plain = a.plain ++ b.plain := by
  rw [← String.toList_inj, String.toList_append, plain_eq, plain_eq, plain_eq, letters_append,
    List.map_append]

/-! ## Every way to put a code together -/

/-- How a code comes about. -/
inductive History
  | start
  | push (before : History) (t : Token)
  /-- The code added has a history of its own. -/
  | append (before added : History)

namespace History

def code : History → Code
  | start => empty
  | push before t => before.code.push t
  | append before added => before.code.append added.code

/-- The tokens pushed, those of a code that is added in its place. -/
def pushed : History → List Token
  | start => []
  | push before t => before.pushed ++ [t]
  | append before added => before.pushed ++ added.pushed

/-- The characters pushed, each with its kind. -/
def letters (h : History) : List (TokenKind × Char) :=
  h.pushed.flatMap Token.letters

/-- When tokens were put together does not matter. -/
theorem code_eq (h : History) : h.code = ofTokens h.pushed := by
  induction h with
  | start => rfl
  | push before t ih =>
      rw [code, ih, pushed, ofTokens, ofTokens, List.foldl_append]
      rfl
  | append before added ih ih' => rw [code, ih, ih', pushed, append_ofTokens]

end History

/-- However a code came about, it is in one form, which the letters pushed decide, and codes
with such histories are appended as their letters are. -/
theorem canonical_of_history :
    (∀ h : History, h.code.Canonical ∧ h.code.plain = String.join (h.pushed.map Token.text)) ∧
      (∀ h h' : History, h.code.tokens = h'.code.tokens ↔ h.letters = h'.letters) ∧
      (∀ a b c : History,
        (a.code.append b.code).append c.code = a.code.append (b.code.append c.code)) ∧
      (∀ a : History, empty.append a.code = a.code ∧ a.code.append empty = a.code) ∧
      ∀ a b : History, (a.code.append b.code).plain = a.code.plain ++ b.code.plain := by
  have hcanonical : ∀ h : History, h.code.Canonical := by
    intro h
    rw [h.code_eq]
    exact canonical_ofTokens _
  refine ⟨fun h => ⟨hcanonical h, ?_⟩, fun h h' => ?_, fun a b c => append_assoc _ _ _,
    fun a => ⟨(hcanonical a).empty_append, append_empty _⟩, fun a b => plain_append _ _⟩
  · rw [← String.toList_inj, plain_eq, h.code_eq, letters_ofTokens, toList_join_text]
  · have htokens : h.code.tokens = h'.code.tokens ↔ h.code = h'.code :=
      ⟨congrArg Code.mk, congrArg Code.tokens⟩
    rw [htokens, h.code_eq, h'.code_eq, ofTokens_eq_iff]
    rfl

end Code
end DwarfOne
