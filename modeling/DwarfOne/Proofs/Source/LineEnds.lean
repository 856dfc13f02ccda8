/-
# `Proofs.Source.LineEnds` — no code behind a line comment

A comment that starts with `//` goes on to the end of its line, and what is printed next
would be part of it.  So the next token has to end the line.  Code and noise are settled
in that sense, and so is what is made of them (`keeps_settled`); with that, everything
that is printed is.

Putting tokens together does not change it: a line comment is not put together with
what follows, since that is no comment.
-/
import DwarfOne.Proofs.Source.Delimiters
import DwarfOne.Proofs.Source.Printing
import Mathlib.Data.List.Chain
import Mathlib.Data.List.Induction

namespace DwarfOne

namespace Token

/-- A comment to the end of its line. -/
def IsLineComment (t : Token) : Prop :=
  t.kind = .comment ∧ "// ".toList <+: t.text.toList

/-- Punctuation that begins with the end of a line. -/
def BreaksLine (t : Token) : Prop :=
  t.kind = .punctuation ∧ t.text.toList.head? = some '\n'

/-- The token may come next. -/
def Follows (t next : Token) : Prop :=
  t.IsLineComment → next.BreaksLine

/-- A line comment is the last token, or the next one ends its line. -/
def LinesEnd (ts : List Token) : Prop :=
  ∀ before comment behind, ts = before ++ comment :: behind → comment.IsLineComment →
    behind = [] ∨ ∃ next ∈ behind.head?, next.BreaksLine

theorem linesEnd_of_isChain {ts : List Token} (h : ts.IsChain Follows) : LinesEnd ts := by
  rintro before comment behind rfl hcomment
  obtain ⟨-, h, -⟩ := List.isChain_append.mp h
  cases behind with
  | nil => exact .inl rfl
  | cons next rest =>
      have hnext := (List.isChain_cons.mp h).1 next rfl
      exact .inr ⟨next, rfl, hnext hcomment⟩

/-- Line comments end their lines, the last one included, and comments are not too short
to be told from one another. -/
structure Settled (ts : List Token) : Prop where
  chain : ts.IsChain Follows
  last : ∀ t ∈ ts.getLast?, ¬ t.IsLineComment
  long : ∀ t ∈ ts, t.kind = .comment → 3 ≤ t.text.toList.length

theorem Settled.append {a b : List Token} (ha : Settled a) (hb : Settled b) :
    Settled (a ++ b) where
  chain := List.isChain_append.mpr
    ⟨ha.chain, hb.chain, fun t ht _ _ hcomment => absurd hcomment (ha.last t ht)⟩
  last := by
    intro t ht
    rw [List.getLast?_append] at ht
    cases hlast : b.getLast? with
    | none =>
        rw [hlast] at ht
        exact ha.last t ht
    | some last =>
        rw [hlast] at ht
        exact hb.last t (hlast.trans ht)
  long := by
    intro t ht
    rcases List.mem_append.mp ht with ht | ht
    · exact ha.long t ht
    · exact hb.long t ht

theorem settled_nil : Settled [] :=
  ⟨.nil, fun _ h => absurd h (by simp), fun _ h => absurd h List.not_mem_nil⟩

theorem settled_singleton {t : Token} (hline : ¬ t.IsLineComment)
    (hlong : t.kind = .comment → 3 ≤ t.text.toList.length) : Settled [t] := by
  refine ⟨.singleton t, fun t' ht' => ?_, fun t' ht' => ?_⟩
  · cases ht'
    exact hline
  · rw [List.mem_singleton.mp ht']
    exact hlong

theorem settled_of_unremarked {ts : List Token} (h : Unremarked ts) : Settled ts := by
  induction ts with
  | nil => exact settled_nil
  | cons t ts ih =>
      obtain ⟨ht, hts⟩ := unremarked_cons.mp h
      have hfirst : Settled [t] :=
        settled_singleton (fun hline => ht hline.1) fun hcomment => absurd hcomment ht
      exact hfirst.append (ih hts)

theorem settled_of_noise {ts : List Token} (h : Noise ts) : Settled ts := by
  induction h with
  | nil => exact settled_nil
  | space => exact settled_of_unremarked (by simp)
  | newline indent => exact settled_of_unremarked (by simp)
  | aside text =>
      refine settled_singleton (fun hline => ?_) fun _ => ?_
      · have htext : (aside text).text.toList = '/' :: '*' :: (" " ++ text ++ " */").toList := by
          simp [aside]
        have hprefix := hline.2
        rw [htext] at hprefix
        simp at hprefix
      · simp [aside]
  | remark text indent =>
      have hend : Settled (newline indent) := settled_of_unremarked (by simp)
      refine ⟨List.isChain_cons.mpr ⟨fun next hnext _ => ?_, hend.chain⟩, ?_, ?_⟩
      · cases hnext
        exact ⟨rfl, rfl⟩
      · exact hend.last
      · intro t ht
        rcases List.mem_cons.mp ht with rfl | ht
        · intro _
          simp [remark]
        · exact hend.long t ht
  | append _ _ iha ihb => exact iha.append ihb

/-- Whatever the other printing is. -/
theorem keeps_settled : Source.Keeps fun ts _ => Settled ts where
  append := Settled.append
  code := settled_of_unremarked
  noise ha _ := settled_of_noise ha

end Token

/-! ## Tokens put together -/

namespace Code

open Token

/-- Code that has been put together from some tokens.  Its last token is a line comment only
if the last of theirs is. -/
structure MergedFrom (ts : List Token) (code : Code) : Prop where
  chain : code.tokens.toList.IsChain Follows
  last : ∀ t ∈ code.tokens.toList.getLast?, t.IsLineComment → ∃ u ∈ ts.getLast?, u.IsLineComment
  long : ∀ t ∈ code.tokens.toList, t.kind = .comment → 3 ≤ t.text.toList.length

section Push

variable {ts : List Token} {code merged : Code} {t : Token}

/-- What comes after a line comment comes after one among the tokens too. -/
theorem MergedFrom.breaksLine (h : MergedFrom ts code) (hchain : (ts ++ [t]).IsChain Follows)
    {u : Token} (hu : u ∈ code.tokens.toList.getLast?) (hline : u.IsLineComment) :
    t.BreaksLine := by
  obtain ⟨v, hv, hline⟩ := h.last u hu hline
  exact (List.isChain_append.mp hchain).2.2 v hv t rfl hline

theorem MergedFrom.added (h : MergedFrom ts code) (hchain : (ts ++ [t]).IsChain Follows)
    (hlong : t.kind = .comment → 3 ≤ t.text.toList.length)
    (hmerged : merged.tokens.toList = code.tokens.toList ++ [t]) :
    MergedFrom (ts ++ [t]) merged := by
  constructor
  · rw [hmerged]
    refine List.isChain_append.mpr ⟨h.chain, .singleton t, fun u hu next hnext => ?_⟩
    cases hnext
    exact h.breaksLine hchain hu
  · intro u hu hline
    rw [hmerged, List.getLast?_concat] at hu
    cases hu
    exact ⟨t, by simp, hline⟩
  · intro u hu
    rw [hmerged] at hu
    rcases List.mem_append.mp hu with hu | hu
    · exact h.long u hu
    · rw [List.mem_singleton.mp hu]
      exact hlong

/-- The last token is made longer.  It is no line comment: what is put together with it is
of its kind, and does not end a line. -/
theorem MergedFrom.joined (h : MergedFrom ts code) (hchain : (ts ++ [t]).IsChain Follows)
    {before : List Token} {u : Token} (hcode : code.tokens.toList = before ++ [u])
    (hkind : u.kind = t.kind)
    (hmerged : merged.tokens.toList = before ++ [⟨u.kind, u.text ++ t.text⟩]) :
    MergedFrom (ts ++ [t]) merged := by
  have hlong : u.kind = .comment → 3 ≤ u.text.toList.length := h.long u (by simp [hcode])
  have hold := h.chain
  rw [hcode] at hold
  obtain ⟨hold, -, hseam⟩ := List.isChain_append.mp hold
  constructor
  · rw [hmerged]
    refine List.isChain_append.mpr ⟨hold, .singleton _, fun v hv next hnext hline => ?_⟩
    cases hnext
    obtain ⟨hpunctuation, hhead⟩ := hseam v hv u rfl hline
    exact ⟨hpunctuation, by simp [List.head?_append, hhead]⟩
  · intro v hv hline
    rw [hmerged, List.getLast?_concat] at hv
    cases hv
    obtain ⟨hcomment, htext⟩ := hline
    rw [String.toList_append] at htext
    have huline : u.IsLineComment :=
      ⟨hcomment, List.prefix_of_prefix_length_le htext (List.prefix_append _ _) (hlong hcomment)⟩
    have hbreak := (h.breaksLine hchain (by simp [hcode]) huline).1
    rw [← hkind, hcomment] at hbreak
    cases hbreak
  · intro v hv hcomment
    rw [hmerged] at hv
    rcases List.mem_append.mp hv with hv | hv
    · exact h.long v (by rw [hcode]; exact List.mem_append_left _ hv) hcomment
    · obtain rfl := List.mem_singleton.mp hv
      rw [String.toList_append, List.length_append]
      exact Nat.le_add_right_of_le (hlong hcomment)

theorem MergedFrom.push (h : MergedFrom ts code) (hchain : (ts ++ [t]).IsChain Follows)
    (hlong : t.kind = .comment → 3 ≤ t.text.toList.length) :
    MergedFrom (ts ++ [t]) (code.push t) := by
  by_cases ht : t.text = ""
  · rw [push_of_text_eq ht]
    refine ⟨h.chain, fun u hu hline => ?_, h.long⟩
    have hhead := (h.breaksLine hchain hu hline).2
    simp [ht] at hhead
  · rcases toList_push code ht with ⟨hadded, -⟩ | ⟨before, u, hcode, hkind, hjoined⟩
    · exact h.added hchain hlong hadded
    · exact h.joined hchain hcode hkind hjoined

end Push

theorem mergedFrom_ofTokens {ts : List Token} (hchain : ts.IsChain Follows)
    (hlong : ∀ t ∈ ts, t.kind = .comment → 3 ≤ t.text.toList.length) :
    MergedFrom ts (ofTokens ts) := by
  induction ts using List.reverseRecOn with
  | nil => exact ⟨.nil, fun _ h => absurd h (by simp [ofTokens, empty]), fun _ h => by cases h⟩
  | append_singleton ts t ih =>
      have hts := ih (List.isChain_append.mp hchain).1
        fun u hu => hlong u (List.mem_append_left _ hu)
      have hpush : ofTokens (ts ++ [t]) = (ofTokens ts).push t := List.foldl_append
      rw [hpush]
      exact hts.push hchain (hlong t (by simp))

end Code

namespace Source

open Token

/-- Behind a line comment there is nothing, or the end of its line. -/
theorem linesEnd_of_render {s : Source} {target : RenderTarget} {code : Code}
    (h : s.render target = .ok code) : ∃ tokens, s.tokens target = .ok tokens ∧
      code = .ofTokens tokens ∧ LinesEnd tokens ∧ LinesEnd code.tokens.toList := by
  obtain ⟨tokens, htokens, rfl⟩ := exists_tokens_of_render h
  obtain ⟨_, -, hended⟩ := (keeps_settled.tokens s s.settings.remarks target).of_ok htokens
  have hsettled : Settled (tokens ++ newline 0) := hended 0
  have hchain : tokens.IsChain Follows := (List.isChain_append.mp hsettled.chain).1
  have hmerged := Code.mergedFrom_ofTokens hchain
    fun t ht => hsettled.long t (List.mem_append_left _ ht)
  exact ⟨tokens, htokens, rfl, linesEnd_of_isChain hchain, linesEnd_of_isChain hmerged.chain⟩

theorem linesEnd_scheduler : ∃ code tokens, scheduler.render .all = .ok code ∧
    scheduler.tokens .all = .ok tokens ∧ code = .ofTokens tokens ∧
      LinesEnd tokens ∧ LinesEnd code.tokens.toList := by
  obtain ⟨code, hcode⟩ : ∃ code, scheduler.render .all = .ok code := ⟨_, rfl⟩
  obtain ⟨tokens, htokens⟩ := linesEnd_of_render hcode
  exact ⟨code, tokens, hcode, htokens⟩

end Source

end DwarfOne
