/-
# `Proofs.Source.Markup` — code read back from its HTML

Token texts come from the input and may hold anything, tags and entities included.  In the HTML
of a code each token is a span, and in a span nothing is left of the text that HTML could take
for its own: `Harmless`.  So the first closing tag behind an opening one is the one that belongs
to it, `spans?` cuts the HTML where the tokens met, and `unescape` gives the texts back.

Escapes are looked up in one table.  None of them begins another one, which is all that undoing
them depends on.
-/
import DwarfOne.Source.Token
import Mathlib.Data.List.Infix

namespace DwarfOne

namespace Markup

/-! ## Escapes -/

/-- The entities, each with the character it stands for. -/
def entities : List (Char × List Char) :=
  [('&', "&amp;".toList), ('<', "&lt;".toList), ('>', "&gt;".toList),
   ('\x22', "&quot;".toList), ('\x27', "&apos;".toList), (' ', "&nbsp;".toList)]

def lineBreak : List Char := "<br>".toList

def escapes : List (Char × List Char) :=
  entities ++ [('\n', lineBreak)]

/-- The characters that mean something to HTML. -/
def reserved : List Char := ['&', '<', '>', '\x22', '\x27']

/-- The text with every escape undone. -/
def unescape : List Char → List Char
  | [] => []
  | c :: rest =>
      match escapes.find? fun e => e.2.isPrefixOf (c :: rest) with
      | some e => e.1 :: unescape (rest.drop (e.2.length - 1))
      | none => c :: unescape rest
termination_by text => text.length
decreasing_by
  · rw [List.length_drop, List.length_cons]
    omega
  · exact Nat.lt_succ_self _

/-- A character is escaped, or stands for itself if it means nothing to HTML. -/
theorem htmlChar_cases (c : Char) :
    (c, Token.htmlChar c) ∈ entities ∨ c = '\n' ∧ Token.htmlChar c = lineBreak ∨
      c ∉ reserved ∧ Token.htmlChar c = [c] := by
  unfold Token.htmlChar
  split
  case h_7 => exact .inr (.inl ⟨rfl, rfl⟩)
  case h_8 hamp hless hgreater hquote hapostrophe _ _ =>
      refine .inr (.inr ⟨?_, rfl⟩)
      simp only [reserved, List.mem_cons, List.not_mem_nil, or_false, not_or]
      exact ⟨hamp, hless, hgreater, hquote, hapostrophe⟩
  all_goals exact .inl (by decide)

/-- No escape begins another one. -/
theorem find?_escape {e : Char × List Char} (he : e ∈ escapes) (rest : List Char) :
    (escapes.find? fun x => x.2.isPrefixOf (e.2 ++ rest)) = some e := by
  simp only [escapes, entities, List.cons_append, List.nil_append, List.mem_cons,
    List.not_mem_nil, or_false] at he
  rcases he with rfl | rfl | rfl | rfl | rfl | rfl | rfl <;> rfl

theorem head?_escape : ∀ e ∈ escapes, ∃ x ∈ reserved, e.2.head? = some x := by
  intro e he
  have hall : escapes.all (fun e => e.2.head?.any (· ∈ reserved)) = true := by
    decide
  obtain ⟨x, hx, hmem⟩ := (Option.any_eq_true _ _).mp (List.all_eq_true.mp hall e he)
  exact ⟨x, of_decide_eq_true hmem, hx⟩

theorem unescape_escape {e : Char × List Char} (he : e ∈ escapes) (rest : List Char) :
    unescape (e.2 ++ rest) = e.1 :: unescape rest := by
  have hfind := find?_escape he rest
  obtain ⟨x, -, hhead⟩ := head?_escape e he
  obtain ⟨text, htext⟩ := List.head?_eq_some_iff.mp hhead
  rw [htext, List.cons_append] at hfind ⊢
  rw [unescape, hfind]
  simp [htext]

theorem unescape_plain {c : Char} (hc : c ∉ reserved) (rest : List Char) :
    unescape (c :: rest) = c :: unescape rest := by
  have hnone : (escapes.find? fun e => e.2.isPrefixOf (c :: rest)) = none := by
    rw [List.find?_eq_none]
    intro e he hstarts
    obtain ⟨behind, hbehind⟩ := List.isPrefixOf_iff_prefix.mp hstarts
    -- an escape that the text starts with would start with the character
    obtain ⟨x, hx, hhead⟩ := head?_escape e he
    obtain ⟨text, htext⟩ := List.head?_eq_some_iff.mp hhead
    rw [htext, List.cons_append] at hbehind
    obtain ⟨rfl, -⟩ := List.cons.inj hbehind
    exact hc hx
  rw [unescape, hnone]

/-- What is escaped is read back. -/
theorem unescape_flatMap (text : List Char) : unescape (text.flatMap Token.htmlChar) = text := by
  induction text with
  | nil => rw [List.flatMap_nil, unescape]
  | cons c text ih =>
      rw [List.flatMap_cons]
      rcases htmlChar_cases c with hentity | ⟨rfl, hbreak⟩ | ⟨hplain, hself⟩
      · have hescape : (c, Token.htmlChar c) ∈ escapes := List.mem_append_left _ hentity
        rw [unescape_escape hescape, ih]
      · have hescape : ('\n', Token.htmlChar '\n') ∈ escapes := by
          rw [hbreak]
          exact List.mem_append_right _ (List.mem_singleton_self _)
        rw [unescape_escape hescape, ih]
      · rw [hself, List.singleton_append, unescape_plain hplain, ih]

/-! ## Text that HTML leaves alone -/

/-- Nothing in a text is a tag except line breaks, and nothing but entities starts like one. -/
structure Harmless (text : List Char) : Prop where
  quote_notMem : '\x22' ∉ text
  apostrophe_notMem : '\x27' ∉ text
  less : ∀ s, s <:+ text → s.head? = some '<' → lineBreak <+: s
  greater : ∀ s, s <+: text → s.getLast? = some '>' → lineBreak <:+ s
  ampersand : ∀ s, s <:+ text → s.head? = some '&' → ∃ e ∈ entities, e.2 <+: s

/-- An ending of two texts is one of the second, or begins in the first. -/
theorem suffix_append_cases {s a b : List Char} (h : s <:+ a ++ b) :
    s <:+ b ∨ ∃ c t, c :: t <:+ a ∧ s = c :: t ++ b := by
  obtain ⟨before, hbefore⟩ := h
  rcases List.append_eq_append_iff.mp hbefore with ⟨t, rfl, rfl⟩ | ⟨t, rfl, rfl⟩
  · cases t with
    | nil => exact .inl (List.suffix_refl _)
    | cons c t => exact .inr ⟨c, t, ⟨before, rfl⟩, rfl⟩
  · exact .inl ⟨t, rfl⟩

/-- A beginning of two texts is one of the first, or ends in the second. -/
theorem prefix_append_cases {s a b : List Char} (h : s <+: a ++ b) :
    s <+: a ∨ ∃ t, t ≠ [] ∧ t <+: b ∧ s = a ++ t := by
  obtain ⟨behind, hbehind⟩ := h
  rcases List.append_eq_append_iff.mp hbehind with ⟨t, rfl, -⟩ | ⟨t, rfl, rfl⟩
  · exact .inl ⟨t, rfl⟩
  · by_cases ht : t = []
    · exact .inl (by rw [ht, List.append_nil])
    · exact .inr ⟨t, ht, ⟨behind, rfl⟩, rfl⟩

namespace Harmless

theorem nil : Harmless [] where
  quote_notMem := List.not_mem_nil
  apostrophe_notMem := List.not_mem_nil
  less s hs hhead := by simp [List.suffix_nil.mp hs] at hhead
  greater s hs hlast := by simp [List.prefix_nil.mp hs] at hlast
  ampersand s hs hhead := by simp [List.suffix_nil.mp hs] at hhead

/-- No tag and no entity goes over the end of a text. -/
theorem append {a b : List Char} (ha : Harmless a) (hb : Harmless b) : Harmless (a ++ b) where
  quote_notMem := by
    rw [List.mem_append, not_or]
    exact ⟨ha.quote_notMem, hb.quote_notMem⟩
  apostrophe_notMem := by
    rw [List.mem_append, not_or]
    exact ⟨ha.apostrophe_notMem, hb.apostrophe_notMem⟩
  less s hs hhead := by
    rcases suffix_append_cases hs with hs | ⟨c, t, ht, rfl⟩
    · exact hb.less s hs hhead
    · exact (ha.less _ ht hhead).trans (List.prefix_append _ b)
  greater s hs hlast := by
    rcases prefix_append_cases hs with hs | ⟨t, hne, ht, rfl⟩
    · exact ha.greater s hs hlast
    · rw [List.getLast?_append_of_ne_nil _ hne] at hlast
      exact (hb.greater t ht hlast).trans (List.suffix_append a t)
  ampersand s hs hhead := by
    rcases suffix_append_cases hs with hs | ⟨c, t, ht, rfl⟩
    · exact hb.ampersand s hs hhead
    · obtain ⟨e, he, hstarts⟩ := ha.ampersand _ ht hhead
      exact ⟨e, he, hstarts.trans (List.prefix_append _ b)⟩

/-- A text with no reserved character but an entity's ampersand in front. -/
theorem of_tail {c : Char} {text : List Char} (htext : ∀ x ∈ text, x ∉ reserved)
    (hc : c ∈ reserved → c = '&' ∧ ∃ e ∈ entities, e.2 = c :: text) : Harmless (c :: text) := by
  have honly : ∀ x ∈ c :: text, x ∈ reserved → x = '&' := by
    intro x hx hreserved
    rcases List.mem_cons.mp hx with rfl | hx
    · exact (hc hreserved).1
    · exact absurd hreserved (htext x hx)
  constructor
  case quote_notMem =>
      intro hmem
      exact absurd (honly _ hmem (by decide)) (by decide)
  case apostrophe_notMem =>
      intro hmem
      exact absurd (honly _ hmem (by decide)) (by decide)
  case less =>
      intro s hs hhead
      have hmem := hs.subset (List.mem_of_head? hhead)
      exact absurd (honly _ hmem (by decide)) (by decide)
  case greater =>
      intro s hs hlast
      have hmem := hs.subset (List.mem_of_getLast? hlast)
      exact absurd (honly _ hmem (by decide)) (by decide)
  case ampersand =>
      intro s hs hhead
      rcases List.suffix_cons_iff.mp hs with rfl | hs
      · obtain rfl : c = '&' := Option.some.inj hhead
        obtain ⟨-, e, he, hsame⟩ := hc (by decide)
        exact ⟨e, he, by rw [hsame]⟩
      · exact absurd (by decide) (htext _ (hs.subset (List.mem_of_head? hhead)))

end Harmless

theorem harmless_lineBreak : Harmless lineBreak where
  quote_notMem := by decide
  apostrophe_notMem := by decide
  less s hs hhead := by
    rcases List.suffix_cons_iff.mp hs with rfl | hs
    · exact List.prefix_refl _
    · have hmem := hs.subset (List.mem_of_head? hhead)
      exact absurd hmem (by decide)
  greater s hs hlast := by
    rcases List.prefix_concat_iff.mp (show s <+: ['<', 'b', 'r'] ++ ['>'] from hs) with rfl | hs
    · exact List.suffix_refl _
    · have hmem := hs.subset (List.mem_of_getLast? hlast)
      exact absurd hmem (by decide)
  ampersand s hs hhead := by
    have hmem := hs.subset (List.mem_of_head? hhead)
    exact absurd hmem (by decide)

/-- Behind its ampersand an entity is plain. -/
theorem tail_entity : ∀ e ∈ entities, e.2.head? = some '&' ∧ ∀ x ∈ e.2.tail, x ∉ reserved := by
  intro e he
  have hall : entities.all (fun e =>
      e.2.head? = some '&' && e.2.tail.all (· ∉ reserved)) = true := by
    decide
  obtain ⟨hhead, htail⟩ := Bool.and_eq_true_iff.mp (List.all_eq_true.mp hall e he)
  refine ⟨of_decide_eq_true hhead, fun x hx => ?_⟩
  exact of_decide_eq_true (List.all_eq_true.mp htail x hx)

theorem harmless_entity {e : Char × List Char} (he : e ∈ entities) : Harmless e.2 := by
  obtain ⟨hhead, htail⟩ := tail_entity e he
  cases htext : e.2 with
  | nil => exact .nil
  | cons c text =>
      rw [htext] at hhead htail
      exact .of_tail htail fun _ => ⟨Option.some.inj hhead, e, he, htext⟩

theorem harmless_htmlChar (c : Char) : Harmless (Token.htmlChar c) := by
  rcases htmlChar_cases c with hentity | ⟨-, hbreak⟩ | ⟨hplain, hself⟩
  · exact harmless_entity hentity
  · rw [hbreak]
    exact harmless_lineBreak
  · rw [hself]
    exact .of_tail (fun x hx => absurd hx List.not_mem_nil) fun hc => absurd hc hplain

/-- Whatever a text holds, escaped it is harmless. -/
theorem harmless_flatMap (text : List Char) : Harmless (text.flatMap Token.htmlChar) := by
  induction text with
  | nil => exact .nil
  | cons c text ih => exact (harmless_htmlChar c).append ih

/-! ## Spans -/

/-- What stands between two tags, as it stands there. -/
structure Span where
  kind : TokenKind
  body : List Char

namespace Span

def opening (kind : TokenKind) : List Char :=
  "<span class=\"".toList ++ kind.className.toList ++ "\">".toList

def closing : List Char := "</span>".toList

def text (s : Span) : List Char :=
  opening s.kind ++ s.body ++ closing

def token (s : Span) : Token :=
  ⟨s.kind, String.ofList (unescape s.body)⟩

/-- The span that a token is written as. -/
def ofToken (t : Token) : Span :=
  ⟨t.kind, t.text.toList.flatMap Token.htmlChar⟩

theorem toList_html (t : Token) : t.html.toList = (ofToken t).text := by
  unfold Token.html text opening closing ofToken
  -- rewriting inside the literals is slow
  generalize "<span class=\"" = start
  generalize "\">" = stop
  generalize "</span>" = close
  simp only [String.toList_append, String.toList_ofList]

theorem token_ofToken (t : Token) : (ofToken t).token = t := by
  rw [token, ofToken, unescape_flatMap, String.ofList_toList]

end Span

/-- What comes before the first place where a mark stands, and what comes behind it. -/
def cut (mark : List Char) : List Char → Option (List Char × List Char)
  | [] => none
  | c :: rest =>
      if mark.isPrefixOf (c :: rest) then some ([], (c :: rest).drop mark.length)
      else (cut mark rest).map fun found => (c :: found.1, found.2)

def kinds : List TokenKind := [.keyword, .identifier, .literal, .comment, .punctuation]

/-- The span that a text starts with, and what comes behind it. -/
def span? (text : List Char) : Option (Span × List Char) := do
  let kind ← kinds.find? fun kind => (Span.opening kind).isPrefixOf text
  let found ← cut Span.closing (text.drop (Span.opening kind).length)
  return (⟨kind, found.1⟩, found.2)

theorem length_cut {mark text : List Char} {found : List Char × List Char}
    (h : cut mark text = some found) : found.2.length ≤ text.length := by
  induction text generalizing found with
  | nil => cases h
  | cons c rest ih =>
      rw [cut] at h
      split at h
      case isTrue =>
          cases h
          exact (List.drop_suffix _ _).length_le
      case isFalse =>
          obtain ⟨inner, hinner, rfl⟩ := Option.map_eq_some_iff.mp h
          have hle := ih hinner
          exact Nat.le_succ_of_le hle

theorem length_span? {text : List Char} {found : Span × List Char}
    (h : span? text = some found) : found.2.length < text.length := by
  obtain ⟨kind, hkind, h⟩ := Option.bind_eq_some_iff.mp h
  obtain ⟨behind, hbehind, h⟩ := Option.bind_eq_some_iff.mp h
  cases h
  have hstarts : (Span.opening kind).isPrefixOf text = true :=
    List.find?_some (p := fun k => (Span.opening k).isPrefixOf text) hkind
  have hopening := (List.isPrefixOf_iff_prefix.mp hstarts).length_le
  have hpos : 0 < (Span.opening kind).length := by cases kind <;> decide
  have hle := length_cut hbehind
  rw [List.length_drop] at hle
  show behind.2.length < text.length
  omega

/-- The spans that a text consists of. -/
def spans? (text : List Char) : Option (List Span) :=
  if text.isEmpty then some []
  else
    match _h : span? text with
    | none => none
    | some found => (spans? found.2).map (found.1 :: ·)
termination_by text.length
decreasing_by exact length_span? _h

/-- In a harmless text nothing looks like the closing tag. -/
theorem cut_closing {body : List Char}
    (hless : ∀ s, s <:+ body → s.head? = some '<' → lineBreak <+: s) (rest : List Char) :
    cut Span.closing (body ++ Span.closing ++ rest) = some (body, rest) := by
  induction body with
  | nil => rfl
  | cons c body ih =>
      have hopen : Span.closing.isPrefixOf (c :: (body ++ Span.closing ++ rest)) = false := by
        by_cases hc : c = '<'
        · obtain ⟨behind, hbehind⟩ := hless (c :: body) (List.suffix_refl _) (by rw [hc]; rfl)
          rw [← List.cons_append, ← List.cons_append, ← hbehind]
          rfl
        · rw [Bool.eq_false_iff]
          intro hstarts
          obtain ⟨behind, hbehind⟩ := List.isPrefixOf_iff_prefix.mp hstarts
          exact hc (List.cons.inj hbehind).1.symm
      have hinner := ih fun s hs => hless s (hs.trans (List.suffix_cons c body))
      rw [List.cons_append, List.cons_append, cut, hopen, hinner]
      rfl

/-- The opening tags of different kinds differ. -/
theorem find?_opening (kind : TokenKind) (rest : List Char) :
    (kinds.find? fun k => (Span.opening k).isPrefixOf (Span.opening kind ++ rest)) =
      some kind := by
  cases kind <;> rfl

theorem span?_text {s : Span} (hs : Harmless s.body) (rest : List Char) :
    span? (s.text ++ rest) = some (s, rest) := by
  have hfind := find?_opening s.kind (s.body ++ Span.closing ++ rest)
  have hcut := cut_closing hs.less rest
  rw [← List.append_assoc, ← List.append_assoc] at hfind
  rw [span?, Span.text, hfind]
  simp only [Option.bind_eq_bind, Option.bind_some, List.append_assoc, List.drop_left]
  rw [← List.append_assoc, hcut]
  rfl

theorem spans?_flatMap {spans : List Span} (h : ∀ s ∈ spans, Harmless s.body) :
    spans? (spans.flatMap Span.text) = some spans := by
  induction spans with
  | nil => rw [List.flatMap_nil, spans?, List.isEmpty_nil, if_pos rfl]
  | cons s spans ih =>
      have hspan := span?_text (h s List.mem_cons_self) (spans.flatMap Span.text)
      have hrest := ih fun t ht => h t (List.mem_cons_of_mem _ ht)
      have hnonempty : (s.text ++ spans.flatMap Span.text).isEmpty = false := by
        obtain ⟨kind, body⟩ := s
        rfl
      rw [List.flatMap_cons, spans?, hnonempty]
      split
      case isTrue hfalse => cases hfalse
      case isFalse =>
          split
          case h_1 hnone => cases hspan.symm.trans hnone
          case h_2 found hfound =>
              cases hspan.symm.trans hfound
              rw [hrest]
              rfl

end Markup

namespace Code

/-- The HTML of a code is that of its tokens, one span for each. -/
theorem toList_html (code : Code) :
    code.html.toList = (code.tokens.toList.map Markup.Span.ofToken).flatMap Markup.Span.text := by
  rw [html, String.toList_join, List.flatMap_map, List.flatMap_map]
  exact List.flatMap_congr fun t _ => Markup.Span.toList_html t

theorem exists_spans (code : Code) :
    ∃ spans, Markup.spans? code.html.toList = some spans ∧
      code.html.toList = spans.flatMap Markup.Span.text ∧
      spans.map Markup.Span.token = code.tokens.toList ∧
      ∀ s ∈ spans, Markup.Harmless s.body := by
  have hharmless : ∀ s ∈ code.tokens.toList.map Markup.Span.ofToken, Markup.Harmless s.body := by
    intro s hs
    obtain ⟨t, -, rfl⟩ := List.mem_map.mp hs
    exact Markup.harmless_flatMap t.text.toList
  refine ⟨_, ?_, code.toList_html, ?_, hharmless⟩
  · rw [toList_html, Markup.spans?_flatMap hharmless]
  · rw [List.map_map]
    exact (List.map_congr_left fun t _ => Markup.Span.token_ofToken t).trans (List.map_id _)

/-- The HTML of a code is made of spans.  Between their tags there is nothing that HTML could
take for a tag or an entity of its own, and read back they are the tokens, so no two codes have
the same HTML. -/
theorem html_readBack :
    (∀ code : Code, ∃ spans, Markup.spans? code.html.toList = some spans ∧
      code.html.toList = spans.flatMap Markup.Span.text ∧
      spans.map Markup.Span.token = code.tokens.toList ∧
      ∀ s ∈ spans, Markup.Harmless s.body) ∧
    Function.Injective html := by
  refine ⟨exists_spans, ?_⟩
  intro a b hab
  obtain ⟨spans, hread, -, htokens, -⟩ := exists_spans a
  obtain ⟨spans', hread', -, htokens', -⟩ := exists_spans b
  rw [hab] at hread
  cases hread.symm.trans hread'
  exact congrArg Code.mk (Array.toList_inj.mp (htokens.symm.trans htokens'))

end Code

end DwarfOne
