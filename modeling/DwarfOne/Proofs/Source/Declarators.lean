/-
# `Proofs.Source.Declarators` — what stands around a name

A declaration may be looked at in more than one way.  `pushed` leaves out tokens without text.
`lexemes` also leaves out comments and blanks, and the words that say nothing of what a declared
name is made of, such as `const` and `static`.  Either way it is the same declaration, and all
that is needed for that is said in `IsView`.

The tokens of a declarator are marks before the name (`Prefixes`) and groups behind it
(`Suffixes`), with parentheses between.  `Around` says what a reader makes of the two sides of a
name, and `Around.ofTokens?_eq` what it makes of the whole.
-/
import DwarfOne.Proofs.Source.Reading
import DwarfOne.Proofs.Source.Toggles
import Mathlib.Data.List.Chain

namespace DwarfOne

/-! ## Lexemes -/

namespace Token

/-- Whether the token is a word that does not change what is declared. -/
def isIgnored (t : Token) : Bool :=
  t.kind = .keyword && ["const", "volatile", "static", "inline", "typedef"].contains t.text

def lexeme? (t : Token) : Option Token :=
  t.bare?.filter fun u => !u.text.isEmpty && !u.isIgnored

def lexemes (ts : List Token) : List Token :=
  ts.filterMap lexeme?

section Lexemes

variable {ts ts' : List Token} {stack : List Bracket}

@[simp] theorem lexemes_append : lexemes (ts ++ ts') = lexemes ts ++ lexemes ts' :=
  List.filterMap_append

theorem lexemes_cons (t : Token) : lexemes (t :: ts) = t.lexeme?.toList ++ lexemes ts := by
  cases h : t.lexeme? with
  | none => simp [lexemes, h]
  | some u => simp [lexemes, h]

@[simp] theorem lexemes_space : lexemes (space :: ts) = lexemes ts := by
  have hnone : space.lexeme? = none := by decide
  rw [lexemes_cons, hnone]
  rfl

@[simp] theorem lexemes_ofIdentifier {text : String} (h : text ≠ "") :
    lexemes (ofIdentifier text :: ts) = ofIdentifier text :: lexemes ts := by
  have hsome : (ofIdentifier text).lexeme? = some (ofIdentifier text) := by
    simp [lexeme?, bare?, ofIdentifier, isIgnored, h]
  rw [lexemes_cons, hsome]
  rfl

theorem after_of_kind {t : Token} (h : t.kind ≠ .punctuation) : after stack [t] = some stack := by
  simp [after, marks, h]

/-- Blanks are no brackets. -/
theorem isPlain_of_blank {c : Char} (h : Text.blank.contains c = true) :
    Bracket.isPlain c = true := by
  have hne : ∀ b ∈ ['(', '[', '\x7b', ')', ']', '\x7d'], c ≠ b := by
    rintro b hb rfl
    have hnone : ['(', '[', '\x7b', ')', ']', '\x7d'].all (!Text.blank.contains ·) = true := by
      decide
    have hblank := List.all_eq_true.mp hnone c hb
    rw [h] at hblank
    cases hblank
  simp_all [Bracket.opened?, Bracket.closed?]

/-- So it makes no difference to brackets whether they are there. -/
theorem foldlM_filter_blank (cs : List Char) (stack : List Bracket) :
    (cs.filter (!Text.blank.contains ·)).foldlM Bracket.step stack =
      cs.foldlM Bracket.step stack := by
  induction cs generalizing stack with
  | nil => rfl
  | cons c cs ih =>
      by_cases hblank : Text.blank.contains c = true
      · rw [List.filter_cons_of_neg (by simp [hblank]), List.foldlM_cons,
          Bracket.step_of_isPlain (isPlain_of_blank hblank), ih]
        rfl
      · rw [List.filter_cons_of_pos (by simp [hblank]), List.foldlM_cons, List.foldlM_cons]
        simp only [ih]

theorem after_bare? (t : Token) : after stack t.bare?.toList = after stack [t] := by
  obtain ⟨kind, text⟩ := t
  cases kind with
  | punctuation =>
      have hmarks : ∀ text, after stack [⟨.punctuation, text⟩] =
          text.toList.foldlM Bracket.step stack := by
        intro text
        simp [after, marks]
      show after stack [⟨.punctuation, _⟩] = after stack [⟨.punctuation, _⟩]
      rw [hmarks, hmarks, String.toList_ofList, foldlM_filter_blank]
  | _ => rfl

theorem after_lexeme? (t : Token) : after stack t.lexeme?.toList = after stack [t] := by
  rw [← after_bare? t, lexeme?]
  cases t.bare? with
  | none => rfl
  | some u =>
      rw [Option.filter_some]
      split
      case isTrue => rfl
      case isFalse hdropped =>
          simp only [Bool.and_eq_true, Bool.not_eq_true', not_and, Bool.not_eq_false] at hdropped
          by_cases htext : u.text.isEmpty = true
          · simp [after, marks, String.isEmpty_iff.mp htext]
          · have hkind : u.kind = .keyword := by
              have hignored := hdropped (by simpa using htext)
              simp only [isIgnored, Bool.and_eq_true, decide_eq_true_eq] at hignored
              exact hignored.1
            exact (after_of_kind (by simp [hkind])).symm

/-- Whatever is not read opens and closes nothing. -/
@[simp] theorem after_lexemes : after stack (lexemes ts) = after stack ts := by
  induction ts generalizing stack with
  | nil => rfl
  | cons t ts ih =>
      rw [lexemes_cons, after_append, after_lexeme?]
      simp only [ih]
      exact (after_cons t).symm

/-- No blank is left. -/
theorem space_notMem_lexemes : space ∉ lexemes ts := by
  intro hmem
  obtain ⟨t, -, hlexeme⟩ := List.mem_filterMap.mp hmem
  obtain ⟨hbare, -⟩ := Option.filter_eq_some_iff.mp hlexeme
  obtain ⟨kind, text⟩ := t
  cases kind with
  | punctuation =>
      have htext : String.ofList (text.toList.filter (!Text.blank.contains ·)) = " " :=
        congrArg Token.text (Option.some.inj hbare)
      have hblank : ' ' ∈ text.toList.filter (!Text.blank.contains ·) := by
        rw [← String.toList_ofList (l := text.toList.filter _), htext]
        decide
      exact absurd (List.mem_filter.mp hblank).2 (by decide)
  | comment => cases hbare
  | _ => cases congrArg Token.kind (Option.some.inj hbare)

end Lexemes

end Token

open Token

/-! ## Layers -/

namespace Layer

def ofModifier (m : Modifier) : Layer :=
  match m.kind with
  | .pointer => pointer
  | .reference => reference

/-- The layers of modifiers, outermost first. -/
def ofModifiers (ms : List Modifier) : List Layer :=
  (ms.map ofModifier).reverse

theorem ofModifiers_cons (m : Modifier) (ms : List Modifier) :
    ofModifiers (m :: ms) = ofModifiers ms ++ [ofModifier m] := by
  rw [ofModifiers, List.map_cons, List.reverse_cons]
  rfl

def ofDimension : Option UInt32 → Layer
  | some n => array [ofLiteral (Numeral.decimal n.toNat)]
  | none => array []

theorem isArray_ofDimension (dimension : Option UInt32) :
    (ofDimension dimension).isArray = true := by
  cases dimension <;> rfl

theorem isMark_ofModifier (m : Modifier) : (ofModifier m).isMark = true := by
  unfold ofModifier
  cases m.kind <;> rfl

theorem isMark_of_mem_ofModifiers {ms : List Modifier} {l : Layer} (h : l ∈ ofModifiers ms) :
    l.isMark = true := by
  rw [ofModifiers, List.mem_reverse] at h
  obtain ⟨m, -, rfl⟩ := List.mem_map.mp h
  exact isMark_ofModifier m

theorem isMember_of_mem_ofModifiers {ms : List Modifier} {l : Layer} (h : l ∈ ofModifiers ms) :
    l.isMember = false := by
  rw [ofModifiers, List.mem_reverse] at h
  obtain ⟨m, -, rfl⟩ := List.mem_map.mp h
  unfold ofModifier
  cases m.kind <;> rfl

theorem isMember_of_mem_dimensions {dimensions : List (Option UInt32)} {l : Layer}
    (h : l ∈ dimensions.map ofDimension) : l.isMember = false := by
  obtain ⟨dimension, -, rfl⟩ := List.mem_map.mp h
  cases dimension <;> rfl

theorem isArray_eq_false_of_isMark {l : Layer} (h : l.isMark = true) : l.isArray = false := by
  cases l <;> first | rfl | cases h

/-- Modifiers in front are no arrays. -/
theorem head?_ofModifiers_append {ms : List Modifier} {layers : List Layer}
    (h : ms = [] → ∀ l ∈ layers.head?, l.isArray = false) :
    ∀ l ∈ (ofModifiers ms ++ layers).head?, l.isArray = false := by
  cases hms : ofModifiers ms with
  | nil =>
      rw [ofModifiers, List.reverse_eq_nil_iff, List.map_eq_nil_iff] at hms
      exact h hms
  | cons first others =>
      intro l hl
      obtain rfl : first = l := Option.some.inj hl
      have hmem : first ∈ ofModifiers ms := by
        rw [hms]
        exact List.mem_cons_self
      exact isArray_eq_false_of_isMark (isMark_of_mem_ofModifiers hmem)

end Layer

/-- Nowhere does a pointer to a member lead to an array. -/
def Spellable (layers : List Layer) : Prop :=
  layers.IsChain fun l l' => ¬ (l.isMember = true ∧ l'.isArray = true)

theorem spellable_member {owner : String} {layers : List Layer} :
    Spellable (.member owner :: layers) ↔
      (∀ l ∈ layers.head?, l.isArray = false) ∧ Spellable layers := by
  simp [Spellable, List.isChain_cons, Layer.isMember]

/-- Other layers in front do not matter. -/
theorem spellable_append {layers layers' : List Layer} (h : ∀ l ∈ layers, l.isMember = false) :
    Spellable (layers ++ layers') ↔ Spellable layers' := by
  induction layers with
  | nil => rfl
  | cons l layers ih =>
      rw [← ih fun l hl => h l (List.mem_cons_of_mem _ hl)]
      simp [Spellable, List.isChain_cons, h l List.mem_cons_self]

theorem spellable_of_forall_isMark {layers : List Layer} (h : ∀ l ∈ layers, l.isMark = true) :
    Spellable layers := by
  induction layers with
  | nil => exact .nil
  | cons l layers ih =>
      refine List.isChain_cons.mpr ⟨fun l' hl' hcond => ?_, ih fun l hl => h l (.tail _ hl)⟩
      have hmark := h l' (.tail _ (List.mem_of_mem_head? hl'))
      rw [Layer.isArray_eq_false_of_isMark hmark] at hcond
      cases hcond.2

theorem spellable_of_forall_not_isMember {layers : List Layer}
    (h : ∀ l ∈ layers, l.isMember = false) : Spellable layers := by
  rw [← List.append_nil layers, spellable_append h]
  exact .nil

/-! ## Marks and groups -/

section Parts

variable {ts ts' : List Token} {layers layers' : List Layer}

/-- Marks before a name, each with its layer. -/
structure Prefixes (ts : List Token) (layers : List Layer) : Prop where
  reads : ∀ marks outer, (Declarator.before marks outer).run ts =
    some (.before (layers ++ marks) outer)
  passes : ∀ stack, SpecifierScan.Passes stack ts stack

theorem prefixes_nil : Prefixes [] [] where
  reads _ _ := rfl
  passes := SpecifierScan.passes_nil

/-- What comes later is nearer to the name. -/
theorem Prefixes.append (h : Prefixes ts layers) (h' : Prefixes ts' layers') :
    Prefixes (ts ++ ts') (layers' ++ layers) where
  reads marks outer := by
    rw [Declarator.run_append, h.reads, Option.bind_some, h'.reads, List.append_assoc]
  passes stack := (h.passes stack).append (h'.passes stack)

/-- Blanks and qualifiers are passed over. -/
theorem prefixes_quiet {t : Token} (h : t = space ∨ t.isQualifier = true) : Prefixes [t] [] := by
  rcases h with rfl | h
  · exact ⟨fun _ _ => rfl, fun _ => SpecifierScan.passes_singleton rfl (by decide)⟩
  · rcases isQualifier_iff.mp h with rfl | rfl
    · exact ⟨fun _ _ => rfl, fun _ => SpecifierScan.passes_singleton rfl (by decide)⟩
    · exact ⟨fun _ _ => rfl, fun _ => SpecifierScan.passes_singleton rfl (by decide)⟩

theorem prefixes_mark (m : Modifier) :
    Prefixes [Source.modifierMark m.kind] [Layer.ofModifier m] := by
  unfold Layer.ofModifier
  cases m.kind with
  | pointer => exact ⟨fun _ _ => rfl, fun _ => SpecifierScan.passes_singleton rfl (by decide)⟩
  | reference => exact ⟨fun _ _ => rfl, fun _ => SpecifierScan.passes_singleton rfl (by decide)⟩

theorem passes_identifier (text : String) (stack : List Bracket) :
    SpecifierScan.Passes stack [ofIdentifier text] stack :=
  SpecifierScan.passes_singleton rfl (by simp [ofIdentifier, ofPunctuation])

/-- The class of a pointer to a member. -/
theorem prefixes_member (owner : String) :
    Prefixes [ofIdentifier owner, ofPunctuation "::*"] [.member owner] where
  reads _ _ := rfl
  passes stack := (passes_identifier owner stack).append
    (SpecifierScan.passes_singleton rfl (by decide))

/-- Groups behind a name, each with its layer. -/
structure Suffixes (ts : List Token) (layers : List Layer) : Prop where
  reads : ∀ b, (Declarator.behind b).run ts =
    some (.behind { b with layers := b.layers ++ layers })
  passes : ∀ stack, SpecifierScan.Passes stack ts stack

theorem suffixes_nil : Suffixes [] [] where
  reads b := by simp
  passes := SpecifierScan.passes_nil

theorem Suffixes.append (h : Suffixes ts layers) (h' : Suffixes ts' layers') :
    Suffixes (ts ++ ts') (layers ++ layers') where
  reads b := by rw [Declarator.run_append, h.reads, Option.bind_some, h'.reads, List.append_assoc]
  passes stack := (h.passes stack).append (h'.passes stack)

theorem suffixes_function (h : Balanced ts) :
    Suffixes ([ofPunctuation "("] ++ ts ++ [ofPunctuation ")"]) [.function ts] where
  reads _ := Declarator.run_group .round h rfl rfl
  passes _ := SpecifierScan.passes_group h
    (SpecifierScan.passes_singleton rfl (by decide))
    (SpecifierScan.passes_singleton rfl (by decide))

theorem suffixes_array (h : Balanced ts) :
    Suffixes ([ofPunctuation "["] ++ ts ++ [ofPunctuation "]"]) [.array ts] where
  reads _ := Declarator.run_group .square h rfl rfl
  passes _ := SpecifierScan.passes_group h
    (SpecifierScan.passes_singleton rfl (by decide))
    (SpecifierScan.passes_singleton rfl (by decide))

theorem suffixes_dimensions (a : ArrayType) :
    Suffixes (Source.dimensions a) (a.dimensions.map Layer.ofDimension) := by
  unfold Source.dimensions
  induction a.dimensions with
  | nil => exact suffixes_nil
  | cons dimension rest ih =>
      rw [List.flatMap_cons, List.map_cons]
      show Suffixes _ ([Layer.ofDimension dimension] ++ rest.map Layer.ofDimension)
      refine Suffixes.append ?_ ih
      cases dimension with
      | none =>
          have hempty : Balanced [] := fun _ => rfl
          exact suffixes_array hempty
      | some n =>
          have hliteral : Balanced [ofLiteral (Numeral.decimal n.toNat)] := fun _ => rfl
          exact suffixes_array hliteral

theorem head?_dimensions (a : ArrayType) :
    Source.dimensions a = [] ∨ (Source.dimensions a).head? = some (ofPunctuation "[") := by
  unfold Source.dimensions
  cases a.dimensions with
  | nil => exact .inl rfl
  | cons dimension rest => cases dimension <;> exact .inr rfl

/-- Qualifiers, each set off from what follows. -/
inductive Qualifies : List Token → Prop
  | nil : Qualifies []
  | cons {t : Token} {ts : List Token} (ht : t.isQualifier = true) (hts : Qualifies ts) :
      Qualifies (t :: space :: ts)

theorem Qualifies.append (h : Qualifies ts) (h' : Qualifies ts') : Qualifies (ts ++ ts') := by
  induction h with
  | nil => exact h'
  | cons ht _ ih => exact .cons ht ih

theorem Qualifies.eq_nil (h : Qualifies ts) (hspace : space ∉ ts) : ts = [] := by
  cases h with
  | nil => rfl
  | cons ht hts => exact absurd (List.mem_cons_of_mem _ List.mem_cons_self) hspace

/-- Where there are no blanks, nothing is set off. -/
theorem dropQualifiers_of_notMem (h : space ∉ ts) : dropQualifiers ts = ts := by
  match ts with
  | [] => rfl
  | [t] => rfl
  | t :: t' :: rest =>
      rw [dropQualifiers, if_neg]
      intro hcond
      simp only [Bool.and_eq_true, decide_eq_true_eq] at hcond
      exact h (hcond.1.2 ▸ List.mem_cons_of_mem _ List.mem_cons_self)

end Parts

/-! ## Ways of looking at a declaration -/

/-- What is seen of tokens.  Blanks and words may be passed over, but not the parts of a
declarator. -/
structure IsView (view : List Token → List Token) : Prop where
  append : ∀ ts ts', view (ts ++ ts') = view ts ++ view ts'
  after : ∀ stack ts, after stack (view ts) = after stack ts
  word : ∀ {t : Token}, t.kind = .keyword ∨ t.kind = .identifier →
    view [t] = [] ∨ view [t] = [t]
  identifier : ∀ {text : String}, text ≠ "" → view [ofIdentifier text] = [ofIdentifier text]
  literal : ∀ {text : String}, text ≠ "" → view [ofLiteral text] = [ofLiteral text]
  mark : ∀ text ∈ ["*", "&", "::*", "(", ")", "[", "]", "\x7d"],
    view [ofPunctuation text] = [ofPunctuation text]
  /-- A parenthesis may be seen without the blank before it. -/
  opening : ∃ text ∈ ["(", " ("], view [ofPunctuation " ("] = [ofPunctuation text]
  space : view [space] = [] ∨ view [space] = [space]
  qualifiers : ∀ ty, Qualifies (view (Source.baseQualifiers ty))

theorem isView_pushed : IsView pushed where
  append _ _ := pushed_append
  after _ _ := after_pushed
  word := by
    intro t _
    by_cases h : t.text = ""
    · exact .inl (pushed_cons_empty h)
    · exact .inr (pushed_cons h)
  identifier h := pushed_cons h
  literal h := pushed_cons h
  mark := by
    intro text h
    refine pushed_cons ?_
    rintro rfl
    exact absurd h (by decide)
  opening := ⟨" (", by decide, rfl⟩
  space := .inr rfl
  qualifiers ty := by
    unfold Source.baseQualifiers
    cases ty.isConst <;> cases ty.isVolatile
    · exact .nil
    · exact .cons rfl .nil
    · exact .cons rfl .nil
    · exact .cons rfl (.cons rfl .nil)

theorem isView_lexemes : IsView lexemes where
  append _ _ := lexemes_append
  after _ _ := after_lexemes
  word := by
    intro t ht
    have hbare : t.bare? = some t := by
      rcases ht with ht | ht <;> simp [bare?, ht]
    by_cases h : t.lexeme? = some t
    · exact .inr (List.filterMap_cons_some h)
    · refine .inl (List.filterMap_cons_none ?_)
      rw [lexeme?, hbare, Option.filter_some] at h ⊢
      exact if_neg fun hcond => h (if_pos hcond)
  identifier h := lexemes_ofIdentifier h
  literal {text} h := by
    have hsome : (ofLiteral text).lexeme? = some (ofLiteral text) := by
      simp [lexeme?, bare?, ofLiteral, isIgnored, h]
    simp [lexemes, hsome]
  mark := by
    intro text h
    simp only [List.mem_cons, List.not_mem_nil, or_false] at h
    rcases h with rfl | rfl | rfl | rfl | rfl | rfl | rfl | rfl <;> decide
  opening := ⟨"(", by decide, by decide⟩
  space := .inl lexemes_space
  qualifiers ty := by
    unfold Source.baseQualifiers
    cases ty.isConst <;> cases ty.isVolatile <;> exact .nil

namespace IsView

variable {view : List Token → List Token} (hview : IsView view)

include hview

theorem nil : view [] = [] := by
  have hself := hview.append [] []
  rw [List.append_nil] at hself
  exact List.self_eq_append_right.mp hself

theorem balanced {ts : List Token} (h : Balanced ts) : Balanced (view ts) := by
  intro stack
  rw [hview.after, h]

/-- Blanks and qualifiers are passed over, seen or not. -/
theorem prefixes_of_forall {ts : List Token}
    (h : ∀ t ∈ ts, t = Token.space ∨ t.isQualifier = true) : Prefixes (view ts) [] := by
  induction ts with
  | nil =>
      rw [hview.nil]
      exact prefixes_nil
  | cons t ts ih =>
      have hseen : view [t] = [] ∨ view [t] = [t] := by
        rcases h t List.mem_cons_self with rfl | ht
        · exact hview.space
        · refine hview.word (.inl ?_)
          rcases isQualifier_iff.mp ht with rfl | rfl <;> rfl
      have hfirst : Prefixes (view [t]) [] := by
        rcases hseen with hseen | hseen
        · rw [hseen]
          exact prefixes_nil
        · rw [hseen]
          exact prefixes_quiet (h t List.mem_cons_self)
      have hall := hfirst.append (ih fun t ht => h t (List.mem_cons_of_mem _ ht))
      rwa [← hview.append] at hall

theorem prefixes_spaceUnless (tight : Bool) :
    Prefixes (view (if tight then [] else [Token.space])) [] := by
  refine hview.prefixes_of_forall fun t ht => .inl ?_
  cases tight with
  | true => cases ht
  | false => exact List.mem_singleton.mp ht

theorem view_mark (kind : ModifierKind) :
    view [Source.modifierMark kind] = [Source.modifierMark kind] := by
  cases kind with
  | pointer => exact hview.mark "*" (by decide)
  | reference => exact hview.mark "&" (by decide)

/-- Of modifiers at least the marks are seen. -/
theorem prefixes_modifiers (ms : List Modifier) :
    Prefixes (view (Source.modifiers ms)) (Layer.ofModifiers ms) := by
  induction ms with
  | nil =>
      rw [Source.modifiers, hview.nil]
      exact prefixes_nil
  | cons m rest ih =>
      rw [Source.modifiers, hview.append, hview.append, hview.view_mark, Layer.ofModifiers_cons]
      refine ((prefixes_mark m).append (hview.prefixes_of_forall fun t ht => ?_)).append ih
      obtain ⟨kind, isConst, isVolatile⟩ := m
      cases isConst <;> cases isVolatile <;> cases rest <;>
        grind [Source.qualifiers, isQualifier]

theorem head?_modifiers (m : Modifier) (rest : List Modifier) :
    (view (Source.modifiers (m :: rest))).head? = some (Source.modifierMark m.kind) := by
  rw [Source.modifiers, hview.append, hview.append, hview.view_mark]
  rfl

theorem view_dimensions (a : ArrayType) : view (Source.dimensions a) = Source.dimensions a := by
  unfold Source.dimensions
  induction a.dimensions with
  | nil => exact hview.nil
  | cons dimension rest ih =>
      rw [List.flatMap_cons, hview.append, ih]
      congr 1
      have hopening := hview.mark "[" (by decide)
      have hclosing := hview.mark "]" (by decide)
      cases dimension with
      | none =>
          show view ([ofPunctuation "["] ++ [ofPunctuation "]"]) = _
          rw [hview.append, hopening, hclosing]
          rfl
      | some n =>
          have hdigits : Numeral.decimal n.toNat ≠ "" := by
            simp [Numeral.decimal, String.ofList_eq_empty_iff, Nat.toDigits_ne_nil]
          show view ([ofPunctuation "["] ++ [ofLiteral _] ++ [ofPunctuation "]"]) = _
          rw [hview.append, hview.append, hopening, hclosing, hview.literal hdigits]
          rfl

theorem view_parameters (inner : List Token) :
    view ([ofPunctuation "("] ++ inner ++ [ofPunctuation ")"]) =
      [ofPunctuation "("] ++ view inner ++ [ofPunctuation ")"] := by
  rw [hview.append, hview.append, hview.mark "(" (by decide), hview.mark ")" (by decide)]

theorem exists_view_opening (tight : Bool) : ∃ opening,
    view [ofPunctuation (if tight then "(" else " (")] = [opening] ∧
      (opening = ofPunctuation "(" ∨ opening = ofPunctuation " (") := by
  cases tight with
  | true => exact ⟨_, hview.mark "(" (by decide), .inl rfl⟩
  | false =>
      obtain ⟨text, htext, hopening⟩ := hview.opening
      refine ⟨_, hopening, ?_⟩
      rcases List.mem_pair.mp htext with rfl | rfl
      · exact .inl rfl
      · exact .inr rfl

end IsView

/-! ## Around a name -/

section Name

variable {ts : List Token} {layers layers' : List Layer}

/-- What stands before a name and behind it.  Arrays right behind the name come first of
what is read, and then everything else; further marks would come between the two. -/
structure Around (front : List Token) (tight : Bool) (back : List Token)
    (arrays rest : List Layer) : Prop where
  isArray : ∀ l ∈ arrays, l.isArray = true
  notArray : ∀ l ∈ rest.head?, l.isArray = false
  spellable : Spellable rest
  reads : ∃ marks outer dims tail,
    (Declarator.before [] []).run front = some (.before marks outer) ∧
      back = dims ++ tail ∧ Suffixes dims arrays ∧
      ∀ scope name inner nearer, ((Declarator.behind
          { scope, name, layers := inner, marks := nearer ++ marks, outer }).run tail).bind
        Declarator.finish = some (scope, name, inner ++ nearer ++ rest)
  /-- The parentheses that are left open are closed again, and no specifier ends here. -/
  passes : ∃ n, ∀ stack,
    SpecifierScan.Passes stack front (List.replicate n .round ++ stack) ∧
      SpecifierScan.Passes (List.replicate n .round ++ stack) back stack
  /-- A word before it is not taken for a name with dimensions, nor for a qualifier
  where it is all there is. -/
  begins : (∀ l ∈ arrays ++ rest, l.isMember = false) →
    (front = [] ∧ tight = false ∧ ∀ t ∈ back.head?, t = ofPunctuation "[") ∨
      ∃ t ∈ front.head?, t ≠ space ∧ t ≠ ofPunctuation "["
  /-- Nothing that stands behind can stand before a name. -/
  ends : (back = [] ∧ ∀ l ∈ arrays ++ rest, l.isMark = true) ∨
    ∃ t ∈ back.head?, t = ofPunctuation ")" ∨ t = ofPunctuation "["

variable {front back : List Token} {tight : Bool} {arrays rest : List Layer}

theorem IsView.around_modifiers {view : List Token → List Token} (hview : IsView view)
    (ms : List Modifier) :
    Around (view (Source.modifiers ms)) false [] [] (Layer.ofModifiers ms) where
  isArray := by simp
  notArray l hl := Layer.isArray_eq_false_of_isMark
    (Layer.isMark_of_mem_ofModifiers (List.mem_of_mem_head? hl))
  spellable := spellable_of_forall_isMark fun l hl => Layer.isMark_of_mem_ofModifiers hl
  reads := by
    have hmarks := (hview.prefixes_modifiers ms).reads [] []
    refine ⟨_, [], [], [], hmarks, rfl, suffixes_nil, ?_⟩
    intro scope name inner nearer
    simp [Declarator.finish]
  passes := ⟨0, fun stack => ⟨(hview.prefixes_modifiers ms).passes stack,
    SpecifierScan.passes_nil stack⟩⟩
  begins := by
    intro _
    cases ms with
    | nil =>
        rw [Source.modifiers, hview.nil]
        exact .inl ⟨rfl, rfl, by simp⟩
    | cons m rest =>
        refine .inr ⟨_, hview.head?_modifiers m rest, ?_⟩
        cases m.kind <;> decide
  ends := .inl ⟨rfl, fun l hl => Layer.isMark_of_mem_ofModifiers hl⟩

theorem Around.isMember (h : Around front tight back arrays rest) :
    ∀ l ∈ arrays, l.isMember = false := by
  intro l hl
  have harray := h.isArray l hl
  cases l <;> first | rfl | cases harray

theorem Around.spellable_all (h : Around front tight back arrays rest) :
    Spellable (arrays ++ rest) :=
  (spellable_append h.isMember).mpr h.spellable

/-- The arrays are those with which the layers begin. -/
theorem Around.takeWhile_append (h : Around front tight back arrays rest) :
    (arrays ++ rest).takeWhile Layer.isArray = arrays ∧
      (arrays ++ rest).dropWhile Layer.isArray = rest := by
  rw [List.takeWhile_append_of_pos h.isArray, List.dropWhile_append_of_pos h.isArray]
  cases hrest : rest with
  | nil => exact ⟨List.append_nil _, rfl⟩
  | cons l rest =>
      have hnot : l.isArray = false := h.notArray l (by rw [hrest]; rfl)
      rw [List.takeWhile_cons_of_neg (by simp [hnot]), List.dropWhile_cons_of_neg (by simp [hnot])]
      exact ⟨List.append_nil _, rfl⟩

theorem Around.eq_nil_of_head? (h : Around front tight back arrays rest)
    (hhead : ∀ l ∈ (arrays ++ rest).head?, l.isArray = false) : arrays = [] := by
  cases arrays with
  | nil => rfl
  | cons l arrays => cases (hhead l rfl).symm.trans (h.isArray l List.mem_cons_self)

/-- Dimensions right behind the name. -/
theorem Around.dimensions (h : Around front tight back arrays rest) (a : ArrayType) :
    Around front tight (Source.dimensions a ++ back)
      (a.dimensions.map Layer.ofDimension ++ arrays) rest where
  isArray l hl := by
    rcases List.mem_append.mp hl with hl | hl
    · obtain ⟨dimension, -, rfl⟩ := List.mem_map.mp hl
      exact Layer.isArray_ofDimension dimension
    · exact h.isArray l hl
  notArray := h.notArray
  spellable := h.spellable
  reads := by
    obtain ⟨marks, outer, dims, tail, hfront, rfl, hdims, htail⟩ := h.reads
    exact ⟨marks, outer, Source.dimensions a ++ dims, tail, hfront, (List.append_assoc ..).symm,
      (suffixes_dimensions a).append hdims, htail⟩
  passes := by
    obtain ⟨n, hn⟩ := h.passes
    exact ⟨n, fun stack => ⟨(hn stack).1, ((suffixes_dimensions a).passes _).append (hn stack).2⟩⟩
  begins hlayers := by
    rw [List.append_assoc] at hlayers
    rcases h.begins fun l hl => hlayers l (List.mem_append_right _ hl) with
      ⟨hfront, htight, hback⟩ | hfront
    case inr => exact .inr hfront
    refine .inl ⟨hfront, htight, ?_⟩
    rcases head?_dimensions a with hnone | hhead
    · rwa [hnone]
    · rw [List.head?_append, hhead]
      intro t ht
      exact (Option.some.inj ht).symm
  ends := by
    rcases head?_dimensions a with hnone | hhead
    · have hdimensions : a.dimensions = [] := by
        cases hall : a.dimensions with
        | nil => rfl
        | cons dimension rest =>
            rw [Source.dimensions, hall, List.flatMap_cons] at hnone
            cases dimension <;> cases hnone
      rw [hnone, hdimensions]
      exact h.ends
    · exact .inr ⟨_, by rw [List.head?_append, hhead]; rfl, .inr rfl⟩

/-- A pointer to a member does not reach the arrays behind the name. -/
theorem Around.member (h : Around front tight back arrays rest) {blank marks : List Token}
    {ms : List Modifier} (hblank : Prefixes blank [])
    (hmarks : Prefixes marks (Layer.ofModifiers ms)) (owner : String) :
    Around (front ++ blank ++ [ofIdentifier owner, ofPunctuation "::*"] ++ marks) true back arrays
      (Layer.ofModifiers ms ++ .member owner :: rest) where
  isArray := h.isArray
  notArray := Layer.head?_ofModifiers_append fun _ l hl => by
    cases hl
    rfl
  spellable := (spellable_append fun l hl => Layer.isMember_of_mem_ofModifiers hl).mpr
    (spellable_member.mpr ⟨h.notArray, h.spellable⟩)
  reads := by
    obtain ⟨before, outer, dims, tail, hfront, rfl, hdims, htail⟩ := h.reads
    refine ⟨Layer.ofModifiers ms ++ .member owner :: before, outer, dims, tail, ?_, rfl, hdims, ?_⟩
    · simp only [Declarator.run_append, hfront, Option.bind_some, hblank.reads, List.nil_append,
        (prefixes_member owner).reads, hmarks.reads, List.singleton_append]
    · intro scope name inner nearer
      have hread := htail scope name inner (nearer ++ Layer.ofModifiers ms ++ [.member owner])
      simpa only [List.append_assoc, List.singleton_append] using hread
  passes := by
    obtain ⟨n, hn⟩ := h.passes
    refine ⟨n, fun stack => ⟨?_, (hn stack).2⟩⟩
    exact (((hn stack).1.append (hblank.passes _)).append ((prefixes_member owner).passes _)).append
      (hmarks.passes _)
  begins hlayers := by
    have hmember := hlayers (.member owner) (by simp)
    cases hmember
  ends := by
    rcases h.ends with ⟨hback, hmarks⟩ | hbracket
    case inr => exact .inr hbracket
    refine .inl ⟨hback, fun l hl => ?_⟩
    rcases List.mem_append.mp hl with hl | hl
    · exact hmarks l (List.mem_append_left _ hl)
    rcases List.mem_append.mp hl with hl | hl
    · exact Layer.isMark_of_mem_ofModifiers hl
    rcases List.mem_cons.mp hl with rfl | hl
    · rfl
    · exact hmarks l (List.mem_append_right _ hl)

/-- So it is in its place only where there are none. -/
theorem Around.member_eq (h : Around front tight back arrays rest) (owner : String)
    (ms : List Modifier) (hlayers : Spellable layers → arrays ++ rest = layers)
    (hspellable : Spellable (.member owner :: layers)) :
    arrays ++ (Layer.ofModifiers ms ++ .member owner :: rest) =
      Layer.ofModifiers ms ++ .member owner :: layers := by
  obtain ⟨hhead, hspellable⟩ := spellable_member.mp hspellable
  obtain rfl := hlayers hspellable
  rw [h.eq_nil_of_head? hhead]
  rfl

/-- In parentheses, modifiers come first and then groups. -/
theorem Around.enclosed (h : Around front tight back arrays rest) {opening : Token}
    (hopening : opening = ofPunctuation "(" ∨ opening = ofPunctuation " (") {marks : List Token}
    {ms : List Modifier} (hmarks : Prefixes marks (Layer.ofModifiers ms))
    (hts : Suffixes ts layers') (hlayers : ∀ l ∈ layers', l.isMember = false)
    (hfirst : ms = [] → ∃ l ∈ layers'.head?, l.isArray = false) :
    Around (front ++ [opening] ++ marks) true ([ofPunctuation ")"] ++ ts ++ back) []
      (Layer.ofModifiers ms ++ layers' ++ arrays ++ rest) where
  isArray := by simp
  notArray := by
    rw [List.append_assoc, List.append_assoc]
    refine Layer.head?_ofModifiers_append fun hms l hl => ?_
    obtain ⟨first, hfirst, hnot⟩ := hfirst hms
    rw [List.head?_append, hfirst] at hl
    cases hl
    exact hnot
  spellable := by
    rw [List.append_assoc, List.append_assoc,
      spellable_append fun l hl => Layer.isMember_of_mem_ofModifiers hl, spellable_append hlayers,
      spellable_append h.isMember]
    exact h.spellable
  reads := by
    obtain ⟨before, outer, dims, tail, hfront, rfl, hdims, htail⟩ := h.reads
    refine ⟨Layer.ofModifiers ms, before :: outer, [], [ofPunctuation ")"] ++ ts ++ (dims ++ tail),
      ?_, rfl, suffixes_nil, ?_⟩
    · have hopen : (Declarator.before before outer).run [opening] =
          some (.before [] (before :: outer)) := by
        rcases hopening with rfl | rfl <;> rfl
      rw [Declarator.run_append, Declarator.run_append, hfront, Option.bind_some, hopen,
        Option.bind_some, hmarks.reads, List.append_nil]
    · intro scope name inner nearer
      rw [List.append_assoc, List.singleton_append, Declarator.run_closing, Declarator.run_append,
        hts.reads, Option.bind_some, Declarator.run_append, hdims.reads, Option.bind_some]
      have hread := htail scope name
        (inner ++ (nearer ++ Layer.ofModifiers ms) ++ layers' ++ arrays) []
      simpa only [List.append_assoc, List.nil_append] using hread
  passes := by
    obtain ⟨n, hn⟩ := h.passes
    refine ⟨n + 1, fun stack => ⟨?_, ?_⟩⟩
    · have hopen : SpecifierScan.Passes (List.replicate n .round ++ stack) [opening]
          (List.replicate (n + 1) .round ++ stack) := by
        rcases hopening with rfl | rfl
        · exact SpecifierScan.passes_singleton rfl (by decide)
        · exact SpecifierScan.passes_singleton rfl (by decide)
      exact ((hn stack).1.append hopen).append (hmarks.passes _)
    · have hclose : SpecifierScan.Passes (List.replicate (n + 1) .round ++ stack)
          [ofPunctuation ")"] (List.replicate n .round ++ stack) :=
        SpecifierScan.passes_singleton rfl (by decide)
      exact (hclose.append (hts.passes _)).append (hn stack).2
  begins hall := by
    have hinside : ∀ l ∈ arrays ++ rest, l.isMember = false := by
      intro l hl
      refine hall l ?_
      rw [List.nil_append, List.append_assoc _ arrays]
      exact List.mem_append_right _ hl
    rcases h.begins hinside with ⟨rfl, -, -⟩ | ⟨t, ht, hne⟩
    · exact .inr ⟨opening, rfl, by rcases hopening with rfl | rfl <;> decide⟩
    · obtain ⟨others, rfl⟩ := List.head?_eq_some_iff.mp ht
      exact .inr ⟨t, rfl, hne⟩
  ends := .inr ⟨_, rfl, .inl rfl⟩

/-! ## Whole declarations -/

/-- A name, behind the class whose member it is. -/
def nameTokens (scope : Option String) (name : String) : List Token :=
  (scope.elim [] fun scope => [ofIdentifier scope, ofPunctuation "::"]) ++ [ofIdentifier name]

theorem run_nameTokens (scope : Option String) (name : String) (marks : List Layer)
    (outer : List (List Layer)) :
    (Declarator.before marks outer).run (nameTokens scope name) =
      some (.behind { scope, name, layers := [], marks, outer }) := by
  cases scope <;> rfl

theorem passes_nameTokens (scope : Option String) (name : String) (stack : List Bracket) :
    SpecifierScan.Passes stack (nameTokens scope name) stack := by
  have hcolons : SpecifierScan.Passes stack [ofPunctuation "::"] stack :=
    SpecifierScan.passes_singleton rfl (by decide)
  cases scope with
  | none => exact passes_identifier name stack
  | some scope =>
      exact ((passes_identifier scope stack).append hcolons).append (passes_identifier name stack)

/-- Whatever declarator comes behind, the specifier ends where these tokens do. -/
def Heads (specifier : List Token) : Prop :=
  ∀ ts, SpecifierScan.Passes [] ts [] → splitSpecifier (specifier ++ ts) = some (specifier, ts)

theorem heads_word {t : Token} (ht : t.kind = .keyword ∨ t.kind = .identifier) : Heads [t] := by
  intro ts hts
  have hword : SpecifierScan.Passes [] [t] [] := by
    refine SpecifierScan.passes_singleton ?_ ?_
    · rcases ht with ht | ht <;> exact after_of_kind (by simp [ht])
    · rintro rfl
      rcases ht with ht | ht <;> cases ht
  rw [splitSpecifier, hword.append hts]
  rfl

theorem heads_body (h : after [] ts = some [.curly]) : Heads (ts ++ [ofPunctuation "\x7d"]) := by
  intro ts' hts'
  have hne : ts ++ [ofPunctuation "\x7d"] ≠ [] := by simp
  rw [splitSpecifier, SpecifierScan.run_append, SpecifierScan.run_body h, Option.bind_some, hts']
  generalize ts ++ [ofPunctuation "\x7d"] = specifier at hne
  cases specifier with
  | nil => exact absurd rfl hne
  | cons t specifier => rfl

section Whole

variable {specifier tokens blank : List Token}

/-- A name with what stands around it, and with groups of its own. -/
theorem Around.ofTokens?_eq (h : Around front tight back arrays rest)
    (hspecifier : Heads specifier) (hblank : Prefixes blank []) (hts : Suffixes ts layers)
    (scope : Option String) (name : String)
    (htokens : dropQualifiers tokens =
      specifier ++ (front ++ blank ++ nameTokens scope name ++ ts ++ back)) :
    Reading.ofTokens? tokens =
      some { scope, name, layers := layers ++ (arrays ++ rest), specifier } := by
  have hpasses :
      SpecifierScan.Passes [] (front ++ blank ++ nameTokens scope name ++ ts ++ back) [] := by
    obtain ⟨n, hn⟩ := h.passes
    have hname := ((hn []).1.append (hblank.passes _)).append (passes_nameTokens scope name _)
    exact (hname.append (hts.passes _)).append (hn []).2
  have hrun : ((Declarator.before [] []).run
      (front ++ blank ++ nameTokens scope name ++ ts ++ back)).bind Declarator.finish =
        some (scope, name, layers ++ (arrays ++ rest)) := by
    obtain ⟨marks, outer, dims, tail, hfront, rfl, hdims, htail⟩ := h.reads
    have hread := htail scope name (layers ++ arrays) []
    simp only [Declarator.run_append, hfront, Option.bind_some, hblank.reads, run_nameTokens,
      hts.reads, hdims.reads, List.nil_append] at hread ⊢
    rw [hread]
    simp only [List.append_nil, List.append_assoc]
  obtain ⟨read, hread, hfinish⟩ := Option.bind_eq_some_iff.mp hrun
  rw [Reading.ofTokens?, htokens, hspecifier _ hpasses]
  simp only [Option.bind_eq_bind, Option.bind_some, hread, hfinish, Option.pure_def]

/-- What belongs behind a name cannot be read before it. -/
theorem Around.ofTokens?_eq_none (h : Around front tight back arrays rest)
    (hspecifier : Heads specifier) (hback : back ≠ []) (hts : SpecifierScan.Passes [] ts [])
    (htokens : dropQualifiers tokens = specifier ++ (front ++ back ++ ts)) :
    Reading.ofTokens? tokens = none := by
  have hpasses : SpecifierScan.Passes [] (front ++ back ++ ts) [] := by
    obtain ⟨n, hn⟩ := h.passes
    exact ((hn []).1.append (hn []).2).append hts
  have hrun : (Declarator.before [] []).run (front ++ back ++ ts) = none := by
    obtain ⟨marks, outer, -, -, hfront, -⟩ := h.reads
    rcases h.ends with ⟨hnil, -⟩ | ⟨t, ht, hbracket⟩
    · exact absurd hnil hback
    obtain ⟨others, rfl⟩ := List.head?_eq_some_iff.mp ht
    have hstep : (Declarator.before marks outer).step t = none := by
      rcases hbracket with rfl | rfl <;> rfl
    rw [List.append_assoc, Declarator.run_append, hfront, Option.bind_some, List.cons_append,
      Declarator.run_cons, hstep, Option.bind_none]
  rw [Reading.ofTokens?, htokens, hspecifier _ hpasses]
  simp only [Option.bind_eq_bind, Option.bind_some, hrun, Option.bind_none]

end Whole

end Name

end DwarfOne
