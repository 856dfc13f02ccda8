/-
# `Proofs.Source.Statements` — where statements end

A statement ends with a semicolon that is in no brackets.  `StatementScan` finds these ends among
letters.  Inside a type there are none: a semicolon in what is printed of a type belongs to a type
that is written out there, and stands in its braces (`Continues`).

What a statement begins with decides whether it has a label.  A type may begin with a word that is
followed by a colon only if something stands between them (`Unlabelled`).  Whether that is so
depends on what follows, since a type may be printed as one word: a blank, a mark, a bracket or a
semicolon keep the word apart (`Parts`).
-/
import DwarfOne.Proofs.Source.Braces
import DwarfOne.Proofs.Source.Toggles

namespace DwarfOne

open Token

/-! ## Ends of statements -/

/-- A run over letters in search of the ends of statements. -/
structure StatementScan where
  stack : List Bracket
  /-- The statement that is not ended yet. -/
  current : List Letter
  /-- Those before, each with its semicolon. -/
  ended : List (List Letter)

namespace StatementScan

def step (scan : StatementScan) (l : Letter) : Option StatementScan := do
  let stack ← l.step scan.stack
  if stack = [] ∧ l = (.punctuation, ';') then
    return { stack, current := [], ended := scan.ended ++ [scan.current ++ [l]] }
  else return { scan with stack, current := scan.current ++ [l] }

def run (scan : StatementScan) (ls : List Letter) : Option StatementScan :=
  ls.foldlM step scan

variable {stack stack' outer : List Bracket} {current : List Letter} {ended : List (List Letter)}
  {l : Letter} {ls ls' : List Letter}

theorem run_append (scan : StatementScan) :
    scan.run (ls ++ ls') = (scan.run ls).bind (·.run ls') :=
  List.foldlM_append

theorem run_cons (scan : StatementScan) : scan.run (l :: ls) = (scan.step l).bind (·.run ls) :=
  rfl

theorem step_of_continues (hstep : l.step stack = some stack')
    (h : stack' ≠ [] ∨ l ≠ (.punctuation, ';')) :
    step ⟨stack, current, ended⟩ l = some ⟨stack', current ++ [l], ended⟩ := by
  have hnot : ¬ (stack' = [] ∧ l = (.punctuation, ';')) := by
    rintro ⟨hstack, hl⟩
    exact h.elim (fun h => h hstack) fun h => h hl
  unfold step
  dsimp only
  rw [hstep, Option.bind_eq_bind, Option.bind_some, if_neg hnot]
  rfl

/-- Inside brackets no statement ends. -/
theorem run_inside (stack : List Bracket) (houter : outer ≠ [])
    (h : Letter.after stack ls = some stack') :
    run ⟨stack ++ outer, current, ended⟩ ls = some ⟨stack' ++ outer, current ++ ls, ended⟩ := by
  induction ls generalizing stack current with
  | nil =>
      cases h
      rw [List.append_nil]
      rfl
  | cons l ls ih =>
      rw [Letter.after_cons] at h
      obtain ⟨between, hfirst, hrest⟩ := Option.bind_eq_some_iff.mp h
      have hopen : between ++ outer ≠ [] := List.append_ne_nil_of_right_ne_nil _ houter
      rw [run_cons, step_of_continues (Letter.step_outer hfirst outer) (.inl hopen),
        Option.bind_some, ih between hrest, List.append_assoc]
      rfl

/-- Nor does one without a semicolon. -/
theorem run_of_notMem (hls : (.punctuation, ';') ∉ ls) (h : Letter.after stack ls = some stack') :
    run ⟨stack, current, ended⟩ ls = some ⟨stack', current ++ ls, ended⟩ := by
  induction ls generalizing stack current with
  | nil =>
      cases h
      rw [List.append_nil]
      rfl
  | cons l ls ih =>
      rw [Letter.after_cons] at h
      obtain ⟨between, hfirst, hrest⟩ := Option.bind_eq_some_iff.mp h
      rw [List.mem_cons, not_or] at hls
      rw [run_cons, step_of_continues hfirst (.inr (Ne.symm hls.1)), Option.bind_some,
        ih hls.2 hrest, List.append_assoc]
      rfl

end StatementScan

/-- No statement ends in the tokens, wherever they stand. -/
def Continues (ts : List Token) : Prop :=
  ∀ stack stack' current ended, Token.after stack ts = some stack' →
    StatementScan.run ⟨stack, current, ended⟩ (ts.flatMap letters) =
      some ⟨stack', current ++ ts.flatMap letters, ended⟩

/-- There is no such mark among the tokens. -/
def Lacks (c : Char) (ts : List Token) : Prop :=
  ∀ t ∈ ts, t.kind = .punctuation → c ∉ t.text.toList

section Continues

variable {ts ts' inner : List Token}

theorem Continues.append (h : Continues ts) (h' : Continues ts') : Continues (ts ++ ts') := by
  intro stack stack' current ended hafter
  rw [Token.after_append] at hafter
  obtain ⟨between, hfirst, hrest⟩ := Option.bind_eq_some_iff.mp hafter
  rw [List.flatMap_append, StatementScan.run_append, h _ _ _ _ hfirst, Option.bind_some,
    h' _ _ _ _ hrest, List.append_assoc]

theorem Lacks.notMem {c : Char} (h : Lacks c ts) : (.punctuation, c) ∉ ts.flatMap letters := by
  intro hmem
  obtain ⟨t, ht, hl⟩ := List.mem_flatMap.mp hmem
  obtain ⟨c', hc, hletter⟩ := List.mem_map.mp hl
  obtain ⟨hkind, rfl⟩ := Prod.mk.inj hletter
  exact h t ht hkind hc

theorem continues_of_lacks (h : Lacks ';' ts) : Continues ts := by
  intro stack stack' current ended hafter
  exact StatementScan.run_of_notMem h.notMem ((Letter.after_letters stack ts).trans hafter)

/-- Whatever stands in brackets. -/
theorem continues_group (bracket : Bracket) {opening closing : Token}
    (hopening : Lacks ';' [opening]) (hclosing : Lacks ';' [closing])
    (hopens : ∀ stack, Token.after stack [opening] = some (bracket :: stack)) (h : Balanced inner) :
    Continues ([opening] ++ inner ++ [closing]) := by
  intro stack stack' current ended hafter
  rw [Token.after_append, Token.after_append, hopens, Option.bind_some, h, Option.bind_some]
    at hafter
  have hinside : StatementScan.run ⟨bracket :: stack, current ++ [opening].flatMap letters, ended⟩
      (inner.flatMap letters) = some ⟨bracket :: stack,
        current ++ [opening].flatMap letters ++ inner.flatMap letters, ended⟩ :=
    StatementScan.run_inside [] (List.cons_ne_nil bracket stack)
      ((Letter.after_letters [] inner).trans (h []))
  rw [List.flatMap_append, List.flatMap_append, StatementScan.run_append, StatementScan.run_append,
    continues_of_lacks hopening _ _ _ _ (hopens stack), Option.bind_some, hinside,
    Option.bind_some, continues_of_lacks hclosing _ _ _ _ hafter]
  simp only [List.append_assoc]

variable {c : Char}

@[simp] theorem lacks_nil : Lacks c [] :=
  fun _ h => absurd h List.not_mem_nil

@[simp] theorem lacks_cons {t : Token} :
    Lacks c (t :: ts) ↔ (t.kind = .punctuation → c ∉ t.text.toList) ∧ Lacks c ts :=
  List.forall_mem_cons

@[simp] theorem lacks_append : Lacks c (ts ++ ts') ↔ Lacks c ts ∧ Lacks c ts' :=
  List.forall_mem_append

@[simp] theorem lacks_ite {p : Prop} [Decidable p] :
    Lacks c (if p then ts else ts') ↔ if p then Lacks c ts else Lacks c ts' := by
  split <;> rfl

theorem lacks_flatMap {α : Type} {items : List α} {f : α → List Token}
    (h : ∀ a ∈ items, Lacks c (f a)) : Lacks c (items.flatMap f) := by
  intro t ht
  obtain ⟨a, ha, ht⟩ := List.mem_flatMap.mp ht
  exact h a ha t ht

/-- Blanks and comments have no marks. -/
theorem lacks_of_bareLetters (h : bareLetters ts = []) (hc : isBare (.punctuation, c) = true) :
    Lacks c ts := by
  intro t ht hkind hmem
  have hl : (t.kind, c) ∈ ts.flatMap letters :=
    List.mem_flatMap.mpr ⟨t, ht, List.mem_map_of_mem hmem⟩
  have hbare := List.filter_eq_nil_iff.mp h _ hl
  rw [hkind] at hbare
  exact hbare hc

end Continues

namespace Source

variable {c : Char}

@[simp] theorem lacks_qualifiers (hc : c ≠ ' ') (isConst isVolatile : Bool) :
    Lacks c (qualifiers isConst isVolatile) := by
  cases isConst <;> cases isVolatile <;> simp [qualifiers, space, ofPunctuation, hc]

@[simp] theorem lacks_baseQualifiers (hc : c ≠ ' ') (ty : TypeRef) :
    Lacks c (baseQualifiers ty) := by
  simp [baseQualifiers, space, ofPunctuation, hc]

@[simp] theorem lacks_modifiers (hc : c ∉ [' ', '*', '&']) (ms : List Modifier) :
    Lacks c (modifiers ms) := by
  have hspace : c ≠ ' ' := fun h => hc (by simp [h])
  induction ms with
  | nil => simp [modifiers]
  | cons m rest ih =>
      cases hkind : m.kind <;>
        simp_all [modifiers, modifierMark, space, ofPunctuation]

@[simp] theorem lacks_dimensions (a : ArrayType) : Lacks ';' (dimensions a) := by
  refine lacks_flatMap fun dimension _ => ?_
  cases dimension with
  | none => simp [ofPunctuation]
  | some n => simp [ofPunctuation]

@[simp] theorem lacks_named (tight : Bool) (name : String) : Lacks ';' (named tight name) := by
  simp [named, space, ofPunctuation]

theorem lacks_newline (hc : isBare (.punctuation, c) = true) (indent : Nat) :
    Lacks c (newline indent) :=
  lacks_of_bareLetters (bareLetters_newline indent) hc

end Source

/-! ## Beginnings of statements -/

/-- There is no colon right behind the first word, if that is a keyword. -/
def Unlabelled (ls : List Letter) : Prop :=
  ∀ word tail, ls.dropWhile (!isBare ·) = word ++ (.punctuation, ':') :: tail →
    (∀ l ∈ word, l.1 = .keyword) → word = []

/-- The letters keep a word before them apart from a colon, and have no label of their own. -/
structure Parts (ls : List Letter) : Prop where
  head : ∃ c tail, ls = (.punctuation, c) :: tail ∧ c ≠ ':'
  unlabelled : Unlabelled ls

section Beginnings

variable {l : Letter} {ls word : List Letter}

theorem dropWhile_blank {lead : List Letter} (hlead : lead.filter isBare = []) (ls : List Letter) :
    (lead ++ ls).dropWhile (!isBare ·) = ls.dropWhile (!isBare ·) := by
  refine List.dropWhile_append_of_pos fun l hl => ?_
  simpa using List.filter_eq_nil_iff.mp hlead l hl

theorem Token.kind_of_mem_letters {t : Token} (h : l ∈ t.letters) : l.1 = t.kind := by
  obtain ⟨c, -, rfl⟩ := List.mem_map.mp h
  rfl

theorem Unlabelled.blank (h : Unlabelled ls) (lead : List Letter)
    (hlead : lead.filter isBare = []) : Unlabelled (lead ++ ls) := by
  rw [Unlabelled, dropWhile_blank hlead]
  exact h

theorem unlabelled_cons (hbare : isBare l = true) (hl : l.1 ≠ .keyword) : Unlabelled (l :: ls) := by
  intro word tail hword hkind
  rw [List.dropWhile_cons_of_neg (by simp [hbare])] at hword
  cases word with
  | nil => rfl
  | cons first word =>
      obtain ⟨rfl, -⟩ := List.cons.inj hword
      exact absurd (hkind l List.mem_cons_self) hl

/-- A word that is followed by anything but a colon. -/
theorem unlabelled_word (hne : word ≠ []) (hword : ∀ l ∈ word, l.1 = .keyword)
    (hl : l.1 ≠ .keyword) (hcolon : l ≠ (.punctuation, ':')) : Unlabelled (word ++ l :: ls) := by
  intro word' tail hword' hkind
  obtain ⟨first, rest, rfl⟩ := List.exists_cons_of_ne_nil hne
  have hfirst : isBare first = true := by
    simp [isBare, hword first List.mem_cons_self]
  rw [List.cons_append, List.dropWhile_cons_of_neg (by simp [hfirst]), ← List.cons_append] at hword'
  -- what follows the word is the same on both sides
  have hrest := congrArg (List.dropWhile fun l : Letter => decide (l.1 = .keyword)) hword'
  rw [List.dropWhile_append_of_pos fun l hl => decide_eq_true (hword l hl),
    List.dropWhile_append_of_pos fun l hl => decide_eq_true (hkind l hl),
    List.dropWhile_cons_of_neg (by simp [hl]), List.dropWhile_cons_of_neg (by simp)] at hrest
  exact absurd (List.cons.inj hrest).1 hcolon

theorem unlabelled_keyword (text : String) (h : Parts ls) :
    Unlabelled ((ofKeyword text).letters ++ ls) := by
  obtain ⟨c, tail, rfl, hc⟩ := h.head
  by_cases htext : (ofKeyword text).letters = []
  · rw [htext]
    exact h.unlabelled
  · refine unlabelled_word htext ?_ (by simp) (by simpa using hc)
    simp [letters, ofKeyword]

theorem unlabelled_identifier (text : String) (h : Unlabelled ls) :
    Unlabelled ((ofIdentifier text).letters ++ ls) := by
  cases hletters : (ofIdentifier text).letters with
  | nil => exact h
  | cons l rest =>
      have hl : l.1 = .identifier :=
        kind_of_mem_letters (t := ofIdentifier text) (hletters ▸ List.mem_cons_self)
      exact unlabelled_cons (by simp [isBare, hl]) (by simp [hl])

/-- A mark, a bracket or a semicolon. -/
theorem parts_mark {c : Char} (hc : c ≠ ':') (hbare : isBare (.punctuation, c) = true) :
    Parts ((.punctuation, c) :: ls) :=
  ⟨⟨c, ls, rfl, hc⟩, unlabelled_cons hbare (by simp)⟩

theorem parts_space (h : Unlabelled ls) : Parts (space.letters ++ ls) :=
  ⟨⟨' ', ls, rfl, by decide⟩, h.blank space.letters (by decide)⟩

theorem parts_newline (indent : Nat) (h : Unlabelled ls) :
    Parts ((newline indent).flatMap letters ++ ls) :=
  ⟨⟨'\n', _, rfl, by decide⟩, h.blank _ (Source.bareLetters_newline indent)⟩

end Beginnings

/-! ## Types -/

theorem Agree.and {α : Type} {E : RenderError → Prop} {P Q : α → Prop}
    {x y : Except RenderError α} (h : Agree E P x y) (h' : Agree E Q x y) :
    Agree E (fun a => P a ∧ Q a) x y := by
  obtain ⟨rfl, h⟩ := h
  cases x with
  | ok a => exact ⟨rfl, h, h'.2⟩
  | error e => exact ⟨rfl, h⟩

namespace Source

/-- What is printed, if anything is, has the property. -/
abbrev Prints {α : Type} (Q : α → Prop) (x : Except RenderError α) : Prop :=
  Agree anyError Q x x

theorem prints_nameOf (s : Source) (o : UInt32) : Prints (fun _ => True) (s.nameOf o) :=
  (Named.agree fun _ _ => trivial).mono fun _ _ => trivial

/-- No statement ends in a front, and none that begins with it has a label. -/
structure FrontStands (f : Front) : Prop where
  continues : Continues f.tokens
  unlabelled : ∀ ls, f.tight = true ∨ Parts ls → Unlabelled (f.tokens.flatMap letters ++ ls)

/-- No statement ends in a back, and it keeps a word apart if what follows does. -/
structure BackStands (ts : List Token) : Prop where
  continues : Continues ts
  parts : ∀ ls, Parts ls → Parts (ts.flatMap letters ++ ls)

/-- That is so for all types that are written out. -/
structure Stands (nested : Nested) : Prop where
  front : ∀ indent t ms, Prints FrontStands (nested.front indent t ms)
  back : ∀ indent t ms, Prints BackStands (nested.back indent t ms)

/-- A statement may begin with the tokens if what follows keeps them apart. -/
structure BeginsStatement (ts : List Token) : Prop where
  continues : Continues ts
  unlabelled : ∀ ls, Parts ls → Unlabelled (ts.flatMap letters ++ ls)

theorem backStands_nil : BackStands [] :=
  ⟨continues_of_lacks lacks_nil, fun _ h => h⟩

section Pieces

variable {ls : List Letter}

theorem unlabelled_baseQualifiers (ty : TypeRef) (h : Unlabelled ls) :
    Unlabelled ((baseQualifiers ty).flatMap letters ++ ls) := by
  obtain ⟨base, isConst, isVolatile, ms⟩ := ty
  have hspace := parts_space h
  cases isConst with
  | true =>
      cases isVolatile with
      | true =>
          have hsecond := unlabelled_keyword "volatile" hspace
          exact unlabelled_keyword "const" (parts_space hsecond)
      | false => exact unlabelled_keyword "const" hspace
  | false =>
      cases isVolatile with
      | true => exact unlabelled_keyword "volatile" hspace
      | false => exact h

theorem parts_modifiers (ms : List Modifier) (h : Parts ls) :
    Parts ((modifiers ms).flatMap letters ++ ls) := by
  cases ms with
  | nil => exact h
  | cons m rest =>
      obtain ⟨c, hmark, hc, hbare⟩ : ∃ c, [modifierMark m.kind].flatMap letters =
          [(.punctuation, c)] ∧ c ≠ ':' ∧ isBare (.punctuation, c) = true := by
        cases m.kind with
        | pointer => exact ⟨'*', rfl, by decide, by decide⟩
        | reference => exact ⟨'&', rfl, by decide, by decide⟩
      rw [modifiers, List.append_assoc, List.flatMap_append, List.append_assoc, hmark]
      exact parts_mark hc hbare

theorem parts_dimensions (a : ArrayType) (h : Parts ls) :
    Parts ((dimensions a).flatMap letters ++ ls) := by
  unfold dimensions
  cases a.dimensions with
  | nil => exact h
  | cons dimension rest =>
      cases dimension with
      | none => exact parts_mark (by decide) (by decide)
      | some n => exact parts_mark (by decide) (by decide)

theorem frontStands_word {ty : TypeRef} {word : Token} (hword : word.kind ≠ .punctuation)
    (h : ∀ ls, Parts ls → Unlabelled (word.letters ++ ls)) :
    FrontStands { tokens := baseQualifiers ty ++ [word] ++ modifiers ty.modifiers
                  tight := false } where
  continues := continues_of_lacks (by simp [hword])
  unlabelled := by
    intro ls hls
    have hparts : Parts ls := hls.resolve_left (by simp)
    simp only [List.flatMap_append, List.flatMap_singleton, List.append_assoc]
    exact unlabelled_baseQualifiers ty (h _ (parts_modifiers ty.modifiers hparts))

end Pieces

section Types

variable {s : Source} {nested : Nested} (hn : Stands nested) {indent : Nat}
include hn

theorem Stands.ofFront (ty : TypeRef) : Prints FrontStands (s.front nested indent ty) := by
  cases hbase : ty.base with
  | fundamental id =>
      rw [front_fundamental hbase]
      exact .pure (frontStands_word (by simp) fun _ => unlabelled_keyword _)
  | user o =>
      cases hfound : s.inlined? o with
      | error e =>
          rw [front_error hbase hfound]
          exact ⟨rfl, trivial⟩
      | ok found =>
          cases found with
          | none =>
              obtain ⟨name, hname, -⟩ := exists_nameOf_of_inlined? hfound
              rw [front_named hbase hfound hname]
              exact .pure (frontStands_word (by simp) fun _ h =>
                unlabelled_identifier name h.unlabelled)
          | some t =>
              rw [front_inlined hbase hfound]
              refine (hn.front indent t ty.modifiers).bind fun written hwritten => .pure ⟨?_, ?_⟩
              · exact (continues_of_lacks (by simp)).append hwritten.continues
              · intro ls hls
                rw [List.flatMap_append, List.append_assoc]
                exact unlabelled_baseQualifiers ty (hwritten.unlabelled ls hls)

theorem Stands.ofBack (ty : TypeRef) : Prints BackStands (s.back nested indent ty) := by
  cases hbase : ty.base with
  | fundamental id =>
      rw [back_fundamental hbase]
      exact .pure backStands_nil
  | user o =>
      cases hfound : s.inlined? o with
      | error e =>
          rw [back_error hbase hfound]
          exact ⟨rfl, trivial⟩
      | ok found =>
          cases found with
          | none =>
              rw [back_named hbase hfound]
              exact .pure backStands_nil
          | some t =>
              rw [back_inlined hbase hfound]
              exact hn.back indent t ty.modifiers

theorem Stands.typeName (ty : TypeRef) : Prints BeginsStatement (s.typeName nested indent ty) := by
  refine (hn.ofFront ty).bind fun before hbefore => ?_
  refine (hn.ofBack ty).bind fun behind hbehind => .pure ⟨?_, ?_⟩
  · exact hbefore.continues.append hbehind.continues
  · intro ls hls
    rw [List.flatMap_append, List.append_assoc]
    exact hbefore.unlabelled _ (.inr (hbehind.parts ls hls))

theorem Stands.declaration (ty : TypeRef) (name : String) :
    Prints BeginsStatement (s.declaration nested indent ty name) := by
  refine (hn.ofFront ty).bind fun before hbefore => ?_
  refine (hn.ofBack ty).bind fun behind hbehind => .pure ⟨?_, ?_⟩
  · exact (hbefore.continues.append (continues_of_lacks (by simp))).append hbehind.continues
  · intro ls hls
    have hparts := hbehind.parts ls hls
    simp only [List.flatMap_append, List.append_assoc]
    refine hbefore.unlabelled _ ?_
    cases htight : before.tight with
    | true => exact .inl rfl
    | false =>
        refine .inr ?_
        by_cases hname : name.isEmpty = true
        · rw [named, if_pos hname]
          exact hparts
        · rw [named, if_neg hname, if_neg Bool.false_ne_true, List.flatMap_cons,
            List.flatMap_singleton, List.append_assoc]
          exact parts_space (unlabelled_identifier name hparts.unlabelled)

/-! ## Types written out -/

theorem Stands.base {kind : ClassKind} {lead : String} (hlead : Lacks ';' [ofPunctuation lead])
    (hparts : ∀ ls, Parts ((ofPunctuation lead).letters ++ ls)) (b : Base) :
    Prints BackStands (s.base nested indent kind lead b) := by
  refine (hn.typeName b.type).bind fun written hwritten => .pure ⟨?_, ?_⟩
  · refine Continues.append (continues_of_lacks ?_) hwritten.continues
    rw [lacks_append, lacks_append]
    exact ⟨⟨hlead, by simp [space, ofPunctuation]⟩, by simp [space, ofPunctuation]⟩
  · intro ls _
    simp only [List.flatMap_append, List.flatMap_singleton, List.append_assoc]
    exact hparts _

theorem Stands.bases {kind : ClassKind} (lead : String) (hlead : Lacks ';' [ofPunctuation lead])
    (hparts : ∀ ls, Parts ((ofPunctuation lead).letters ++ ls)) (bs : List Base) :
    Prints BackStands (s.bases nested indent kind lead bs) := by
  induction bs generalizing lead with
  | nil => exact .pure backStands_nil
  | cons b rest ih =>
      refine (hn.base hlead hparts b).bind fun first hfirst => ?_
      refine (ih ", " (by simp [ofPunctuation]) fun ls => ?_).bind
        fun others hothers => .pure ⟨?_, ?_⟩
      · exact parts_mark (by decide) (by decide)
      · exact hfirst.continues.append hothers.continues
      · intro ls hls
        rw [List.flatMap_append, List.append_assoc]
        exact hfirst.parts _ (hothers.parts ls hls)

omit hn in
theorem parts_baseLead (ls : List Letter) : Parts ((ofPunctuation " : ").letters ++ ls) := by
  have hcolon : Unlabelled ((.punctuation, ':') :: (.punctuation, ' ') :: ls) :=
    unlabelled_cons (by decide) (by decide)
  exact parts_space hcolon

/-- What is written in braces with a word before them. -/
structure BodyStands (ts : List Token) : Prop where
  continues : Continues ts
  unlabelled : ∀ ls, Unlabelled (ts.flatMap letters ++ ls)

omit hn in
theorem bodyStands_braces (indent : Nat) (remarks : List String) (word : String)
    {head items : List Token} (hhead : BackStands head) (hitems : Balanced items) :
    BodyStands (leadingRemark indent remarks ++ [ofKeyword word] ++ head ++ newline indent ++
      ([ofPunctuation "\x7b"] ++ items ++ [ofPunctuation "\x7d"])) := by
  have hremarks := bareLetters_of_noise (noise_leadingRemark indent remarks)
  have hgroup : Continues ([ofPunctuation "\x7b"] ++ items ++ [ofPunctuation "\x7d"]) :=
    continues_group .curly (by simp [ofPunctuation]) (by simp [ofPunctuation])
      (fun _ => rfl) hitems
  refine ⟨?_, ?_⟩
  · refine (((Continues.append ?_ ?_).append hhead.continues).append ?_).append hgroup
    · exact continues_of_lacks (lacks_of_bareLetters hremarks (by decide))
    · exact continues_of_lacks (by simp)
    · exact continues_of_lacks (lacks_newline (by decide) indent)
  · intro ls
    simp only [List.flatMap_append, List.flatMap_singleton, List.append_assoc]
    refine Unlabelled.blank ?_ _ hremarks
    refine unlabelled_keyword word (hhead.parts _ (parts_newline indent ?_))
    exact unlabelled_cons (by decide) (by decide)

theorem Stands.classType (hfits : ∀ ty, Fits anyError s nested nested ty) (c : ClassType) :
    Prints BodyStands (s.classType nested indent c true) := by
  refine (hn.bases " : " (by simp [ofPunctuation]) parts_baseLead c.bases).bind
    fun bases hbases => ?_
  refine (Agree.mapM fun t _ => agree_typedef (hfits t.type)).bind fun typedefs htypedefs => ?_
  refine (Agree.mapM fun m _ => agree_withAccess (agree_member (hfits m.type))).bind
    fun members hmembers => ?_
  refine (Agree.mapM fun f _ => agree_withAccess (agree_functionDeclaration
    (fun ty _ => hfits ty) (fun _ _ _ _ => trivial) true)).bind fun functions hfunctions => ?_
  have hitems := balanced_classItems indent c.kind htypedefs hmembers hfunctions
  have hbody := bodyStands_braces indent
    ((if s.settings.remarks.classSizes then ["Size: " ++ Numeral.upperOffset c.byteSize.toNat]
      else []) ++ s.offsetRemark c.offset) c.kind.keyword hbases hitems
  refine .pure ?_
  simpa only [ownName, Bool.true_or, ↓reduceIte, closing, List.append_assoc, List.nil_append]
    using hbody

omit hn in
theorem bodyStands_enumeration (e : EnumType) : BodyStands (s.enumeration indent e true) := by
  have hitems : Balanced (s.enumerators (indent + 1) (-1) e.enumerators ++ newline indent) :=
    fun _ => by simp
  have hbody := bodyStands_braces indent (s.offsetRemark e.offset) "enum" backStands_nil hitems
  simpa only [enumeration, ownName, Bool.true_or, ↓reduceIte, closing, List.append_assoc,
    List.nil_append] using hbody

omit hn in
/-- Pointers and references to what is written in braces. -/
theorem BodyStands.front {ts : List Token} (h : BodyStands ts) (ms : List Modifier) :
    FrontStands { tokens := ts ++ modifiers ms, tight := false } where
  continues := h.continues.append (continues_of_lacks (lacks_modifiers (by decide) ms))
  unlabelled := by
    intro ls _
    rw [List.flatMap_append, List.append_assoc]
    exact h.unlabelled _

omit hn in
/-- A parenthesis, or anything else that keeps the front apart, and modifiers behind it. -/
theorem FrontStands.opened {f : Front} (h : FrontStands f) {ts : List Token} (hts : Lacks ';' ts)
    (hparts : ∀ ls, f.tight = true ∨ Parts (ts.flatMap letters ++ ls)) (ms : List Modifier) :
    FrontStands { tokens := f.tokens ++ ts ++ modifiers ms, tight := true } where
  continues := by
    rw [List.append_assoc]
    exact h.continues.append (continues_of_lacks (by simp [hts]))
  unlabelled := by
    intro ls _
    simp only [List.flatMap_append, List.append_assoc]
    exact h.unlabelled _ (hparts _)

omit hn in
theorem parts_opening (ls : List Letter) :
    Parts ([ofPunctuation " ("].flatMap letters ++ ls) := by
  have hopening : Unlabelled ((.punctuation, '(') :: ls) := unlabelled_cons (by decide) (by decide)
  exact parts_space hopening

theorem Stands.writtenFront (hfits : ∀ ty, Fits anyError s nested nested ty) (t : UserType)
    (ms : List Modifier) : Prints FrontStands (s.writtenFront nested indent t ms) := by
  cases t with
  | ofClass c => exact (hn.classType hfits c).bind fun body hbody => .pure (hbody.front ms)
  | ofEnum e => exact .pure ((bodyStands_enumeration e).front ms)
  | ofArray a =>
      refine (hn.ofFront a.element).bind fun element helement => ?_
      split
      · exact .pure helement
      · refine .pure (helement.opened ?_ (fun ls => ?_) ms)
        · cases element.tight <;> simp [ofPunctuation]
        · cases element.tight with
          | true => exact .inl rfl
          | false => exact .inr (parts_opening ls)
  | ofRoutine r =>
      refine (hn.ofFront r.returnType).bind fun returned hreturned => ?_
      exact .pure (hreturned.opened (by simp [ofPunctuation])
        (fun ls => .inr (parts_opening ls)) ms)
  | ofMemberPointer p =>
      have hfront : Prints (fun ts => FrontStands { tokens := ts, tight := true })
          (s.memberPointerFront nested indent p ms) := by
        refine (hn.ofFront p.type).bind fun target htarget => ?_
        refine (s.prints_nameOf p.owner).bind fun owner _ => .pure ?_
        have howner : Lacks ';' ((if target.tight then [] else [space]) ++
            [ofIdentifier owner, ofPunctuation "::*"]) := by
          cases target.tight <;> simp [space, ofPunctuation]
        have hopened := htarget.opened howner (fun ls => ?_) ms
        · simpa only [List.append_assoc] using hopened
        · cases target.tight with
          | true => exact .inl rfl
          | false =>
              refine .inr ?_
              simp only [Bool.false_eq_true, ↓reduceIte, List.flatMap_append, List.flatMap_cons,
                List.flatMap_nil, List.append_nil, List.append_assoc]
              exact parts_space (unlabelled_identifier owner
                (unlabelled_cons (by decide) (by decide)))
      exact hfront.bind fun tokens htokens => .pure htokens

theorem Stands.writtenBack (hfits : ∀ ty, Fits anyError s nested nested ty) (t : UserType)
    (ms : List Modifier) : Prints BackStands (s.writtenBack nested indent t ms) := by
  cases t with
  | ofClass c => exact .pure backStands_nil
  | ofEnum e => exact .pure backStands_nil
  | ofArray a =>
      refine (hn.ofBack a.element).bind fun behind hbehind => .pure ⟨?_, ?_⟩
      · refine Continues.append (continues_of_lacks ?_) hbehind.continues
        cases ms <;> simp [ofPunctuation]
      · intro ls hls
        simp only [List.flatMap_append, List.append_assoc]
        cases ms with
        | nil => exact parts_dimensions a (hbehind.parts ls hls)
        | cons m rest => exact parts_mark (by decide) (by decide)
  | ofRoutine r =>
      refine (agree_parameters (fun p _ => hfits p.type) false).bind fun parameters hgrouped => ?_
      refine (hn.ofBack r.returnType).bind fun behind hbehind => .pure ⟨?_, ?_⟩
      · obtain ⟨inner, rfl, hinner⟩ := hgrouped
        refine Continues.append (Continues.append ?_ ?_) hbehind.continues
        · exact continues_of_lacks (by simp [ofPunctuation])
        · exact continues_group .round (by simp [ofPunctuation])
            (by simp [ofPunctuation]) (fun _ => rfl) hinner
      · intro ls _
        simp only [List.flatMap_append, List.append_assoc]
        exact parts_mark (by decide) (by decide)
  | ofMemberPointer p => exact hn.ofBack p.type

end Types

theorem stands_nestedTo (s : Source) (depth : Nat) : Stands (s.nestedTo depth) := by
  induction depth with
  | zero => exact ⟨fun _ _ _ => ⟨rfl, trivial⟩, fun _ _ _ => ⟨rfl, trivial⟩⟩
  | succ depth ih =>
      have hfits : ∀ ty, Fits anyError s (s.nestedTo depth) (s.nestedTo depth) ty :=
        s.fits_anyError (s.fitsWritten_nestedTo depth)
      exact ⟨fun _ t ms => ih.writtenFront hfits t ms, fun _ t ms => ih.writtenBack hfits t ms⟩

/-! ## Statements of a class -/

/-- One statement, and nothing behind its semicolon but blanks and comments. -/
def IsStatement (ts : List Token) : Prop :=
  ∃ code behind, ts = code ++ [ofPunctuation ";"] ++ behind ∧ Balanced code ∧ Continues code ∧
    Unlabelled ((code ++ [ofPunctuation ";"]).flatMap letters) ∧ bareLetters behind = []

theorem parts_semicolon : Parts ([ofPunctuation ";"].flatMap letters) :=
  parts_mark (by decide) (by decide)

theorem BeginsStatement.isStatement {code : List Token} (h : BeginsStatement code)
    (hcode : Balanced code) (behind : List Token) (hbehind : bareLetters behind = []) :
    IsStatement (code ++ [ofPunctuation ";"] ++ behind) := by
  refine ⟨code, behind, rfl, hcode, h.continues, ?_, hbehind⟩
  rw [List.flatMap_append]
  exact h.unlabelled _ parts_semicolon

theorem bareLetters_trailingRemark (parts : List String) :
    bareLetters (trailingRemark parts) = [] := by
  have hline := bareLetters_of_noise (noise_trailingRemark parts 0)
  rw [bareLetters_append] at hline
  exact (List.append_eq_nil_iff.mp hline).1

/-- A word of its own in front. -/
theorem unlabelled_wordAndSpace (c : Bool) (word : String) {ls : List Letter} (h : Unlabelled ls) :
    Unlabelled ((if c = true then [ofKeyword word, space] else []).flatMap letters ++ ls) := by
  cases c with
  | false => exact h
  | true =>
      rw [if_pos rfl, List.flatMap_cons, List.flatMap_singleton, List.append_assoc]
      exact unlabelled_keyword word (parts_space h)

section Statements

variable {s : Source} {nested : Nested} (hn : Stands nested)
  (hfits : ∀ ty, Fits anyError s nested nested ty) {indent : Nat}
include hn hfits

theorem Stands.typedef (t : Typedef) : Prints IsStatement (s.typedef nested indent t) := by
  refine ((hfits t.type).declaration t.name).and (hn.declaration t.type t.name) |>.bind
    fun declared hdeclared => .pure ?_
  obtain ⟨hbalanced, hbegins⟩ := hdeclared
  have hcode : BeginsStatement ([ofKeyword "typedef", space] ++ declared) := by
    refine ⟨Continues.append (continues_of_lacks (by simp [space, ofPunctuation]))
      hbegins.continues, fun ls hls => ?_⟩
    rw [List.flatMap_append, List.append_assoc]
    exact unlabelled_wordAndSpace true "typedef" (hbegins.unlabelled ls hls)
  have hstatement := hcode.isStatement (fun _ => by simp [hbalanced]) [] rfl
  rwa [List.append_nil] at hstatement

theorem Stands.member (m : Member) : Prints IsStatement (s.member nested indent m) := by
  refine ((hfits m.type).declaration m.name).and (hn.declaration m.type m.name) |>.bind
    fun declared hdeclared => .pure ?_
  obtain ⟨hbalanced, hbegins⟩ := hdeclared
  have hremark := bareLetters_trailingRemark (s.memberRemarks m)
  cases m.bitSize with
  | none =>
      rw [List.append_nil]
      exact hbegins.isStatement hbalanced _ hremark
  | some n =>
      refine BeginsStatement.isStatement ⟨?_, fun ls _ => ?_⟩ (fun _ => by simp [hbalanced]) _
        hremark
      · exact hbegins.continues.append (continues_of_lacks (by simp [ofPunctuation]))
      · rw [List.flatMap_append, List.append_assoc, List.flatMap_cons, List.append_assoc]
        exact hbegins.unlabelled _ (parts_baseLead _)

omit hfits in
theorem Stands.returnPart (f : Function) :
    Prints (fun ts => Continues ts ∧ ∀ ls, Unlabelled ls → Unlabelled (ts.flatMap letters ++ ls))
      (s.returnPart nested indent f) := by
  unfold Source.returnPart
  split
  · refine (hn.typeName f.signature.returnType).bind fun returned hreturned => .pure ⟨?_, ?_⟩
    · exact hreturned.continues.append (continues_of_lacks (by simp [space, ofPunctuation]))
    · intro ls hls
      rw [List.flatMap_append, List.flatMap_singleton, List.append_assoc]
      exact hreturned.unlabelled _ (parts_space hls)
  · exact .pure ⟨continues_of_lacks lacks_nil, fun _ h => h⟩

theorem Stands.signature (f : Function) :
    Prints BeginsStatement (s.signature nested indent f false true) := by
  refine (hn.returnPart f).bind fun returned hreturned => ?_
  refine (agree_owner fun _ _ _ _ => trivial).bind fun owner _ => ?_
  refine (agree_parameters (fun p _ => hfits p.type) false).bind fun parameters hgrouped => .pure ?_
  obtain ⟨inner, rfl, hinner⟩ := hgrouped
  have hparameters : Continues ([ofPunctuation "("] ++ inner ++ [ofPunctuation ")"]) :=
    continues_group .round (by simp [ofPunctuation]) (by simp [ofPunctuation])
      (fun _ => rfl) hinner
  -- neither the owner nor what stands behind the parentheses makes a difference
  have hall : ∀ name behind, Lacks ';' behind → BeginsStatement
      ((if isStatic f true then [ofKeyword "static", space] else []) ++
        (if f.isInline then [ofKeyword "inline", space] else []) ++ returned ++ [] ++
        [ofIdentifier name] ++ ([ofPunctuation "("] ++ inner ++ [ofPunctuation ")"]) ++
        behind) := by
    intro name behind hbehind
    refine ⟨?_, fun ls _ => ?_⟩
    · rw [List.append_nil]
      refine (((Continues.append ?_ hreturned.1).append ?_).append hparameters).append ?_
      · exact continues_of_lacks (by simp [space, ofPunctuation])
      · exact continues_of_lacks (by simp)
      · exact continues_of_lacks hbehind
    · simp only [List.flatMap_append, List.append_nil, List.append_assoc]
      refine unlabelled_wordAndSpace _ "static" (unlabelled_wordAndSpace _ "inline" ?_)
      refine hreturned.2 _ ?_
      rw [List.flatMap_singleton]
      exact unlabelled_identifier name (unlabelled_cons (by decide) (by decide))
  have hconst : ∀ isConst : Bool,
      Lacks ';' (if isConst = true then [space, ofKeyword "const"] else []) := by
    intro isConst
    cases isConst <;> simp [space, ofPunctuation]
  cases owner with
  | none =>
      cases f.this? with
      | none => exact hall _ _ lacks_nil
      | some this => exact hall _ _ (hconst _)
  | some owner =>
      cases f.this? with
      | none => exact hall _ _ lacks_nil
      | some this => exact hall _ _ (hconst _)

theorem Stands.functionDeclaration (f : Function) :
    Prints IsStatement (s.functionDeclaration nested indent f true) := by
  have hbalanced : Prints Balanced (s.signature nested indent f false true) :=
    agree_signature (fun ty _ => hfits ty) (fun _ _ _ _ => trivial) false true
  refine (hbalanced.and (hn.signature hfits f)).bind fun signature hsignature => .pure ?_
  have hstatement := hsignature.2.isStatement hsignature.1 [] rfl
  rwa [List.append_nil] at hstatement

end Statements

end Source

end DwarfOne
