/-
# `Proofs.Source.Printing` — a program printed with other remarks

Turning remarks on or off takes tokens away in some places and adds some in others, and
all of them are noise: blanks, comments inside a line, and remarks with the end of their
line.  Everything else is printed in both cases, in the same order.

What follows goes along with both printings at once.  A relation between lists of tokens
that is kept when lists are put together, that holds between code and itself and
between any noise and any other (`Keeps`), holds between the two results
(`Keeps.tokens`).  On the way a line may still lack its end, since the remark behind a
member or a variable is printed by one function and the line is ended by another:
`Unfinished` and `OnNewLine` say of a part of a printing that what comes after it, or
before it, puts that right.
-/
import DwarfOne.Proofs.Source.Balance
import Mathlib.Data.List.Forall2

namespace DwarfOne

/-! ## Two printings -/

/-- Both fail, in the same way, or what they give is related. -/
def Alongside {α β : Type} (R : α → β → Prop) :
    Except RenderError α → Except RenderError β → Prop
  | .ok a, .ok b => R a b
  | .error e, .error e' => e = e'
  | _, _ => False

namespace Alongside

variable {α β γ δ : Type} {R : α → β → Prop} {Q : γ → δ → Prop}
  {x : Except RenderError α} {y : Except RenderError β}

theorem pure {a : α} {b : β} (h : R a b) : Alongside R (Pure.pure a) (Pure.pure b) :=
  h

theorem of_ok (h : Alongside R x y) {a : α} (hx : x = .ok a) : ∃ b, y = .ok b ∧ R a b := by
  subst hx
  cases y with
  | error e => exact h.elim
  | ok b => exact ⟨b, rfl, h⟩

theorem mono {R' : α → β → Prop} (h : Alongside R x y) (hR : ∀ a b, R a b → R' a b) :
    Alongside R' x y := by
  cases x with
  | error e =>
      cases y with
      | error e' => exact h
      | ok b => exact h.elim
  | ok a =>
      cases y with
      | error e' => exact h.elim
      | ok b => exact hR a b h

theorem bind {f : α → Except RenderError γ} {g : β → Except RenderError δ} (h : Alongside R x y)
    (hf : ∀ a b, R a b → Alongside Q (f a) (g b)) : Alongside Q (x >>= f) (y >>= g) := by
  cases x with
  | error e =>
      cases y with
      | error e' => exact h
      | ok b => exact h.elim
  | ok a =>
      cases y with
      | error e' => exact h.elim
      | ok b => exact hf a b h

/-- What both do alike needs no relation. -/
theorem bind_same {f : α → Except RenderError γ} {g : α → Except RenderError δ}
    (hf : ∀ a, Alongside Q (f a) (g a)) : Alongside Q (x >>= f) (x >>= g) := by
  cases x with
  | error e => exact rfl
  | ok a => exact hf a

theorem ite {c : Prop} [Decidable c] {x' : Except RenderError α} {y' : Except RenderError β}
    (h : Alongside R x y) (h' : Alongside R x' y') :
    Alongside R (if c then x else x') (if c then y else y') := by
  split
  · exact h
  · exact h'

theorem mapM {f : γ → Except RenderError α} {g : γ → Except RenderError β}
    (h : ∀ c, Alongside R (f c) (g c)) (items : List γ) :
    Alongside (List.Forall₂ R) (items.mapM f) (items.mapM g) := by
  induction items with
  | nil =>
      rw [List.mapM_nil, List.mapM_nil]
      exact .pure .nil
  | cons c items ih =>
      rw [List.mapM_cons, List.mapM_cons]
      refine (h c).bind fun a b hab => ?_
      exact ih.bind fun as bs hs => .pure (.cons hab hs)

end Alongside

/-! ## Noise -/

namespace Token

/-- Without comments. -/
def Unremarked (ts : List Token) : Prop :=
  ∀ t ∈ ts, t.kind ≠ .comment

/-- Blanks, comments inside a line, and remarks with the end of their line. -/
inductive Noise : List Token → Prop
  | nil : Noise []
  | space : Noise [space]
  | newline (indent : Nat) : Noise (newline indent)
  | aside (text : String) : Noise [aside text]
  | remark (text : String) (indent : Nat) : Noise (remark text :: Token.newline indent)
  | append {a b : List Token} : Noise a → Noise b → Noise (a ++ b)

section Unremarked

variable {ts ts' : List Token}

@[simp] theorem unremarked_nil : Unremarked [] :=
  fun _ h => absurd h List.not_mem_nil

@[simp] theorem unremarked_cons {t : Token} :
    Unremarked (t :: ts) ↔ t.kind ≠ .comment ∧ Unremarked ts :=
  List.forall_mem_cons

@[simp] theorem unremarked_append : Unremarked (ts ++ ts') ↔ Unremarked ts ∧ Unremarked ts' :=
  List.forall_mem_append

@[simp] theorem unremarked_ite {c : Prop} [Decidable c] :
    Unremarked (if c then ts else ts') ↔ if c then Unremarked ts else Unremarked ts' := by
  split <;> rfl

@[simp] theorem kind_ofKeyword (text : String) : (ofKeyword text).kind = .keyword := rfl
@[simp] theorem kind_ofIdentifier (text : String) : (ofIdentifier text).kind = .identifier := rfl
@[simp] theorem kind_ofLiteral (text : String) : (ofLiteral text).kind = .literal := rfl
@[simp] theorem kind_ofPunctuation (text : String) : (ofPunctuation text).kind = .punctuation := rfl
@[simp] theorem kind_space : space.kind = .punctuation := rfl
@[simp] theorem kind_lineBreak : lineBreak.kind = .punctuation := rfl

theorem unremarked_flatMap {α : Type} {items : List α} {f : α → List Token}
    (h : ∀ a ∈ items, Unremarked (f a)) : Unremarked (items.flatMap f) := by
  intro t ht
  obtain ⟨a, ha, ht⟩ := List.mem_flatMap.mp ht
  exact h a ha t ht

@[simp] theorem unremarked_newline (indent : Nat) : Unremarked (newline indent) := by
  rw [newline, unremarked_cons]
  refine ⟨by simp, fun t ht => ?_⟩
  rw [List.eq_of_mem_replicate ht]
  simp

end Unremarked

theorem noise_flatMap {α : Type} {items : List α} {f : α → List Token}
    (h : ∀ a ∈ items, Noise (f a)) : Noise (items.flatMap f) := by
  induction items with
  | nil => exact .nil
  | cons a items ih =>
      exact (h a List.mem_cons_self).append (ih fun b hb => h b (List.mem_cons_of_mem _ hb))

end Token

namespace Source

open Token

/-- The same program with other remarks. -/
def withRemarks (s : Source) (r : Remarks) : Source :=
  { s with settings := { s.settings with remarks := r } }

section Chunks

@[simp] theorem unremarked_qualifiers (isConst isVolatile : Bool) :
    Unremarked (qualifiers isConst isVolatile) := by
  cases isConst <;> cases isVolatile <;> simp [qualifiers]

@[simp] theorem unremarked_baseQualifiers (ty : TypeRef) : Unremarked (baseQualifiers ty) := by
  simp [baseQualifiers]

@[simp] theorem kind_modifierMark (kind : ModifierKind) :
    (modifierMark kind).kind = .punctuation := by
  cases kind <;> rfl

@[simp] theorem unremarked_modifiers (ms : List Modifier) : Unremarked (modifiers ms) := by
  induction ms with
  | nil => simp [modifiers]
  | cons m rest ih => simp [modifiers, ih]

@[simp] theorem unremarked_dimensions (a : ArrayType) : Unremarked (dimensions a) := by
  refine unremarked_flatMap fun dimension _ => ?_
  cases dimension with
  | none => simp
  | some n => simp

@[simp] theorem unremarked_named (tight : Bool) (name : String) :
    Unremarked (named tight name) := by
  simp [named]

@[simp] theorem unremarked_ownName (isInline : Bool) (name : String) :
    Unremarked (ownName isInline name) := by
  simp [ownName]

@[simp] theorem unremarked_closing (isInline : Bool) : Unremarked (closing isInline) := by
  simp [closing]

@[simp] theorem unremarked_enumerators (s : Source) (indent : Nat) (previous : Int)
    (es : List Enumerator) : Unremarked (s.enumerators indent previous es) := by
  induction es generalizing previous with
  | nil => simp [enumerators]
  | cons e rest ih => simp [enumerators, ih]

theorem noise_leadingRemark (indent : Nat) (parts : List String) :
    Noise (leadingRemark indent parts) := by
  unfold leadingRemark
  split
  · exact .nil
  · exact .remark _ indent

/-- A remark behind code is noise once the line is ended. -/
theorem noise_trailingRemark (parts : List String) (indent : Nat) :
    Noise (trailingRemark parts ++ newline indent) := by
  unfold trailingRemark
  split
  · exact .newline indent
  · exact Noise.space.append (.remark _ indent)

/-- So is a remark on where a variable is kept. -/
theorem noise_location (shown : Bool) (text : String) (indent : Nat) :
    Noise ((if shown = true then [space, remark text] else []) ++ newline indent) := by
  cases shown with
  | true => exact Noise.space.append (.remark text indent)
  | false => exact .newline indent

theorem noise_fileRemarks (s : Source) (fs : List File) : Noise (s.fileRemarks fs) := by
  refine noise_flatMap fun file _ => noise_flatMap fun text _ => ?_
  exact (Noise.remark text 0).append (.newline 0)

end Chunks

/-! ## Relations that are kept -/

/-- A relation that survives putting lists together, and does not look at noise. -/
structure Keeps (R : List Token → List Token → Prop) : Prop where
  append : ∀ {a a' b b'}, R a a' → R b b' → R (a ++ b) (a' ++ b')
  code : ∀ {ts}, Unremarked ts → R ts ts
  noise : ∀ {a a'}, Noise a → Noise a' → R a a'

section Lines

variable (R : List Token → List Token → Prop)

/-- Related once the line is ended. -/
def Unfinished (a a' : List Token) : Prop :=
  ∀ indent, R (a ++ newline indent) (a' ++ newline indent)

/-- Related also behind a line that is not ended. -/
def OnNewLine (a a' : List Token) : Prop :=
  ∀ b b', Unfinished R b b' → Unfinished R (b ++ a) (b' ++ a')

variable {R} {a a' b b' : List Token}

theorem OnNewLine.nil : OnNewLine R [] [] := by
  intro b b' hb
  simpa using hb

theorem OnNewLine.append (ha : OnNewLine R a a') (hb : OnNewLine R b b') :
    OnNewLine R (a ++ b) (a' ++ b') := by
  intro c c' hc
  rw [← List.append_assoc, ← List.append_assoc]
  exact hb _ _ (ha c c' hc)

theorem OnNewLine.flatten {parts parts' : List (List Token)}
    (h : List.Forall₂ (OnNewLine R) parts parts') : OnNewLine R parts.flatten parts'.flatten := by
  induction h with
  | nil => exact .nil
  | cons hfirst _ ih => exact hfirst.append ih

variable (h : Keeps R)
include h

theorem Keeps.nil : R [] [] :=
  h.noise .nil .nil

theorem Keeps.append_code (ha : R a a') {ts : List Token} (hts : Unremarked ts) :
    R (a ++ ts) (a' ++ ts) :=
  h.append ha (h.code hts)

theorem Keeps.flatten {parts parts' : List (List Token)} (hparts : List.Forall₂ R parts parts') :
    R parts.flatten parts'.flatten := by
  induction hparts with
  | nil => exact h.nil
  | cons hfirst _ ih => exact h.append hfirst ih

theorem Keeps.unfinished (ha : R a a') : Unfinished R a a' :=
  fun indent => h.append_code ha (unremarked_newline indent)

theorem Keeps.append_unfinished (ha : R a a') (hb : Unfinished R b b') :
    Unfinished R (a ++ b) (a' ++ b') := by
  intro indent
  rw [List.append_assoc, List.append_assoc]
  exact h.append ha (hb indent)

/-- What is noise once the line is ended may stand behind code. -/
theorem Keeps.append_noise (ha : R a a') (hb : ∀ indent, Noise (b ++ newline indent))
    (hb' : ∀ indent, Noise (b' ++ newline indent)) : Unfinished R (a ++ b) (a' ++ b') :=
  h.append_unfinished ha fun indent => h.noise (hb indent) (hb' indent)

theorem Keeps.leadingRemark (indent : Nat) (parts parts' : List String) :
    R (leadingRemark indent parts) (leadingRemark indent parts') :=
  h.noise (noise_leadingRemark indent parts) (noise_leadingRemark indent parts')

theorem Keeps.trailingRemark (ha : R a a') (parts parts' : List String) :
    Unfinished R (a ++ trailingRemark parts) (a' ++ trailingRemark parts') :=
  h.append_noise ha (noise_trailingRemark parts) (noise_trailingRemark parts')

theorem Keeps.onNewLine (indent : Nat) (ha : Unfinished R a a') :
    OnNewLine R (newline indent ++ a) (newline indent ++ a') := by
  intro b b' hb
  rw [← List.append_assoc, ← List.append_assoc]
  exact h.append_unfinished (hb indent) ha

theorem Keeps.onNewLine_unfinished (ha : OnNewLine R a a') : Unfinished R a a' :=
  ha [] [] (h.unfinished h.nil)

end Lines

/-! ## Fronts and backs -/

section Printing

variable (R : List Token → List Token → Prop)

/-- Fronts that are related and leave the same room. -/
def FrontsRelated (f f' : Front) : Prop :=
  R f.tokens f'.tokens ∧ f.tight = f'.tight

/-- Two ways of writing types out. -/
structure WritesRelated (nested nested' : Nested) : Prop where
  front : ∀ indent t ms,
    Alongside (FrontsRelated R) (nested.front indent t ms) (nested'.front indent t ms)
  back : ∀ indent t ms, Alongside R (nested.back indent t ms) (nested'.back indent t ms)

variable {R} {s : Source} {r : Remarks} {nested nested' : Nested} (h : Keeps R)
  (hn : WritesRelated R nested nested') {indent : Nat}
include h hn

theorem Keeps.front (ty : TypeRef) : Alongside (FrontsRelated R)
    (s.front nested indent ty) ((s.withRemarks r).front nested' indent ty) := by
  have hstart : R (baseQualifiers ty) (baseQualifiers ty) := h.code (unremarked_baseQualifiers ty)
  cases hbase : ty.base with
  | fundamental id =>
      rw [front_fundamental hbase, front_fundamental hbase]
      exact .pure ⟨h.code (by simp), rfl⟩
  | user o =>
      cases hfound : s.inlined? o with
      | error e =>
          rw [front_error hbase hfound, front_error (s := s.withRemarks r) hbase hfound]
          rfl
      | ok found =>
          cases found with
          | none =>
              obtain ⟨name, hname, -⟩ := exists_nameOf_of_inlined? hfound
              rw [front_named hbase hfound hname,
                front_named (s := s.withRemarks r) hbase hfound hname]
              exact .pure ⟨h.code (by simp), rfl⟩
          | some t =>
              rw [front_inlined hbase hfound, front_inlined (s := s.withRemarks r) hbase hfound]
              refine (hn.front indent t ty.modifiers).bind fun written written' hwritten => ?_
              exact .pure ⟨h.append hstart hwritten.1, hwritten.2⟩

theorem Keeps.back (ty : TypeRef) : Alongside R
    (s.back nested indent ty) ((s.withRemarks r).back nested' indent ty) := by
  cases hbase : ty.base with
  | fundamental id =>
      rw [back_fundamental hbase, back_fundamental hbase]
      exact .pure h.nil
  | user o =>
      cases hfound : s.inlined? o with
      | error e =>
          rw [back_error hbase hfound, back_error (s := s.withRemarks r) hbase hfound]
          rfl
      | ok found =>
          cases found with
          | none =>
              rw [back_named hbase hfound, back_named (s := s.withRemarks r) hbase hfound]
              exact .pure h.nil
          | some t =>
              rw [back_inlined hbase hfound, back_inlined (s := s.withRemarks r) hbase hfound]
              exact hn.back indent t ty.modifiers

theorem Keeps.declaration (ty : TypeRef) (name : String) : Alongside R
    (s.declaration nested indent ty name)
    ((s.withRemarks r).declaration nested' indent ty name) := by
  refine (h.front hn ty).bind fun before before' hbefore => ?_
  refine (h.back hn ty).bind fun behind behind' hbehind => .pure ?_
  rw [hbefore.2]
  exact h.append (h.append_code hbefore.1 (by simp)) hbehind

theorem Keeps.typeName (ty : TypeRef) : Alongside R
    (s.typeName nested indent ty) ((s.withRemarks r).typeName nested' indent ty) := by
  refine (h.front hn ty).bind fun before before' hbefore => ?_
  exact (h.back hn ty).bind fun behind behind' hbehind => .pure (h.append hbefore.1 hbehind)

/-! ## Signatures -/

theorem Keeps.parameter (isDefinition : Bool) (p : Local) : Alongside R
    (s.parameter nested indent isDefinition p)
    ((s.withRemarks r).parameter nested' indent isDefinition p) := by
  refine (h.declaration hn p.type p.name).bind fun declared declared' hdeclared => .pure ?_
  have hkept : ∀ (shown : Bool) (text : String),
      Noise (if shown = true then [space, aside text] else []) := by
    intro shown text
    cases shown with
    | true => exact Noise.space.append (.aside text)
    | false => exact .nil
  cases p.location with
  | none => exact h.append hdeclared h.nil
  | some location => exact h.append hdeclared (h.noise (hkept _ _) (hkept _ _))

omit hn in
theorem Keeps.intersperse {parts parts' : List (List Token)} {separator : List Token}
    (hseparator : Unremarked separator) (hparts : List.Forall₂ R parts parts') :
    R (parts.intersperse separator).flatten (parts'.intersperse separator).flatten := by
  refine h.flatten ?_
  induction hparts with
  | nil => exact .nil
  | cons hfirst hrest ih =>
      cases hrest with
      | nil => exact .cons hfirst .nil
      | cons hsecond hrest => exact .cons hfirst (.cons (h.code hseparator) ih)

theorem Keeps.parameters (isDefinition : Bool) (t : RoutineType) : Alongside R
    (s.parameters nested indent isDefinition t)
    ((s.withRemarks r).parameters nested' indent isDefinition t) := by
  refine (Alongside.mapM (h.parameter hn isDefinition) _).bind fun each each' heach => .pure ?_
  have hdots : List.Forall₂ R [[ofPunctuation "..."]] [[ofPunctuation "..."]] :=
    .cons (h.code (by simp)) .nil
  refine h.append_code (h.append (h.code (by simp)) (h.intersperse (by simp) ?_)) (by simp)
  split
  · exact List.rel_append heach hdots
  · exact heach

theorem Keeps.returnPart (f : Function) : Alongside R
    (s.returnPart nested indent f) ((s.withRemarks r).returnPart nested' indent f) := by
  unfold Source.returnPart
  split
  · refine (h.typeName hn f.signature.returnType).bind fun returned returned' hreturned => ?_
    exact .pure (h.append_code hreturned (by simp))
  · exact .pure h.nil

theorem Keeps.signature (f : Function) (isDefinition insideClass : Bool) : Alongside R
    (s.signature nested indent f isDefinition insideClass)
    ((s.withRemarks r).signature nested' indent f isDefinition insideClass) := by
  refine (h.returnPart hn f).bind fun returned returned' hreturned => ?_
  refine Alongside.bind_same fun owner => ?_
  refine (h.parameters hn isDefinition f.signature).bind
    fun parameters parameters' hparameters => .pure ?_
  refine h.append_code (h.append (h.append_code (h.append_code (h.append (h.code ?_) hreturned) ?_)
    ?_) hparameters) ?_
  · simp
  · cases owner with
    | none => simp
    | some owner => simp
  · simp
  · cases f.this? with
    | none => simp
    | some this => simp

theorem Keeps.functionDeclaration (f : Function) (insideClass : Bool) : Alongside R
    (s.functionDeclaration nested indent f insideClass)
    ((s.withRemarks r).functionDeclaration nested' indent f insideClass) :=
  (h.signature hn f false insideClass).bind fun _ _ hsignature =>
    .pure (h.append_code hsignature (by simp))

/-! ## Bodies -/

omit h hn in
/-- Enumerators have no remarks. -/
theorem enumerators_withRemarks (previous : Int) (es : List Enumerator) :
    (s.withRemarks r).enumerators indent previous es = s.enumerators indent previous es := by
  induction es generalizing previous with
  | nil => rfl
  | cons e rest ih =>
      rw [enumerators, ih]
      rfl

omit hn in
theorem Keeps.enumeration (e : EnumType) (isInline : Bool) :
    R (s.enumeration indent e isInline) ((s.withRemarks r).enumeration indent e isInline) := by
  simp only [Source.enumeration, enumerators_withRemarks, List.append_assoc]
  refine h.append (h.leadingRemark _ _ _) (h.code ?_)
  simp

theorem Keeps.base (kind : ClassKind) (lead : String) (b : Base) : Alongside R
    (s.base nested indent kind lead b) ((s.withRemarks r).base nested' indent kind lead b) := by
  refine (h.typeName hn b.type).bind fun written written' hwritten => .pure ?_
  exact h.append (h.code (by simp)) hwritten

theorem Keeps.bases (kind : ClassKind) (lead : String) (bs : List Base) : Alongside R
    (s.bases nested indent kind lead bs) ((s.withRemarks r).bases nested' indent kind lead bs) := by
  induction bs generalizing lead with
  | nil => exact .pure h.nil
  | cons b rest ih =>
      refine (h.base hn kind lead b).bind fun first first' hfirst => ?_
      exact (ih ", ").bind fun others others' hothers => .pure (h.append hfirst hothers)

theorem Keeps.typedef (t : Typedef) : Alongside R
    (s.typedef nested indent t) ((s.withRemarks r).typedef nested' indent t) :=
  (h.declaration hn t.type t.name).bind fun _ _ hdeclared =>
    .pure (h.append_code (h.append (h.code (by simp)) hdeclared) (by simp))

theorem Keeps.member (m : Member) : Alongside (Unfinished R)
    (s.member nested indent m) ((s.withRemarks r).member nested' indent m) := by
  refine (h.declaration hn m.type m.name).bind fun declared declared' hdeclared => .pure ?_
  refine h.trailingRemark (h.append_code (h.append_code hdeclared ?_) (by simp)) _ _
  cases m.bitSize with
  | none => simp
  | some n => simp

/-- Items with the same access. -/
def ItemsRelated (R : List Token → List Token → Prop) (a a' : Access × List Token) : Prop :=
  a.1 = a'.1 ∧ Unfinished R a.2 a'.2

omit hn in
/-- A label begins with the end of a line, as an item without one does. -/
theorem Keeps.item (inForce access : Access) (isFirst : Bool) {item item' : List Token}
    (hitem : Unfinished R item item') :
    OnNewLine R (accessLabel inForce access isFirst ++ newline indent ++ item)
      (accessLabel inForce access isFirst ++ newline indent ++ item') := by
  unfold accessLabel
  split
  · exact h.onNewLine indent hitem
  · have hlabel : ∀ ts, Unremarked ts →
        OnNewLine R (newline 0 ++ (ts ++ newline indent ++ item))
          (newline 0 ++ (ts ++ newline indent ++ item')) := fun ts hts =>
      h.onNewLine 0 (h.append_unfinished (h.code (by simp [hts])) hitem)
    cases isFirst with
    | true => exact hlabel [ofKeyword access.keyword, ofPunctuation ":"] (by simp)
    | false => exact hlabel [lineBreak, ofKeyword access.keyword, ofPunctuation ":"] (by simp)

omit hn in
theorem Keeps.labelled {items items' : List (Access × List Token)}
    (hitems : List.Forall₂ (ItemsRelated R) items items') (inForce : Access) (isFirst : Bool) :
    OnNewLine R (labelled indent inForce isFirst items)
      (labelled indent inForce isFirst items') := by
  induction hitems generalizing inForce isFirst with
  | nil => exact .nil
  | @cons item item' rest rest' hitem _ ih =>
      obtain ⟨access, ts⟩ := item
      obtain ⟨access', ts'⟩ := item'
      obtain ⟨rfl, hts⟩ := hitem
      exact (h.item inForce access isFirst hts).append (ih access false)

omit h hn in
theorem labelled_eq_nil_iff {items : List (Access × List Token)} {inForce : Access}
    {isFirst : Bool} : labelled indent inForce isFirst items = [] ↔ items = [] := by
  cases items with
  | nil => simp [labelled]
  | cons item rest => simp [labelled, newline]

omit h hn in
theorem lastAccess_eq {items items' : List (Access × List Token)}
    (hitems : List.Forall₂ (ItemsRelated R) items items') (start : Access) :
    lastAccess start items = lastAccess start items' := by
  have hsame : items.map Prod.fst = items'.map Prod.fst := by
    induction hitems with
    | nil => rfl
    | cons hitem _ ih => rw [List.map_cons, List.map_cons, hitem.1, ih]
  rw [lastAccess, lastAccess, ← List.getLast?_map, ← List.getLast?_map, hsame]

/-- Items and a line end, unless there are no items. -/
def group (indent : Nat) (items : List Token) : List Token :=
  if items.isEmpty then [] else items ++ newline indent

/-- Related, and there is something in both or in neither. -/
def RelatedIfAny (R : List Token → List Token → Prop) (a a' : List Token) : Prop :=
  R a a' ∧ (a = [] ↔ a' = [])

omit hn in
theorem Keeps.group {a a' : List Token} (hany : a = [] ↔ a' = []) (ha : Unfinished R a a') :
    RelatedIfAny R (group indent a) (group indent a') := by
  unfold Source.group
  cases a with
  | nil =>
      rw [hany.mp rfl]
      exact ⟨h.nil, Iff.rfl⟩
  | cons t ts =>
      cases a' with
      | nil => cases hany.mpr rfl
      | cons t' ts' => exact ⟨ha indent, by simp⟩

omit hn in
theorem Keeps.append_ifAny {a a' b b' : List Token} (ha : RelatedIfAny R a a')
    (hb : RelatedIfAny R b b') : RelatedIfAny R (a ++ b) (a' ++ b') := by
  refine ⟨h.append ha.1 hb.1, ?_⟩
  rw [List.append_eq_nil_iff, List.append_eq_nil_iff, ha.2, hb.2]

omit h hn in
theorem forall₂_nil_iff {α β : Type} {P : α → β → Prop} {as : List α} {bs : List β}
    (hP : List.Forall₂ P as bs) : as = [] ↔ bs = [] := by
  cases hP with
  | nil => simp
  | cons _ _ => simp

omit hn in
/-- A line end stands in for what is not there. -/
theorem Keeps.orNewline {a a' : List Token} (ha : RelatedIfAny R a a') :
    R (if a.isEmpty then newline indent else a) (if a'.isEmpty then newline indent else a') := by
  cases a with
  | nil =>
      rw [ha.2.mp rfl]
      exact h.code (unremarked_newline indent)
  | cons t ts =>
      cases a' with
      | nil => cases ha.2.mpr rfl
      | cons t' ts' => exact ha.1

omit hn in
theorem Keeps.aliases {typedefs typedefs' : List (List Token)}
    (htypedefs : List.Forall₂ R typedefs typedefs') :
    RelatedIfAny R (Source.group indent (typedefs.flatMap (newline (indent + 1) ++ ·)))
      (Source.group indent (typedefs'.flatMap (newline (indent + 1) ++ ·))) := by
  have hnone : ∀ ts : List (List Token),
      ts.flatMap (newline (indent + 1) ++ ·) = [] ↔ ts = [] := by
    intro ts
    cases ts <;> simp [newline]
  refine h.group ?_ (h.unfinished (h.flatten ?_))
  · rw [hnone, hnone]
    exact forall₂_nil_iff htypedefs
  · rw [List.forall₂_map_left_iff, List.forall₂_map_right_iff]
    exact htypedefs.imp fun _ _ ht => h.append (h.code (by simp)) ht

omit hn in
theorem Keeps.labelledGroup {items items' : List (Access × List Token)}
    (hitems : List.Forall₂ (ItemsRelated R) items items') (inForce : Access) :
    RelatedIfAny R (Source.group indent (Source.labelled (indent + 1) inForce true items))
      (Source.group indent (Source.labelled (indent + 1) inForce true items')) := by
  refine h.group ?_ (h.onNewLine_unfinished (h.labelled hitems inForce true))
  rw [labelled_eq_nil_iff, labelled_eq_nil_iff]
  exact forall₂_nil_iff hitems

omit hn in
theorem Keeps.classItems (kind : ClassKind) {typedefs typedefs' : List (List Token)}
    {members members' functions functions' : List (Access × List Token)}
    (htypedefs : List.Forall₂ R typedefs typedefs')
    (hmembers : List.Forall₂ (ItemsRelated R) members members')
    (hfunctions : List.Forall₂ (ItemsRelated R) functions functions') :
    R (classItems indent kind typedefs members functions)
      (classItems indent kind typedefs' members' functions') := by
  refine h.orNewline (h.append_ifAny
    (h.append_ifAny (h.aliases htypedefs) (h.labelledGroup hmembers kind.implicitAccess)) ?_)
  rw [lastAccess_eq hmembers]
  exact h.labelledGroup hfunctions (lastAccess kind.implicitAccess members')

omit h hn in
theorem Alongside.withAccess {access : Access} {x y : Except RenderError (List Token)}
    (hxy : Alongside (Unfinished R) x y) :
    Alongside (ItemsRelated R) (do return (access, ← x)) (do return (access, ← y)) :=
  hxy.bind fun _ _ hitem => .pure ⟨rfl, hitem⟩

theorem Keeps.classType (c : ClassType) (isInline : Bool) : Alongside R
    (s.classType nested indent c isInline)
    ((s.withRemarks r).classType nested' indent c isInline) := by
  refine (h.bases hn c.kind " : " c.bases).bind fun bases bases' hbases => ?_
  refine (Alongside.mapM (h.typedef hn) c.typedefs).bind fun typedefs typedefs' htypedefs => ?_
  refine (Alongside.mapM (fun m => Alongside.withAccess (h.member hn m)) c.members).bind
    fun members members' hmembers => ?_
  refine (Alongside.mapM (fun f => Alongside.withAccess ((h.functionDeclaration hn f true).mono
    fun _ _ => h.unfinished)) (s.methods c)).bind fun functions functions' hfunctions => .pure ?_
  refine h.append_code (h.append (h.append_code (h.append_code (h.append (h.append_code
    (h.append_code (h.leadingRemark _ _ _) ?_) ?_) hbases) ?_) ?_)
    (h.classItems c.kind htypedefs hmembers hfunctions)) ?_
  all_goals simp

/-! ## Types written out -/

theorem Keeps.memberPointerFront (p : MemberPointerType) (ms : List Modifier) : Alongside R
    (s.memberPointerFront nested indent p ms)
    ((s.withRemarks r).memberPointerFront nested' indent p ms) := by
  refine (h.front hn p.type).bind fun target target' htarget => ?_
  refine Alongside.bind_same fun owner => .pure ?_
  rw [htarget.2]
  exact h.append_code (h.append_code (h.append_code htarget.1 (by simp)) (by simp)) (by simp)

theorem Keeps.writtenFront (t : UserType) (ms : List Modifier) : Alongside (FrontsRelated R)
    (s.writtenFront nested indent t ms) ((s.withRemarks r).writtenFront nested' indent t ms) := by
  have hms : R (modifiers ms) (modifiers ms) := h.code (by simp)
  cases t with
  | ofClass c =>
      refine (h.classType hn c true).bind fun body body' hbody => ?_
      exact .pure ⟨h.append hbody hms, rfl⟩
  | ofEnum e => exact .pure ⟨h.append (h.enumeration e true) hms, rfl⟩
  | ofArray a =>
      refine (h.front hn a.element).bind fun element element' helement => ?_
      rw [helement.2]
      split
      · exact .pure helement
      · exact .pure ⟨h.append (h.append_code helement.1 (by simp)) hms, rfl⟩
  | ofRoutine t =>
      refine (h.front hn t.returnType).bind fun returned returned' hreturned => ?_
      exact .pure ⟨h.append (h.append_code hreturned.1 (by simp)) hms, rfl⟩
  | ofMemberPointer p =>
      exact (h.memberPointerFront hn p ms).bind fun _ _ hfront => .pure ⟨hfront, rfl⟩

theorem Keeps.writtenBack (t : UserType) (ms : List Modifier) : Alongside R
    (s.writtenBack nested indent t ms) ((s.withRemarks r).writtenBack nested' indent t ms) := by
  cases t with
  | ofClass c => exact .pure h.nil
  | ofEnum e => exact .pure h.nil
  | ofArray a =>
      refine (h.back hn a.element).bind fun behind behind' hbehind => .pure ?_
      exact h.append (h.code (by simp)) hbehind
  | ofRoutine t =>
      refine (h.parameters hn false t).bind fun parameters parameters' hparameters => ?_
      refine (h.back hn t.returnType).bind fun behind behind' hbehind => .pure ?_
      exact h.append (h.append (h.code (by simp)) hparameters) hbehind
  | ofMemberPointer p => exact h.back hn p.type

omit hn in
/-- To any depth. -/
theorem Keeps.nestedTo (s : Source) (r : Remarks) (depth : Nat) :
    WritesRelated R (s.nestedTo depth) ((s.withRemarks r).nestedTo depth) := by
  induction depth with
  | zero => exact ⟨fun _ _ _ => rfl, fun _ _ _ => rfl⟩
  | succ depth ih =>
      exact ⟨fun _ t ms => h.writtenFront ih t ms, fun _ t ms => h.writtenBack ih t ms⟩

omit hn in
theorem Keeps.writtenOut (s : Source) (r : Remarks) :
    WritesRelated R s.writtenOut (s.withRemarks r).writtenOut :=
  h.nestedTo s r s.program.types.size

/-! ## Files -/

theorem Keeps.arrayTypedef (a : ArrayType) : Alongside R
    (s.arrayTypedef nested a) ((s.withRemarks r).arrayTypedef nested' a) := by
  refine (h.front hn a.element).bind fun before before' hbefore => ?_
  refine (h.back hn a.element).bind fun behind behind' hbehind => .pure ?_
  rw [hbefore.2]
  refine h.append_code (h.append (h.append_code (h.append_code (h.append (h.append_code
    (h.leadingRemark _ _ _) ?_) hbefore.1) ?_) ?_) hbehind) ?_
  all_goals simp

theorem Keeps.routineTypedef (t : RoutineType) : Alongside R
    (s.routineTypedef nested t) ((s.withRemarks r).routineTypedef nested' t) := by
  refine (h.front hn t.returnType).bind fun before before' hbefore => ?_
  refine (h.parameters hn false t).bind fun parameters parameters' hparameters => ?_
  refine (h.back hn t.returnType).bind fun behind behind' hbehind => .pure ?_
  refine h.append_code (h.append (h.append (h.append_code (h.append (h.append_code
    (h.leadingRemark _ _ _) ?_) hbefore.1) ?_) hparameters) hbehind) ?_
  all_goals simp

theorem Keeps.memberPointerTypedef (p : MemberPointerType) : Alongside R
    (s.memberPointerTypedef nested p) ((s.withRemarks r).memberPointerTypedef nested' p) := by
  refine (h.memberPointerFront hn p []).bind fun before before' hbefore => ?_
  refine (h.back hn p.type).bind fun behind behind' hbehind => .pure ?_
  refine h.append_code (h.append (h.append_code (h.append (h.append_code (h.leadingRemark _ _ _) ?_)
    hbefore) ?_) hbehind) ?_
  all_goals simp

theorem Keeps.userType (t : UserType) : Alongside R
    (s.userType nested t) ((s.withRemarks r).userType nested' t) := by
  cases t with
  | ofClass c => exact h.classType hn c false
  | ofEnum e => exact .pure (h.enumeration e false)
  | ofArray a => exact h.arrayTypedef hn a
  | ofRoutine t => exact h.routineTypedef hn t
  | ofMemberPointer p => exact h.memberPointerTypedef hn p

theorem Keeps.fileVariable (v : Variable) : Alongside (Unfinished R)
    (s.fileVariable nested v) ((s.withRemarks r).fileVariable nested' v) := by
  refine (h.declaration hn v.type v.name).bind fun declared declared' hdeclared => .pure ?_
  exact h.trailingRemark (h.append_code (h.append (h.code (by simp)) hdeclared) (by simp)) _ _

theorem Keeps.localVariable (l : Local) : Alongside (OnNewLine R)
    (s.localVariable nested l) ((s.withRemarks r).localVariable nested' l) := by
  refine (h.declaration hn l.type l.name).bind fun declared declared' hdeclared => .pure ?_
  have hcode : R (declared ++ [ofPunctuation ";"]) (declared' ++ [ofPunctuation ";"]) :=
    h.append_code hdeclared (by simp)
  rw [List.append_assoc (newline 1), List.append_assoc (newline 1), List.append_assoc (newline 1),
    List.append_assoc (newline 1)]
  refine h.onNewLine 1 ?_
  cases l.location with
  | none => exact h.append_noise hcode (fun indent => .newline indent) fun indent => .newline indent
  | some location =>
      exact h.append_noise hcode (noise_location _ location.text) (noise_location _ location.text)

omit hn in
theorem Keeps.remark (text : String) : Unfinished R [remark text] [remark text] := fun indent =>
  h.noise (.remark text indent) (.remark text indent)

omit hn in
theorem Keeps.instructions (lines : List LineEntry) (code : List Instruction) :
    OnNewLine R (instructions indent lines code) (instructions indent lines code) := by
  induction code generalizing lines with
  | nil => exact .nil
  | cons i rest ih =>
      refine ((h.onNewLine indent (h.remark _)).append (.flatten ?_)).append (ih _)
      rw [List.forall₂_map_left_iff, List.forall₂_map_right_iff, List.forall₂_same]
      exact fun line _ => h.onNewLine indent (h.remark _)

omit hn in
theorem Keeps.disassembled (f : Function) :
    OnNewLine R (s.disassembled f) ((s.withRemarks r).disassembled f) := by
  have hgap : OnNewLine R [lineBreak] [lineBreak] := h.onNewLine 0 (h.unfinished h.nil)
  show OnNewLine R (s.disassembled f) (s.disassembled f)
  unfold Source.disassembled
  cases s.codeOf f with
  | none => exact .nil
  | some code =>
      refine OnNewLine.append ?_ (h.instructions _ code)
      split
      · exact .nil
      · exact hgap

theorem Keeps.functionDefinition (f : Function) : Alongside R
    (s.functionDefinition nested f) ((s.withRemarks r).functionDefinition nested' f) := by
  refine (h.signature hn f true false).bind fun signature signature' hsignature => ?_
  refine (Alongside.mapM (h.localVariable hn) f.locals).bind fun locals locals' hlocals => .pure ?_
  have hremarks : ∀ parts : List String,
      Noise (parts.flatMap fun text => [Token.remark text] ++ newline 0) := fun parts =>
    noise_flatMap fun text _ => .remark text 0
  have hcode : OnNewLine R (if s.settings.disassembly then s.disassembled f else [])
      (if s.settings.disassembly then (s.withRemarks r).disassembled f else []) := by
    split
    · exact h.disassembled f
    · exact .nil
  -- the brace, a line for each variable and each instruction, and the end of the last
  refine h.append_code (hcode _ _ (OnNewLine.flatten hlocals _ _ (h.unfinished ?_)) 0) (by simp)
  refine h.append_code (h.append_code (h.append ?_ hsignature) (by simp)) (by simp)
  exact h.noise (hremarks _) (hremarks _)

omit hn in
/-- Parts each of which is printed by itself. -/
theorem Keeps.parts {α : Type} {f g : α → Except RenderError (List Token)} {tail : List Token}
    (hfg : ∀ a, Alongside (fun ts ts' => R (ts ++ tail) (ts' ++ tail)) (f a) (g a))
    (items : List α) : Alongside (fun parts parts' => R parts.flatten parts'.flatten)
      (items.mapM fun a => do return (← f a) ++ tail)
      (items.mapM fun a => do return (← g a) ++ tail) :=
  (Alongside.mapM (fun a => (hfg a).bind fun _ _ hpart => .pure hpart) items).mono
    fun _ _ => h.flatten

theorem Keeps.typesPart (fs : List File) : Alongside R
    (s.typesPart nested fs) ((s.withRemarks r).typesPart nested' fs) := by
  refine Alongside.bind ?_ fun types types' htypes => .pure htypes
  simp only [List.append_assoc]
  exact h.parts (fun t => (h.userType hn t).mono fun _ _ ht => h.append_code ht (by simp)) _

theorem Keeps.variablesPart (fs : List File) : Alongside R
    (s.variablesPart nested fs) ((s.withRemarks r).variablesPart nested' fs) := by
  refine Alongside.ite ?_ (.pure h.nil)
  refine (h.parts (fun v => (h.fileVariable hn v).mono fun _ _ hv => hv 0) _).bind ?_
  exact fun vars vars' hvars => .pure (h.append_code hvars (unremarked_newline 0))

theorem Keeps.declarationsPart (fs : List File) : Alongside R
    (s.declarationsPart nested fs) ((s.withRemarks r).declarationsPart nested' fs) := by
  refine Alongside.ite ?_ (.pure h.nil)
  refine (h.parts (fun f => (h.functionDeclaration hn f false).mono
    fun _ _ hf => h.append_code hf (unremarked_newline 0)) _).bind ?_
  exact fun functions functions' hfunctions =>
    .pure (h.append_code hfunctions (unremarked_newline 0))

theorem Keeps.definitionsPart (fs : List File) : Alongside R
    (s.definitionsPart nested fs) ((s.withRemarks r).definitionsPart nested' fs) := by
  refine Alongside.ite (Alongside.bind ?_ fun functions functions' hfunctions => .pure hfunctions)
    (.pure h.nil)
  simp only [List.append_assoc]
  exact h.parts (fun f => (h.functionDefinition hn f).mono
    fun _ _ hf => h.append_code hf (by simp)) _

theorem Keeps.files (fs : List File) : Alongside R
    (s.files nested fs) ((s.withRemarks r).files nested' fs) := by
  refine (h.typesPart hn fs).bind fun types types' htypes => ?_
  refine (h.variablesPart hn fs).bind fun vars vars' hvars => ?_
  refine (h.declarationsPart hn fs).bind fun declarations declarations' hdeclarations => ?_
  refine (h.definitionsPart hn fs).bind fun definitions definitions' hdefinitions => .pure ?_
  have hremarks := h.noise (noise_fileRemarks s fs) (noise_fileRemarks (s.withRemarks r) fs)
  exact h.append (h.append (h.append (h.append hremarks htypes) hvars) hdeclarations) hdefinitions

end Printing

/-- What is printed with some remarks is related to what is printed with others, once the
last line is ended. -/
theorem Keeps.tokens {R : List Token → List Token → Prop} (h : Keeps R) (s : Source) (r : Remarks)
    (target : RenderTarget) :
    Alongside (Unfinished R) (s.tokens target) ((s.withRemarks r).tokens target) := by
  have hn := h.writtenOut s r
  have hfiles : ∀ fs, Alongside (Unfinished R) (s.files s.writtenOut fs)
      ((s.withRemarks r).files (s.withRemarks r).writtenOut fs) := fun fs =>
    (h.files hn fs).mono fun _ _ => h.unfinished
  cases target with
  | all => exact hfiles _
  | path name => exact hfiles _
  | entry offset =>
      show Alongside (Unfinished R) (s.entry offset) ((s.withRemarks r).entry offset)
      have hprogram : (s.withRemarks r).program = s.program := rfl
      simp only [entry, hprogram]
      cases s.program.file? offset with
      | some file => exact hfiles [file]
      | none =>
          cases s.program.types[offset]? with
          | some t => exact (h.userType hn t).mono fun _ _ => h.unfinished
          | none =>
              cases s.program.vars[offset]? with
              | some v => exact h.fileVariable hn v
              | none =>
                  cases s.program.functions[offset]? with
                  | some f => exact (h.functionDefinition hn f).mono fun _ _ => h.unfinished
                  | none => exact .pure (h.unfinished h.nil)

end Source
end DwarfOne
