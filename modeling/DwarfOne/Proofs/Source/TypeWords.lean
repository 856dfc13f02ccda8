/-
# `Proofs.Source.TypeWords` — whether a declaration names a type

Before a declared name there should be a word that says what it is: the keyword of a fundamental
type or of a type that is written out, or the name of another one.  One kind of type has no such
word.  Types without a name are written where they are used, but only if the program has them,
and the walk takes up no types except those directly in a unit.  A structure without a name that
stands inside a class or a function is therefore neither written out nor named: `Wordless`.
Arrays, routines and pointers to members take over what they are made of, so they may be
wordless too.  Everything else has its word (`prints_front_nestedTo`).
-/
import DwarfOne.Proofs.Program.Accounts
import DwarfOne.Proofs.Source.AccessLabels

namespace DwarfOne

/-! ## Words -/

namespace Token

/-- A keyword other than a qualifier, or an identifier. -/
def isTypeWord (t : Token) : Bool :=
  match t.kind with
  | .keyword => t.text ∉ ["", "const", "volatile"]
  | .identifier => t.text ≠ ""
  | _ => false

@[simp] theorem isTypeWord_ofPunctuation (text : String) :
    (ofPunctuation text).isTypeWord = false :=
  rfl

@[simp] theorem isTypeWord_space : space.isTypeWord = false :=
  rfl

@[simp] theorem isTypeWord_ofIdentifier (text : String) :
    (ofIdentifier text).isTypeWord = decide (text ≠ "") :=
  rfl

end Token

namespace FundamentalNames

/-- Every fundamental type is called something, and not after a qualifier. -/
theorem isTypeWord_name (id : UInt16) : (Token.ofKeyword (default.name id)).isTypeWord = true := by
  have hentries : (default.entries.all fun e => (Token.ofKeyword e.2).isTypeWord) = true := by
    decide
  rw [name]
  cases hname : default.entries.lookup id with
  | some name =>
      obtain ⟨before, behind, heq, -⟩ := List.lookup_eq_some_iff.mp hname
      exact List.all_eq_true.mp hentries (id, name) (by simp [heq])
  | none =>
      -- it begins like no qualifier
      have hfirst (word : String) (hword : word.toList.head? ≠ some '<') :
          "<unknown type " ++ Numeral.upperOffset id.toNat ++ ">" ≠ word := by
        rintro rfl
        simp at hword
      simpa [Token.isTypeWord, Token.ofKeyword] using
        ⟨hfirst "const" (by decide), hfirst "volatile" (by decide)⟩

end FundamentalNames

namespace Source

open Token

section Words

@[simp] theorem any_qualifiers (isConst isVolatile : Bool) :
    (qualifiers isConst isVolatile).any isTypeWord = false := by
  cases isConst <;> cases isVolatile <;> decide

@[simp] theorem any_baseQualifiers (ty : TypeRef) : (baseQualifiers ty).any isTypeWord = false := by
  simp only [baseQualifiers]
  split <;> simp

@[simp] theorem any_modifiers (ms : List Modifier) : (modifiers ms).any isTypeWord = false := by
  induction ms with
  | nil => rfl
  | cons m rest ih =>
      have hmark : (modifierMark m.kind).isTypeWord = false := by cases m.kind <;> rfl
      simp only [modifiers, List.any_append, ih, List.any_cons, hmark, List.any_nil]
      split
      · split <;> simp
      · rfl

theorem any_enumeration (s : Source) (indent : Nat) (e : EnumType) (isInline : Bool) :
    (s.enumeration indent e isInline).any isTypeWord = true := by
  have hword : (ofKeyword "enum").isTypeWord = true := by decide
  simp [enumeration, hword]

theorem prints_classType (s : Source) (nested : Nested) (indent : Nat) (c : ClassType)
    (isInline : Bool) :
    Prints (fun ts => ts.any isTypeWord = true) (s.classType nested indent c isInline) := by
  refine (prints_ok _).mono fun tokens htokens => ?_
  obtain ⟨remarks, parts, rfl⟩ := ClassParts.exists_of_classType htokens
  have hword : (ofKeyword c.kind.keyword).isTypeWord = true := by
    cases c.kind <;> decide
  simp [ClassParts.tokens, ClassParts.head, hword]

end Words

/-! ## Types without a word -/

/-- Nothing says what the type is. -/
inductive Wordless (s : Source) : TypeRef → Prop
  /-- The record has no name, and the program does not have it as a type. -/
  | unmodelled {ty : TypeRef} {o : UInt32} (hbase : ty.base = .user o)
      (htypes : o ∉ s.program.types) (hname : s.nameOf o = .ok "") : Wordless s ty
  | array {ty : TypeRef} {o : UInt32} {a : ArrayType} (hbase : ty.base = .user o)
      (hfound : s.inlined? o = .ok (some (.ofArray a))) (helement : Wordless s a.element) :
      Wordless s ty
  | routine {ty : TypeRef} {o : UInt32} {r : RoutineType} (hbase : ty.base = .user o)
      (hfound : s.inlined? o = .ok (some (.ofRoutine r))) (hreturn : Wordless s r.returnType) :
      Wordless s ty
  /-- The name of the class would have been a word. -/
  | memberPointer {ty : TypeRef} {o : UInt32} {p : MemberPointerType} (hbase : ty.base = .user o)
      (hfound : s.inlined? o = .ok (some (.ofMemberPointer p))) (htype : Wordless s p.type)
      (howner : s.nameOf p.owner = .ok "") : Wordless s ty

/-- Nothing says what the type is when it is written out. -/
def WrittenWordless (s : Source) : UserType → Prop
  | .ofClass _ | .ofEnum _ => False
  | .ofArray a => s.Wordless a.element
  | .ofRoutine r => s.Wordless r.returnType
  | .ofMemberPointer p => s.Wordless p.type ∧ s.nameOf p.owner = .ok ""

section Wordless

variable {s : Source} {ty : TypeRef} {o : UInt32}

theorem not_wordless_fundamental {id : UInt16} (hbase : ty.base = .fundamental id) :
    ¬ s.Wordless ty := by
  intro h
  cases h <;> simp_all

theorem wordless_named_iff {name : String} (hbase : ty.base = .user o)
    (hfound : s.inlined? o = .ok none) (hname : s.nameOf o = .ok name) :
    s.Wordless ty ↔ name = "" := by
  constructor
  · intro h
    cases h with
    | unmodelled hbase' htypes hname' =>
        cases hbase.symm.trans hbase'
        cases hname.symm.trans hname'
        rfl
    | array hbase' hfound' | routine hbase' hfound' | memberPointer hbase' hfound' =>
        cases hbase.symm.trans hbase'
        cases hfound.symm.trans hfound'
  · rintro rfl
    refine .unmodelled hbase ?_ hname
    obtain ⟨name, hname', hnone⟩ := exists_nameOf_of_inlined? hfound
    cases hname.symm.trans hname'
    rw [if_pos (by simp [canInline])] at hnone
    rw [Std.TreeMap.mem_iff_isSome_getElem?, ← hnone]
    simp

theorem wordless_inlined_iff {t : UserType} (hbase : ty.base = .user o)
    (hfound : s.inlined? o = .ok (some t)) : s.Wordless ty ↔ s.WrittenWordless t := by
  constructor
  · intro h
    cases h with
    | unmodelled hbase' htypes hname =>
        cases hbase.symm.trans hbase'
        rw [Std.TreeMap.mem_iff_isSome_getElem?, getElem?_of_inlined? hfound] at htypes
        exact absurd rfl htypes
    | array hbase' hfound' helement =>
        cases hbase.symm.trans hbase'
        cases hfound.symm.trans hfound'
        exact helement
    | routine hbase' hfound' hreturn =>
        cases hbase.symm.trans hbase'
        cases hfound.symm.trans hfound'
        exact hreturn
    | memberPointer hbase' hfound' htype howner =>
        cases hbase.symm.trans hbase'
        cases hfound.symm.trans hfound'
        exact ⟨htype, howner⟩
  · intro h
    cases t with
    | ofClass c | ofEnum e => exact h.elim
    | ofArray a => exact .array hbase hfound h
    | ofRoutine r => exact .routine hbase hfound h
    | ofMemberPointer p => exact .memberPointer hbase hfound h.1 h.2

end Wordless

/-! ## What is printed -/

/-- The front has a word unless nothing says what the type is. -/
def WordUnless (wordless : Prop) (before : Front) : Prop :=
  before.tokens.any isTypeWord = true ↔ ¬ wordless

theorem prints_writtenFront {s : Source} {nested : Nested} {indent : Nat}
    (hfront : ∀ ty, Prints (WordUnless (s.Wordless ty)) (s.front nested indent ty)) (t : UserType)
    (ms : List Modifier) :
    Prints (WordUnless (s.WrittenWordless t)) (s.writtenFront nested indent t ms) := by
  cases t with
  | ofClass c =>
      refine (prints_classType s nested indent c true).bind fun body hbody => .pure ?_
      simp [WordUnless, WrittenWordless, hbody]
  | ofEnum e =>
      refine .pure ?_
      simp [WordUnless, WrittenWordless, any_enumeration]
  | ofArray a =>
      refine (hfront a.element).bind fun element helement => ?_
      split
      · exact .pure helement
      · refine .pure (.trans ?_ helement)
        simp
  | ofRoutine r =>
      refine (hfront r.returnType).bind fun returned hreturned => .pure (.trans ?_ hreturned)
      simp
  | ofMemberPointer p =>
      refine Agree.bind
        (P := fun ts => WordUnless (s.WrittenWordless (.ofMemberPointer p)) ⟨ts, true⟩) ?_
        fun ts hts => .pure hts
      refine (hfront p.type).bind fun target htarget => ?_
      refine (prints_ok (s.nameOf p.owner)).bind fun owner howner => .pure ?_
      have hseparator : (if target.tight then [] else [space]).any isTypeWord = false := by
        split <;> rfl
      have hword : target.tokens.any isTypeWord = true ↔ ¬ s.Wordless p.type := htarget
      simp only [WordUnless, WrittenWordless, howner, List.any_append, hseparator, any_modifiers,
        not_and_or, ← hword, Bool.or_eq_true]
      simp

section Default

variable {s : Source} {nested : Nested} (hdefault : s.settings.fundamentals = .default)
include hdefault

theorem prints_front (indent : Nat) (ty : TypeRef)
    (hnested : ∀ t, Prints (WordUnless (s.WrittenWordless t))
      (nested.front indent t ty.modifiers)) :
    Prints (WordUnless (s.Wordless ty)) (s.front nested indent ty) := by
  cases hbase : ty.base with
  | fundamental id =>
      rw [front_fundamental hbase]
      refine .pure ?_
      simp [WordUnless, hdefault, FundamentalNames.isTypeWord_name, not_wordless_fundamental hbase]
  | user o =>
      cases hfound : s.inlined? o with
      | error e =>
          rw [front_error hbase hfound]
          exact ⟨rfl, trivial⟩
      | ok found =>
          cases found with
          | none =>
              obtain ⟨name, hname, -⟩ := exists_nameOf_of_inlined? hfound
              rw [front_named hbase hfound hname]
              refine .pure ?_
              simp [WordUnless, wordless_named_iff hbase hfound hname]
          | some t =>
              rw [front_inlined hbase hfound]
              refine (hnested t).bind fun written hwritten => .pure ?_
              rw [WordUnless, wordless_inlined_iff hbase hfound]
              refine .trans ?_ hwritten
              simp

theorem prints_front_nestedTo (n indent : Nat) (ty : TypeRef) :
    Prints (WordUnless (s.Wordless ty)) (s.front (s.nestedTo n) indent ty) := by
  induction n generalizing indent ty with
  | zero => exact prints_front hdefault indent ty fun _ => ⟨rfl, trivial⟩
  | succ n ih =>
      exact prints_front hdefault indent ty fun t =>
        prints_writtenFront (ih indent) t ty.modifiers

end Default

/-! ## Programs from records -/

/-- Without records that are neither types of the program nor named, nothing is wordless. -/
theorem Wordless.exists_unmodelled {s : Source} {ty : TypeRef} (h : s.Wordless ty) :
    ∃ o, o ∉ s.program.types ∧ s.nameOf o = .ok "" := by
  induction h with
  | unmodelled _ htypes hname => exact ⟨_, htypes, hname⟩
  | array _ _ _ ih | routine _ _ _ ih | memberPointer _ _ _ _ ih => exact ih

end Source

namespace Program

/-- The types of a program are the records for types directly in a unit. -/
theorem Accounts.mem_types_iff {p : Program} {units : List Entry} (h : p.Accounts units)
    (o : UInt32) :
    o ∈ p.types ↔ ∃ e ∈ units, ∃ x ∈ e.playing .unit .type, x.offset = o := by
  constructor
  · intro ho
    obtain ⟨t, ht⟩ := exists_getElem?_of_mem ho
    obtain ⟨x, hx, hoffset, -⟩ := h.types.exists_of_getElem? o t ht
    obtain ⟨e, he, hx⟩ := List.mem_flatMap.mp hx
    exact ⟨e, he, x, hx, hoffset⟩
  · rintro ⟨e, he, x, hx, rfl⟩
    exact h.types.mem x (List.mem_flatMap.mpr ⟨e, he, hx⟩)

end Program

namespace Source

/-- A declaration in a program that was built from records has a word that says what it is,
unless nothing does: unless its type comes down to a record without a name that is no type
directly in a unit. -/
theorem worded_iff_of_build [RangeMap UInt32] {order : ByteOrder} {bytes : List UInt8}
    {line : Option (List UInt8)} {d : DebugInfo} (hd : DebugInfo.decode order bytes line = .ok d)
    {settings : DiagnosticSettings} {s : Source} {shown : Diagnostics}
    (hs : Program.build d settings = .ok (s.program, shown))
    (hdefault : s.settings.fundamentals = .default) :
    (∀ o, o ∈ s.program.types ↔ ∃ e ∈ d.unitEntries, ∃ x ∈ e.playing .unit .type, x.offset = o) ∧
      (∀ indent ty before, s.front s.writtenOut indent ty = .ok before →
        ((∃ t ∈ before.tokens, t.isTypeWord = true) ↔ ¬ s.Wordless ty)) ∧
      ((∀ o, o ∉ s.program.types → s.nameOf o ≠ .ok "") →
        ∀ indent ty before, s.front s.writtenOut indent ty = .ok before →
          ∃ t ∈ before.tokens, t.isTypeWord = true) := by
  obtain ⟨-, haccounts⟩ := Program.accounts_of_build hd hs
  have hwords : ∀ indent ty before, s.front s.writtenOut indent ty = .ok before →
      ((∃ t ∈ before.tokens, t.isTypeWord = true) ↔ ¬ s.Wordless ty) := by
    intro indent ty before hbefore
    rw [← List.any_eq_true]
    exact (prints_front_nestedTo hdefault s.program.types.size indent ty).of_ok hbefore
  refine ⟨haccounts.mem_types_iff, hwords, fun hnamed indent ty before hbefore => ?_⟩
  refine (hwords indent ty before hbefore).mpr fun hwordless => ?_
  obtain ⟨o, htypes, hname⟩ := hwordless.exists_unmodelled
  exact hnamed o htypes hname

/-- A structure without a name inside the class of the member it is the type of, and another
one beside the class, for a variable. -/
def unnamedRecords : List UInt8 :=
  [0, 0, 0, 18, 0, 0x11, 0, 0x12, 0, 0, 0, 158, 0, 0x38, 0x61, 0x2e, 0x63, 0,
   0, 0, 0, 16, 0, 0x13, 0, 0x12, 0, 0, 0, 96, 0, 0x38, 0x43, 0,
   0, 0, 0, 12, 0, 0x13, 0, 0x12, 0, 0, 0, 70,
   0, 0, 0, 20, 0, 0x0d, 0, 0x12, 0, 0, 0, 66, 0, 0x38, 0x78, 0, 0, 0x55, 0, 7,
   0, 0, 0, 4,
   0, 0, 0, 22, 0, 0x0d, 0, 0x12, 0, 0, 0, 92, 0, 0x38, 0x6d, 0, 0, 0x72, 0, 0, 0, 34,
   0, 0, 0, 4,
   0, 0, 0, 12, 0, 0x13, 0, 0x12, 0, 0, 0, 132,
   0, 0, 0, 20, 0, 0x0d, 0, 0x12, 0, 0, 0, 128, 0, 0x38, 0x79, 0, 0, 0x55, 0, 7,
   0, 0, 0, 4,
   0, 0, 0, 22, 0, 7, 0, 0x12, 0, 0, 0, 154, 0, 0x38, 0x76, 0, 0, 0x72, 0, 0, 0, 96,
   0, 0, 0, 4]

/-- The source of a program, without remarks. -/
def bareSource (p : Program) : Source where
  program := p
  settings := { SourceSettings.default with remarks := .none }
  disassembly := none

/-- Whether there is a word before a name declared with the type at an offset. -/
def hasWord? (p : Program) (offset : UInt32) : Option Bool :=
  ((bareSource p).front (bareSource p).writtenOut 1 (.user offset)).toOption.map fun before =>
    before.tokens.any Token.isTypeWord

theorem exists_front_of_hasWord? {p : Program} {offset : UInt32} {found : Bool}
    (h : hasWord? p offset = some found) : ∃ before,
      (bareSource p).front (bareSource p).writtenOut 1 (.user offset) = .ok before ∧
        ((∃ t ∈ before.tokens, t.isTypeWord = true) ↔ found = true) := by
  obtain ⟨before, hbefore, hany⟩ := Option.map_eq_some_iff.mp h
  refine ⟨before, ?_, by rw [← List.any_eq_true, hany]⟩
  cases hfront : (bareSource p).front (bareSource p).writtenOut 1 (.user offset) with
  | error e =>
      rw [hfront] at hbefore
      cases hbefore
  | ok front =>
      rw [hfront] at hbefore
      cases hbefore
      rfl

/-- The structure in the class has no word, and the one beside it has. -/
theorem worded_unnamedRecords : ∃ d p shown,
    DebugInfo.decode .big unnamedRecords none = .ok d ∧
      Program.build d .default = .ok (p, shown) ∧
      (bareSource p).Wordless (.user 34) ∧ ¬ (bareSource p).Wordless (.user 96) := by
  obtain ⟨d, p, shown, hd, hp, hview⟩ := Program.exists_of_outcome (show
    Program.outcome .big unnamedRecords (fun p => (hasWord? p 34, hasWord? p 96)) =
      some (some false, some true) by
    decide +kernel)
  obtain ⟨hinside, hbeside⟩ := Prod.mk.inj hview
  obtain ⟨inside, hinside, hnone⟩ := exists_front_of_hasWord? hinside
  obtain ⟨beside, hbeside, hsome⟩ := exists_front_of_hasWord? hbeside
  obtain ⟨-, hwords, -⟩ := worded_iff_of_build (s := bareSource p) hd hp rfl
  refine ⟨d, p, shown, hd, hp, ?_, (hwords 1 _ beside hbeside).mp (hsome.mpr rfl)⟩
  by_contra hworded
  exact Bool.false_ne_true (hnone.mp ((hwords 1 _ inside hinside).mpr hworded))

/-- The member of the class is printed without a type. -/
theorem wordless_member : ∃ d p shown before,
    DebugInfo.decode .big unnamedRecords none = .ok d ∧
      Program.build d .default = .ok (p, shown) ∧
      ((bareSource p).render (.entry 18)).toOption.map Code.plain =
        some "struct C\n\x7b\n     m;\n\x7d;" ∧
      (bareSource p).front (bareSource p).writtenOut 1 (.user 34) = .ok before ∧
      ¬ ∃ t ∈ before.tokens, t.isTypeWord = true := by
  obtain ⟨d, p, shown, hd, hp, hview⟩ := Program.exists_of_outcome (show
    Program.outcome .big unnamedRecords (fun p =>
        (((bareSource p).render (.entry 18)).toOption.map Code.plain, hasWord? p 34)) =
      some (some "struct C\n\x7b\n     m;\n\x7d;", some false) by
    decide +kernel)
  obtain ⟨htext, hinside⟩ := Prod.mk.inj hview
  obtain ⟨before, hbefore, hnone⟩ := exists_front_of_hasWord? hinside
  exact ⟨d, p, shown, before, hd, hp, htext, hbefore, fun hword =>
    Bool.false_ne_true (hnone.mp hword)⟩

end Source

end DwarfOne
