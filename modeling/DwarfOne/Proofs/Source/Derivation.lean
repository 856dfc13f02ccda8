/-
# `Proofs.Source.Derivation` — a declaration says what the type is

The declaration of a name with a type, read as C reads it, says what the type is made of
(`reading_declaration`).  C has no pointers to members, so there must be none.

Blanks are there to be read too.  A qualifier is one only with a blank behind it, and the word
at which a type ends must not be taken for one (`Specifies.dropQualifiers_eq`).
-/
import DwarfOne.Proofs.Source.Spelling

namespace DwarfOne

open Token

namespace Source

/-! ## What may be missing -/

section Missing

variable {s : Source} {O : UInt32 → Prop} {o : UInt32} {t : UserType}

/-- One of these records is neither a type nor anything else. -/
def Unknown (s : Source) (O : UInt32 → Prop) (e : RenderError) : Prop :=
  ∃ o, e = .dangling (.toType o) ∧ O o ∧ ¬ s.program.Knows o

theorem unknown_of_nameOf_eq_error {e : RenderError} (h : s.nameOf o = .error e) :
    e = .dangling (.toType o) ∧ ¬ s.program.Knows o := by
  have hknows : ¬ s.program.Knows o := fun hknows => named_of_knows hknows e h
  refine ⟨?_, hknows⟩
  simp only [Program.Knows, not_or, Bool.not_eq_true, Option.isSome_eq_false_iff,
    Option.isNone_iff_eq_none] at hknows
  have htype : s.program.types[o]? = none := Std.TreeMap.getElem?_eq_none hknows.1
  rw [nameOf, Program.typeName, htype, hknows.2] at h
  cases h
  rfl

theorem named_unknown (h : O o) : Named (s.Unknown O) s o := by
  intro e he
  obtain ⟨rfl, hunknown⟩ := unknown_of_nameOf_eq_error he
  exact ⟨o, rfl, h, hunknown⟩

theorem NamesAllowed.mono {E E' : RenderError → Prop} (h : NamesAllowed E s t)
    (hE : ∀ e, E e → E' e) : NamesAllowed E' s t where
  uses ty hty o hbase e he := hE e (h.uses ty hty o hbase e he)
  owners o ho e he := hE e (h.owners o ho e he)

/-- In a type made of fundamental types nothing is written out. -/
theorem acc_of_fundamental (h : ∀ ty ∈ s.uses t, ∃ id, ty.base = .fundamental id) :
    Acc (fun u t => s.Inlines t u) t := by
  refine ⟨_, fun u hinlines => ?_⟩
  obtain ⟨ty, huse, o, hbase, -⟩ := hinlines
  obtain ⟨id, hid⟩ := h ty huse
  cases hid.symm.trans hbase

end Missing

/-! ## What is reached from a type -/

/-- The first type is written out, and the second stands in it. -/
def Contains (s : Source) (ty ty' : TypeRef) : Prop :=
  ∃ o t, ty.base = .user o ∧ s.inlined? o = .ok (some t) ∧ ty' ∈ s.uses t

/-- Writing the first type out leads to the second. -/
abbrev Reaches (s : Source) : TypeRef → TypeRef → Prop :=
  Relation.ReflTransGen s.Contains

/-- The type is written out somewhere on the way. -/
def Writes (s : Source) (root : TypeRef) (t : UserType) : Prop :=
  ∃ ty o, s.Reaches root ty ∧ ty.base = .user o ∧ s.inlined? o = .ok (some t)

/-- The record is called by its name somewhere on the way. -/
def Mentions (s : Source) (root : TypeRef) (o : UInt32) : Prop :=
  (∃ ty, s.Reaches root ty ∧ ty.base = .user o) ∨ ∃ t, s.Writes root t ∧ o ∈ s.owners t

/-- There is a C declarator for the type.  That for a pointer to a member is not one
of C, and a record must be called something if it cannot be written out. -/
structure Declarable (s : Source) (root : TypeRef) : Prop where
  memberPointer : ∀ p, ¬ s.Writes root (.ofMemberPointer p)
  named : ∀ ty o, s.Reaches root ty → ty.base = .user o → s.nameOf o = .ok "" →
    o ∈ s.program.types

/-- A record that is mentioned is neither a type nor anything else. -/
abbrev Missing (s : Source) (root : TypeRef) : RenderError → Prop :=
  s.Unknown (s.Mentions root)

section Reached

variable {s : Source} {root ty : TypeRef} {o : UInt32} {t : UserType}

theorem Reaches.uses (h : s.Reaches root ty) (hbase : ty.base = .user o)
    (hfound : s.inlined? o = .ok (some t)) : ∀ ty' ∈ s.uses t, s.Reaches root ty' :=
  fun _ huse => h.tail ⟨o, t, hbase, hfound, huse⟩

theorem Finite.uses (h : s.Finite ty) (hbase : ty.base = .user o)
    (hfound : s.inlined? o = .ok (some t)) : ∀ ty' ∈ s.uses t, s.Finite ty' :=
  fun ty' huse o' _ hbase' hfound' => (h o t hbase hfound).inv ⟨ty', huse, o', hbase', hfound'⟩

theorem allowing_writes : Allowing (s.Missing root) s (s.Writes root) where
  names := by
    intro t ht
    obtain ⟨ty, o, hreach, hbase, hfound⟩ := id ht
    refine ⟨fun ty' huse o' hbase' => ?_, fun o' howner => ?_⟩
    · exact named_unknown (.inl ⟨ty', hreach.uses hbase hfound ty' huse, hbase'⟩)
    · exact named_unknown (.inr ⟨t, ht, howner⟩)
  closed := by
    rintro t u ⟨ty, o, hreach, hbase, hfound⟩ ⟨ty', huse, o', hbase', hfound'⟩
    exact ⟨ty', o', hreach.uses hbase hfound ty' huse, hbase', hfound'⟩

/-- What stands in a type that is written out can be printed. -/
theorem fits_of_reaches (hreach : s.Reaches root ty) (hfinite : s.Finite ty) :
    Fits (s.Missing root) s s.writtenOut s.writtenOut ty :=
  fits_writtenOut allowing_writes (fun _ hbase => named_unknown (.inl ⟨ty, hreach, hbase⟩))
    (fun o _ hbase hfound => ⟨ty, o, hreach, hbase, hfound⟩) hfinite

end Reached

end Source

/-! ## Specifiers with blanks behind them -/

section Parts

variable {ts ts' specifier : List Token}

/-- What a type ends at: one word, or something in braces. -/
inductive Specifies : List Token → Prop
  | word {t : Token} (ht : t.kind = .keyword ∨ t.kind = .identifier) : Specifies [t]
  | body {first : Token} {rest : List Token} (hkind : first.kind ≠ .identifier)
      (hfirst : first.isQualifier = false) : Specifies (first :: rest)

theorem Specifies.ne_nil (h : Specifies specifier) : specifier ≠ [] := by
  cases h <;> exact List.cons_ne_nil _ _

theorem Source.BeginsBody.specifies {first : Token} (h : BeginsBody first) :
    first.text ≠ "" ∧ first.kind ≠ .identifier ∧ first.isQualifier = false := by
  cases h with
  | remark text => simp [Token.remark, isQualifier, ofKeyword]
  | ofClass kind => cases kind <;> decide
  | ofEnum => decide

theorem Source.Bodied.specifies (h : Bodied true ts) : Specifies (pushed ts) := by
  obtain ⟨head, items, rfl, ⟨first, hfirst, hbegins⟩, -⟩ := h
  obtain ⟨rest, rfl⟩ := List.head?_eq_some_iff.mp hfirst
  obtain ⟨htext, hkind, hqualifier⟩ := hbegins.specifies
  rw [List.append_assoc, List.append_assoc, List.cons_append, pushed_cons htext]
  exact .body hkind hqualifier

/-- The specifier is not taken for a qualifier, unless what follows is a blank and no name. -/
theorem Specifies.dropQualifiers_eq (h : Specifies specifier) {t' : Token}
    (hbracket : t' ≠ ofPunctuation "[") (hspace : t' = space → beginsWithName ts = true) :
    dropQualifiers (specifier ++ t' :: ts) = specifier ++ t' :: ts ∧
      beginsWithName (specifier ++ t' :: ts) = false := by
  cases h with
  | word ht =>
      constructor
      · rw [List.singleton_append, dropQualifiers, if_neg]
        intro hcond
        simp only [Bool.and_eq_true, decide_eq_true_eq, Bool.not_eq_true'] at hcond
        rw [hspace hcond.1.2] at hcond
        exact absurd hcond.2 (by decide)
      · simp [beginsWithName, hbracket]
  | @body first rest hkind hfirst =>
      have hdrop : ∀ ts, dropQualifiers (first :: ts) = first :: ts := by
        intro ts
        cases ts with
        | nil => rfl
        | cons t ts => simp [dropQualifiers, hfirst]
      have hbegins : ∀ ts, beginsWithName (first :: ts) = false := by
        intro ts
        cases ts with
        | nil => simp [beginsWithName, hkind]
        | cons t ts => simp [beginsWithName, hkind]
      exact ⟨hdrop _, hbegins _⟩

theorem Qualifies.drop (h : Qualifies ts) (hts' : dropQualifiers ts' = ts')
    (hname : beginsWithName ts' = false) : dropQualifiers (ts ++ ts') = ts' := by
  induction h with
  | nil => exact hts'
  | @cons t ts ht hts ih =>
      have hbegins : beginsWithName (ts ++ ts') = false := by
        cases hts with
        | nil => exact hname
        | @cons t ts ht hts =>
            have hkind : t.kind ≠ .identifier := by
              intro hkind
              rcases isQualifier_iff.mp ht with rfl | rfl <;> cases hkind
            simp [beginsWithName, hkind]
      rw [List.cons_append, List.cons_append, dropQualifiers, if_pos, ih]
      simp [ht, hbegins]

/-- A declarator does not begin with dimensions.  If it begins with a blank it is a
name with dimensions at most. -/
theorem Around.exists_cons {front back : List Token} {tight : Bool} {arrays rest : List Layer}
    (h : Around front tight back arrays rest)
    (hmembers : ∀ l ∈ arrays ++ rest, l.isMember = false) (name : String) :
    ∃ t ts, front ++ (if tight then [] else [space]) ++ nameTokens none name ++ back = t :: ts ∧
      t ≠ ofPunctuation "[" ∧ (t = space → beginsWithName ts = true) := by
  rcases h.begins hmembers with ⟨rfl, rfl, hback⟩ | ⟨t, ht, hspace, hbracket⟩
  · refine ⟨space, ofIdentifier name :: back, rfl, by decide, fun _ => ?_⟩
    cases back with
    | nil => rfl
    | cons t back => simp [beginsWithName, hback t rfl, ofIdentifier]
  · obtain ⟨others, rfl⟩ := List.head?_eq_some_iff.mp ht
    exact ⟨t, _, rfl, hbracket, fun hspace' => absurd hspace' hspace⟩

end Parts

namespace Source

/-! ## What a declaration says -/

section Declaring

variable {s : Source} {root ty : TypeRef} {indent : Nat} {name : String}

/-- A record that is called by its name has one. -/
theorem Declarable.name_ne {o : UInt32} (h : s.Declarable root) (hreach : s.Reaches root ty)
    (hbase : ty.base = .user o) (hfound : s.inlined? o = .ok none) (hname : s.nameOf o = .ok name) :
    name ≠ "" := by
  rintro rfl
  -- a type without a name would have been written out
  obtain ⟨name, hok, hnone⟩ := exists_nameOf_of_inlined? hfound
  cases hname.symm.trans hok
  obtain ⟨t, ht⟩ := exists_getElem?_of_mem (h.named ty o hreach hbase hname)
  rw [ht, if_pos (by simp [canInline])] at hnone
  cases hnone

/-- On the way through a type there is always a specifier, and no pointer to a member. -/
theorem Describes.specifies {layers : List Layer} {specifier : List Token}
    (h : s.Describes pushed indent ty layers specifier)
    (hnames : ∀ id, s.settings.fundamentals.name id ≠ "") (hdeclarable : s.Declarable root)
    (hreach : s.Reaches root ty) (hfinite : s.Finite ty) :
    Specifies specifier ∧ ∀ l ∈ layers, l.isMember = false := by
  induction h with
  | @fundamental ty id hbase =>
      rw [pushed_cons (hnames id)]
      exact ⟨.word (.inl rfl), fun l hl => Layer.isMember_of_mem_ofModifiers hl⟩
  | @named ty o name hbase hfound hname =>
      rw [pushed_cons (hdeclarable.name_ne hreach hbase hfound hname)]
      exact ⟨.word (.inr rfl), fun l hl => Layer.isMember_of_mem_ofModifiers hl⟩
  | @ofClass ty o c body hbase hfound hbody =>
      have howners := (allowing_writes.names _ ⟨ty, o, hreach, hbase, hfound⟩).owners
      have hbodied := (agree_classType (fun ty' huse => fits_of_reaches
        (Reaches.uses hreach hbase hfound ty' huse) (hfinite.uses hbase hfound ty' huse))
        howners true).of_ok hbody
      exact ⟨hbodied.specifies, fun l hl => Layer.isMember_of_mem_ofModifiers hl⟩
  | @ofEnum ty o e hbase hfound =>
      exact ⟨(bodied_enumeration s indent e true).specifies,
        fun l hl => Layer.isMember_of_mem_ofModifiers hl⟩
  | @ofArray ty o a layers specifier hbase hfound _ ih =>
      obtain ⟨hspecifier, hlayers⟩ := ih
        (Reaches.uses hreach hbase hfound _ List.mem_cons_self)
        (hfinite.uses hbase hfound _ List.mem_cons_self)
      refine ⟨hspecifier, List.forall_mem_append.mpr ⟨List.forall_mem_append.mpr ⟨?_, ?_⟩, hlayers⟩⟩
      · exact fun l hl => Layer.isMember_of_mem_ofModifiers hl
      · exact fun l hl => Layer.isMember_of_mem_dimensions hl
  | @ofRoutine ty o r parameters layers specifier hbase hfound _ _ ih =>
      obtain ⟨hspecifier, hlayers⟩ := ih
        (Reaches.uses hreach hbase hfound _ List.mem_cons_self)
        (hfinite.uses hbase hfound _ List.mem_cons_self)
      refine ⟨hspecifier, List.forall_mem_append.mpr ⟨List.forall_mem_append.mpr ⟨?_, ?_⟩, hlayers⟩⟩
      · exact fun l hl => Layer.isMember_of_mem_ofModifiers hl
      · exact List.forall_mem_singleton.mpr rfl
  | @ofMemberPointer ty o p owner layers specifier hbase hfound =>
      exact absurd ⟨ty, o, hreach, hbase, hfound⟩ (hdeclarable.memberPointer p)

theorem pushed_named (hname : name ≠ "") (tight : Bool) :
    pushed (Source.named tight name) = (if tight then [] else [space]) ++ nameTokens none name := by
  cases tight <;> simp [Source.named, nameTokens, hname]

/-- A name in its place is read with everything the type is made of. -/
theorem Spelt.reading {front : Front} {back : List Token}
    (h : s.Spelt pushed indent ty front back) (hname : name ≠ "")
    (hnames : ∀ id, s.settings.fundamentals.name id ≠ "") (hdeclarable : s.Declarable ty)
    (hfinite : s.Finite ty) :
    ∃ layers specifier, s.Describes pushed indent ty layers specifier ∧
      Reading.ofTokens? (pushed (front.tokens ++ Source.named front.tight name ++ back)) =
        some { scope := none, name, layers, specifier } := by
  obtain ⟨layers, specifier, hdescribes, hspells⟩ := h
  obtain ⟨hspecifier, hmembers⟩ := hdescribes.specifies hnames hdeclarable .refl hfinite
  refine ⟨layers, specifier, hdescribes, ?_⟩
  obtain ⟨lead, marks, hfront, hlead, hmarks⟩ := hspells.around
  obtain ⟨arrays, rest, haround, -, hlayers⟩ := hmarks fun hmem => by cases hmembers _ hmem
  obtain rfl := hlayers (spellable_of_forall_not_isMember hmembers)
  obtain ⟨t, ts, hcons, hbracket, hspace⟩ := haround.exists_cons hmembers name
  obtain ⟨hdrop, hbegins⟩ := hspecifier.dropQualifiers_eq hbracket hspace
  have htokens : pushed (front.tokens ++ Source.named front.tight name ++ back) =
      lead ++ (specifier ++ t :: ts) := by
    rw [pushed_append, pushed_append, hfront, pushed_named hname, ← hcons]
    simp only [List.append_assoc]
  have hblank : Prefixes (if front.tight then [] else [space]) [] := by
    cases front.tight with
    | true => exact prefixes_nil
    | false => exact prefixes_quiet (.inl rfl)
  refine haround.ofTokens?_eq (hspells.heads hspecifier.ne_nil) hblank suffixes_nil none name ?_
  rw [htokens, hlead.drop hdrop hbegins, ← hcons, List.append_nil]

end Declaring

/-- A declaration is read as one of its name with what the type is made of, unless a
record that is mentioned is missing. -/
theorem reading_declaration {s : Source} {ty : TypeRef} {name : String} (hname : name ≠ "")
    (hnames : ∀ id, s.settings.fundamentals.name id ≠ "") (hfinite : s.Finite ty)
    (hdeclarable : s.Declarable ty) (indent : Nat) :
    (∃ o, s.declaration s.writtenOut indent ty name = .error (.dangling (.toType o)) ∧
        s.Mentions ty o ∧ ¬ s.program.Knows o) ∨
      ∃ tokens reading, s.declaration s.writtenOut indent ty name = .ok tokens ∧
        Code.ofTokens (pushed tokens) = Code.ofTokens tokens ∧
        Reading.ofTokens? (pushed tokens) = some reading ∧
        reading.scope = none ∧ reading.name = name ∧
        ∀ layers specifier, s.Describes pushed indent ty layers specifier ↔
          layers = reading.layers ∧ specifier = reading.specifier := by
  have hspelling : s.Spelling (s.Missing ty) pushed ty :=
    spelling_of_finite isView_pushed allowing_writes
      (fun o hbase => named_unknown (.inl ⟨ty, .refl, hbase⟩))
      (fun o t hbase hfound => ⟨ty, o, .refl, hbase, hfound⟩) hfinite
  have hagree : Agree (s.Missing ty) (fun tokens => ∃ layers specifier,
        s.Describes pushed indent ty layers specifier ∧
          Reading.ofTokens? (pushed tokens) = some { scope := none, name, layers, specifier })
      (s.declaration s.writtenOut indent ty name) (s.declaration s.writtenOut indent ty name) :=
    (hspelling indent).bind fun front hback => hback.bind fun back hspelt =>
      .pure (hspelt.reading hname hnames hdeclarable hfinite)
  cases hdeclaration : s.declaration s.writtenOut indent ty name with
  | error e =>
      rw [hdeclaration] at hagree
      obtain ⟨o, rfl, hmissing⟩ := hagree.2
      exact .inl ⟨o, rfl, hmissing⟩
  | ok tokens =>
      rw [hdeclaration] at hagree
      obtain ⟨layers, specifier, hdescribes, hreading⟩ := hagree.2
      exact .inr ⟨tokens, _, rfl, ofTokens_pushed tokens, hreading, rfl, rfl, hdescribes.iff_eq⟩

/-- A function without a name that takes a number and more, and gives what is at
offset 3. -/
def handler : UserType :=
  .ofRoutine
    { offset := 2, name := "", returnType := .user 3, variadic := true
      parameters := [{ offset := 4, name := "n", type := .fundamental 7, location := none }] }

def toHandler : TypeRef :=
  { TypeRef.user 2 with modifiers := [⟨.pointer, true, false⟩] }

/-- Pointers to such functions, without a name too. -/
def handlerTable : UserType :=
  .ofArray { offset := 1, name := "", element := toHandler, dimensions := [some 3, none] }

def handlerStatus : UserType :=
  .ofEnum { offset := 3, name := "", byteSize := none, enumerators := [⟨"idle", 0⟩] }

/-- Everything is written out in `enum {...} (* const(*table)[3][])(int n, ...)`. -/
def dispatch : Source where
  program :=
    { Program.empty (DebugInfo.assemble .big [] []) with
      types := (((∅ : Std.TreeMap UInt32 UserType).insert 1 handlerTable).insert 2 handler).insert 3
        handlerStatus }
  settings := .default
  disassembly := none

theorem reaches_dispatch {ty : TypeRef} (h : dispatch.Reaches toFirst ty) :
    ty = toFirst ∨ ty = toHandler ∨ ty = .user 3 ∨ ty = .fundamental 7 := by
  have htable : dispatch.inlined? 1 = .ok (some handlerTable) := rfl
  have hhandler : dispatch.inlined? 2 = .ok (some handler) := rfl
  have hstatus : dispatch.inlined? 3 = .ok (some handlerStatus) := rfl
  induction h with
  | refl => exact .inl rfl
  | @tail _ ty' _ hstep ih =>
      obtain ⟨o, t, hbase, hfound, huse⟩ := hstep
      rcases ih with rfl | rfl | rfl | rfl
      · cases hbase
        cases htable.symm.trans hfound
        exact .inr (.inl (List.mem_singleton.mp huse))
      · cases hbase
        cases hhandler.symm.trans hfound
        have hmem : ty' ∈ [TypeRef.user 3, .fundamental 7] := huse
        exact .inr (.inr (by simpa using hmem))
      · cases hbase
        cases hstatus.symm.trans hfound
        cases huse
      · cases hbase

theorem finite_dispatch : dispatch.Finite toFirst := by
  have hstatus : Acc (fun u t => dispatch.Inlines t u) handlerStatus := by
    refine ⟨_, fun u hu => ?_⟩
    obtain ⟨ty, huse, -⟩ := hu
    cases huse
  have hhandler : Acc (fun u t => dispatch.Inlines t u) handler := by
    refine ⟨_, fun u hu => ?_⟩
    obtain ⟨ty, huse, o, hbase, hfound⟩ := hu
    have hmem : ty ∈ [TypeRef.user 3, .fundamental 7] := huse
    rcases List.mem_pair.mp hmem with rfl | rfl
    · cases hbase
      cases hfound
      exact hstatus
    · cases hbase
  have htable : Acc (fun u t => dispatch.Inlines t u) handlerTable := by
    refine ⟨_, fun u hu => ?_⟩
    obtain ⟨ty, huse, o, hbase, hfound⟩ := hu
    obtain rfl := List.mem_singleton.mp huse
    cases hbase
    cases hfound
    exact hhandler
  intro o t hbase hfound
  cases hbase
  cases hfound
  exact htable

theorem declarable_dispatch : dispatch.Declarable toFirst := by
  constructor
  · rintro p ⟨ty, o, hreach, hbase, hfound⟩
    rcases reaches_dispatch hreach with rfl | rfl | rfl | rfl <;> cases hbase <;> cases hfound
  · intro ty o hreach hbase _
    rcases reaches_dispatch hreach with rfl | rfl | rfl | rfl <;> cases hbase <;> rfl

theorem fundamentals_default_ne (id : UInt16) : FundamentalNames.default.name id ≠ "" := by
  unfold FundamentalNames.name
  cases hname : FundamentalNames.default.entries.lookup id with
  | none => simp
  | some name =>
      obtain ⟨before, behind, hentries, -⟩ := List.lookup_eq_some_iff.mp hname
      have hall : ∀ entry ∈ FundamentalNames.default.entries, entry.2 ≠ "" := by decide
      exact hall (id, name) (by rw [hentries]; simp)

theorem reading_declaration_dispatch :
    "table" ≠ "" ∧ (∀ id, dispatch.settings.fundamentals.name id ≠ "") ∧ dispatch.Finite toFirst ∧
      dispatch.Declarable toFirst ∧
      ((∃ o, dispatch.declaration dispatch.writtenOut 0 toFirst "table" =
            .error (.dangling (.toType o)) ∧
          dispatch.Mentions toFirst o ∧ ¬ dispatch.program.Knows o) ∨
        ∃ tokens reading, dispatch.declaration dispatch.writtenOut 0 toFirst "table" = .ok tokens ∧
          Code.ofTokens (pushed tokens) = Code.ofTokens tokens ∧
          Reading.ofTokens? (pushed tokens) = some reading ∧
          reading.scope = none ∧ reading.name = "table" ∧
          ∀ layers specifier, dispatch.Describes pushed 0 toFirst layers specifier ↔
            layers = reading.layers ∧ specifier = reading.specifier) :=
  ⟨by decide, fundamentals_default_ne, finite_dispatch, declarable_dispatch,
    reading_declaration (by decide) fundamentals_default_ne finite_dispatch declarable_dispatch 0⟩

example :
    ((dispatch.declaration dispatch.writtenOut 0 toFirst "table").toOption.bind fun tokens =>
        Reading.ofTokens? (pushed tokens)).map Reading.layers =
      some [.pointer, .array [ofLiteral "3"], .array [], .pointer,
        .function [ofKeyword "int", space, ofIdentifier "n", ofPunctuation ", ",
          ofPunctuation "..."]] := by
  decide +kernel

end Source

end DwarfOne
