/-
# `Proofs.Source.MemberPointers` — pointers to members

A pointer to a member of a class is declared as `int C::*p`, or as `void (C::*p)()` if the
member is a function.  An array would need parentheses too, and does not get them:
`int C::*p[4]` is what is printed for a pointer to a member of type `int[4]`, and it
declares an array of pointers to members.

So arrays with which the type of the member begins are read before the pointer, and it is
read in its place only if there are none (`reading_memberPointer`).
-/
import DwarfOne.Proofs.Source.Derivation

namespace DwarfOne

open Token

namespace Source

variable {s : Source} {p : MemberPointerType}

/-- How a name is read that is declared as a pointer to a member, with modifiers.
Everything has to be called something. -/
structure MemberRead (s : Source) (p : MemberPointerType) (indent : Nat) (ms : List Modifier)
    (name : String) (tokens : List Token) (owner : String) (layers : List Layer)
    (specifier : List Token) : Prop where
  nameOf_owner : s.nameOf p.owner = .ok owner
  /-- What the type of the member is. -/
  describes : ∀ layers' specifier', s.Describes lexemes indent p.type layers' specifier' ↔
    layers' = layers ∧ specifier' = specifier
  /-- Where the same name with the type of the member is read with some layers, the
  pointer is read behind the arrays that come first of them. -/
  reads : specifier ≠ [] → .member "" ∉ .member owner :: layers →
    ∃ declared reading target, s.declaration s.writtenOut indent p.type name = .ok declared ∧
      Reading.ofTokens? (lexemes declared) = some target ∧
      target.layers.Perm layers ∧ (target.layers = layers ↔ Spellable layers) ∧
      Reading.ofTokens? (lexemes tokens) = some reading ∧
      reading.scope = none ∧ reading.name = name ∧ reading.specifier = specifier ∧
      reading.layers = target.layers.takeWhile Layer.isArray ++
        (Layer.ofModifiers ms ++ .member owner ::
          target.layers.dropWhile Layer.isArray) ∧
      (reading.layers = Layer.ofModifiers ms ++ .member owner :: layers ↔
        Spellable (.member owner :: layers))

/-- The records that a pointer to a member mentions. -/
def MemberPart (s : Source) (p : MemberPointerType) (o : UInt32) : Prop :=
  o = p.owner ∨ s.Mentions p.type o

/-- Printing a pointer to a member: it is read, or a record is missing. -/
def PrintsMember (s : Source) (p : MemberPointerType) (indent : Nat) (ms : List Modifier)
    (name : String) (printed : Except RenderError (List Token)) : Prop :=
  (∃ o, printed = .error (.dangling (.toType o)) ∧ s.MemberPart p o ∧ ¬ s.program.Knows o) ∨
    ∃ tokens owner layers specifier, printed = .ok tokens ∧
      s.MemberRead p indent ms name tokens owner layers specifier

/-- The pointer itself and what is written out in the type of the member. -/
def MemberWrites (s : Source) (p : MemberPointerType) (t : UserType) : Prop :=
  t = .ofMemberPointer p ∨ s.Writes p.type t

theorem allowing_memberWrites :
    Allowing (s.Unknown (s.MemberPart p)) s (s.MemberWrites p) where
  names := by
    rintro t (rfl | ht)
    · refine ⟨fun ty huse o hbase => ?_, fun o howner => ?_⟩
      · obtain rfl := List.mem_singleton.mp huse
        exact named_unknown (.inr (.inl ⟨_, .refl, hbase⟩))
      · exact named_unknown (.inl (List.mem_singleton.mp howner))
    · refine (allowing_writes.names t ht).mono ?_
      rintro e ⟨o, rfl, hmentions, hunknown⟩
      exact ⟨o, rfl, .inr hmentions, hunknown⟩
  closed := by
    rintro t u (rfl | ht) hinlines
    · obtain ⟨ty, huse, o, hbase, hfound⟩ := hinlines
      obtain rfl := List.mem_singleton.mp huse
      exact .inr ⟨_, o, .refl, hbase, hfound⟩
    · exact .inr (allowing_writes.closed t u ht hinlines)

theorem spelling_target (hfinite : s.Finite p.type) :
    s.Spelling (s.Unknown (s.MemberPart p)) lexemes p.type := by
  refine spelling_of_finite isView_lexemes allowing_memberWrites (fun o hbase => ?_)
    (fun o t hbase hfound => ?_) hfinite
  · exact named_unknown (.inr (.inl ⟨_, .refl, hbase⟩))
  · exact .inr ⟨_, o, .refl, hbase, hfound⟩

theorem acc_memberPointer (hfinite : s.Finite p.type) :
    Acc (fun u t => s.Inlines t u) (.ofMemberPointer p) := by
  refine ⟨_, fun u hinlines => ?_⟩
  obtain ⟨ty, huse, o, hbase, hfound⟩ := hinlines
  obtain rfl := List.mem_singleton.mp huse
  exact hfinite o u hbase hfound

theorem lexemes_named (tight : Bool) {name : String} (hname : name ≠ "") :
    lexemes (named tight name) = [ofIdentifier name] := by
  unfold named
  rw [if_neg (by simpa [String.isEmpty_iff] using hname)]
  cases tight with
  | true => exact lexemes_ofIdentifier hname
  | false =>
      show lexemes (space :: [ofIdentifier name]) = _
      rw [lexemes_space]
      exact lexemes_ofIdentifier hname

/-- What stands before the name of a pointer to a member. -/
theorem lexemes_memberPointer (target : Front) (owner : String) (ms : List Modifier) :
    lexemes (target.tokens ++ (if target.tight then [] else [space]) ++
        [ofIdentifier owner, ofPunctuation "::*"] ++ modifiers ms) =
      lexemes target.tokens ++ lexemes [ofIdentifier owner, ofPunctuation "::*"] ++
        lexemes (modifiers ms) := by
  have hspace : lexemes (if target.tight then [] else [space]) = [] := by
    cases target.tight <;> rfl
  rw [lexemes_append, lexemes_append, lexemes_append, hspace, List.append_nil]

/-- With the type of the member spelled around the name, the pointer is read. -/
theorem memberRead_of_spelt {indent : Nat} {target : Front} {back tokens : List Token}
    {name owner : String} {ms : List Modifier} (hname : name ≠ "")
    (hfront : s.front s.writtenOut indent p.type = .ok target)
    (hback : s.back s.writtenOut indent p.type = .ok back)
    (hspelt : s.Spelt lexemes indent p.type target back) (howner : s.nameOf p.owner = .ok owner)
    (htokens : lexemes tokens = lexemes target.tokens ++
      lexemes [ofIdentifier owner, ofPunctuation "::*"] ++ lexemes (modifiers ms) ++
        [ofIdentifier name] ++ lexemes back) :
    ∃ layers specifier, s.MemberRead p indent ms name tokens owner layers specifier := by
  obtain ⟨layers, specifier, hdescribes, hspells⟩ := hspelt
  refine ⟨layers, specifier, howner, hdescribes.iff_eq, fun hspecifier hnamed => ?_⟩
  rw [List.mem_cons, not_or] at hnamed
  have hlexemes : lexemes [ofIdentifier owner, ofPunctuation "::*"] =
      [ofIdentifier owner, ofPunctuation "::*"] :=
    lexemes_ofIdentifier fun hempty => hnamed.1 (by rw [hempty])
  have hheads := hspells.heads hspecifier
  obtain ⟨marks, hmarks, hspelled⟩ := hspells.around_lexemes
  obtain ⟨arrays, rest, haround, hperm, hlayers⟩ := hspelled hnamed.2
  -- the name with the type of the member
  have hdeclared : s.declaration s.writtenOut indent p.type name =
      .ok (target.tokens ++ named target.tight name ++ back) := by
    rw [declaration, hfront, hback]
    rfl
  have hdeclaredTokens :
      dropQualifiers (lexemes (target.tokens ++ named target.tight name ++ back)) =
        specifier ++ (marks ++ [] ++ nameTokens none name ++ [] ++ lexemes back) := by
    rw [dropQualifiers_of_notMem space_notMem_lexemes, lexemes_append, lexemes_append, hmarks,
      lexemes_named _ hname]
    simp [nameTokens]
  have htarget := haround.ofTokens?_eq hheads prefixes_nil suffixes_nil none name hdeclaredTokens
  -- the name with the pointer
  have hpointer :=
    haround.member prefixes_nil (isView_lexemes.prefixes_modifiers ms) owner
  have hpointerTokens : dropQualifiers (lexemes tokens) =
      specifier ++ (marks ++ [] ++ [ofIdentifier owner, ofPunctuation "::*"] ++
        lexemes (modifiers ms) ++ [] ++ nameTokens none name ++ [] ++ lexemes back) := by
    rw [dropQualifiers_of_notMem space_notMem_lexemes, htokens, hmarks, hlexemes]
    simp [nameTokens]
  have hreading := hpointer.ofTokens?_eq hheads prefixes_nil suffixes_nil none name hpointerTokens
  obtain ⟨htake, hdrop⟩ := haround.takeWhile_append
  refine ⟨_, _, _, hdeclared, htarget, hperm, ⟨?_, hlayers⟩, hreading, rfl, rfl, rfl, ?_, ?_,
    haround.member_eq owner ms hlayers⟩
  · intro heq
    rw [← heq]
    exact haround.spellable_all
  · simp only [List.nil_append, htake, hdrop]
  · intro heq
    have hmodifiers : ∀ l ∈ Layer.ofModifiers ms, l.isMember = false :=
      fun l hl => Layer.isMember_of_mem_ofModifiers hl
    rw [← spellable_append hmodifiers, ← heq]
    exact hpointer.spellable_all

/-- Whatever comes first that is not read. -/
theorem agree_memberPointer (hfinite : s.Finite p.type) (indent : Nat) (ms : List Modifier)
    {name : String} (hname : name ≠ "") {lead : List Token} (hlead : lexemes lead = []) :
    Agree (s.Unknown (s.MemberPart p))
      (fun before => Agree (s.Unknown (s.MemberPart p))
        (fun back => ∃ owner layers specifier, s.MemberRead p indent ms name
          (lead ++ before ++ [ofIdentifier name] ++ back) owner layers specifier)
        (s.back s.writtenOut indent p.type) (s.back s.writtenOut indent p.type))
      (s.memberPointerFront s.writtenOut indent p ms)
      (s.memberPointerFront s.writtenOut indent p ms) := by
  have howner : Named (s.Unknown (s.MemberPart p)) s p.owner := named_unknown (.inl rfl)
  refine (spelling_target hfinite indent).and_eq_ok.bind fun target htarget => ?_
  refine howner.agree.bind fun owner hok => .pure ?_
  refine htarget.1.and_eq_ok.mono fun back hback => ⟨owner, ?_⟩
  refine memberRead_of_spelt hname htarget.2 hback.2 hback.1 hok ?_
  rw [lexemes_append, lexemes_append, lexemes_append, hlead, List.nil_append,
    lexemes_memberPointer, lexemes_ofIdentifier hname]
  rfl

theorem PrintsMember.of_agree {indent : Nat} {ms : List Modifier} {name : String}
    {printed : Except RenderError (List Token)}
    (h : Agree (s.Unknown (s.MemberPart p))
      (fun tokens => ∃ owner layers specifier,
        s.MemberRead p indent ms name tokens owner layers specifier) printed printed) :
    s.PrintsMember p indent ms name printed := by
  cases printed with
  | error e =>
      obtain ⟨o, rfl, hpart, hunknown⟩ := h.2
      exact .inl ⟨o, rfl, hpart, hunknown⟩
  | ok tokens =>
      obtain ⟨owner, layers, specifier, hread⟩ := h.2
      exact .inr ⟨tokens, owner, layers, specifier, rfl, hread⟩

/-- Where the pointer is written out. -/
theorem printsMember_declaration (hfinite : s.Finite p.type) {ty : TypeRef} {o : UInt32}
    (hbase : ty.base = .user o) (hfound : s.inlined? o = .ok (some (.ofMemberPointer p)))
    {name : String} (hname : name ≠ "") (indent : Nat) :
    s.PrintsMember p indent ty.modifiers name (s.declaration s.writtenOut indent ty name) := by
  have hlead : lexemes (baseQualifiers ty) = [] :=
    (isView_lexemes.qualifiers ty).eq_nil space_notMem_lexemes
  have hpointer := agree_memberPointer hfinite indent ty.modifiers hname hlead
  obtain ⟨hfront, hback⟩ := writtenOut_eq allowing_memberWrites (mem_modelled_of_inlined? hfound)
    (.inl rfl) (acc_memberPointer hfinite) indent ty.modifiers
  have hnamed : named true name = [ofIdentifier name] := by
    rw [named, if_neg (by simpa [String.isEmpty_iff] using hname), if_pos rfl]
  refine .of_agree ?_
  rw [declaration, front_inlined hbase hfound, back_inlined hbase hfound, hfront, hback]
  simp only [writtenFront, writtenBack, bind_assoc, pure_bind, hnamed]
  exact hpointer.bind fun before hback => hback.bind fun back hread => .pure hread

/-- Where the pointer has a name of its own. -/
theorem printsMember_typedef (hfinite : s.Finite p.type) (hname : p.name ≠ "") :
    ∃ printed, s.memberPointerTypedef s.writtenOut p =
        printed.map (· ++ [ofPunctuation ";"]) ∧ s.PrintsMember p 0 [] p.name printed := by
  have hlead : lexemes (leadingRemark 0 (s.offsetRemark p.offset) ++
      [ofKeyword "typedef", space]) = [] := by
    unfold leadingRemark
    split <;> rfl
  have hpointer := agree_memberPointer hfinite 0 [] hname hlead
  refine ⟨_, ?_, .of_agree (hpointer.bind fun before hback => hback.bind fun back hread =>
    .pure hread)⟩
  cases hfront : s.memberPointerFront s.writtenOut 0 p [] with
  | error e => rw [memberPointerTypedef, hfront]; rfl
  | ok before =>
      cases hback : s.back s.writtenOut 0 p.type with
      | error e => rw [memberPointerTypedef, hfront, hback]; rfl
      | ok back => rw [memberPointerTypedef, hfront, hback]; rfl

/-- A pointer to a member is read as one, written out or in a typedef, but behind the arrays
with which the type of the member begins. -/
theorem reading_memberPointer (s : Source) (p : MemberPointerType) (hfinite : s.Finite p.type) :
    (∀ (ty : TypeRef) (o : UInt32) (name : String) (indent : Nat), ty.base = .user o →
        s.inlined? o = .ok (some (.ofMemberPointer p)) → name ≠ "" →
        s.PrintsMember p indent ty.modifiers name (s.declaration s.writtenOut indent ty name)) ∧
      (p.name ≠ "" → ∃ printed, s.memberPointerTypedef s.writtenOut p =
        printed.map (· ++ [ofPunctuation ";"]) ∧ s.PrintsMember p 0 [] p.name printed) :=
  ⟨fun _ _ _ indent hbase hfound hname =>
      printsMember_declaration hfinite hbase hfound hname indent,
    printsMember_typedef hfinite⟩

/-- A pointer to member functions of the class at offset 1. -/
def methodPointer : MemberPointerType :=
  { offset := 2, name := "@method", type := .user 3, owner := 1 }

def method : RoutineType :=
  { offset := 3, name := "", returnType := .fundamental 7, variadic := false
    parameters := [{ offset := 6, name := "n", type := .fundamental 7, location := none }] }

def row : ArrayType :=
  { offset := 5, name := "", element := .fundamental 7, dimensions := [some 4] }

/-- A pointer to members of type `int[4]`. -/
def rowPointer : MemberPointerType :=
  { offset := 4, name := "@row", type := .user 5, owner := 1 }

def toRow : TypeRef :=
  { TypeRef.user 4 with modifiers := [⟨.pointer, false, true⟩] }

/-- Both pointers are written out, and so is what they lead to. -/
def memberSamples : Source where
  program :=
    { Program.empty (DebugInfo.assemble .big [] []) with
      types := (((((∅ : Std.TreeMap UInt32 UserType).insert 1 (plainStruct 1 "C" [])).insert 2
        (.ofMemberPointer methodPointer)).insert 3 (.ofRoutine method)).insert 4
          (.ofMemberPointer rowPointer)).insert 5 (.ofArray row) }
  settings := .default
  disassembly := none

theorem finite_memberSamples :
    memberSamples.Finite methodPointer.type ∧ memberSamples.Finite rowPointer.type := by
  constructor
  · intro o t hbase hfound
    cases hbase
    cases hfound
    refine acc_of_fundamental fun ty huse => ⟨7, ?_⟩
    have hmem : ty ∈ [TypeRef.fundamental 7, .fundamental 7] := huse
    rcases List.mem_pair.mp hmem with rfl | rfl <;> rfl
  · intro o t hbase hfound
    cases hbase
    cases hfound
    refine acc_of_fundamental fun ty huse => ⟨7, ?_⟩
    rw [List.mem_singleton.mp huse]
    rfl

theorem reading_methodPointer :
    memberSamples.Finite methodPointer.type ∧ methodPointer.name ≠ "" ∧
      memberSamples.inlined? 2 = .ok (some (.ofMemberPointer methodPointer)) ∧
      memberSamples.PrintsMember methodPointer 0 toHandler.modifiers "call"
        (memberSamples.declaration memberSamples.writtenOut 0 toHandler "call") ∧
      (∃ tokens, memberSamples.declaration memberSamples.writtenOut 0 toHandler "call" =
          .ok tokens ∧
        Reading.ofTokens? (lexemes tokens) =
          some { scope := none, name := "call"
                 layers := [.pointer, .member "C", .function [ofKeyword "int", ofIdentifier "n"]]
                 specifier := [ofKeyword "int"] }) ∧
      ∃ printed, memberSamples.memberPointerTypedef memberSamples.writtenOut methodPointer =
          printed.map (· ++ [ofPunctuation ";"]) ∧
        memberSamples.PrintsMember methodPointer 0 [] "@method" printed := by
  have hname : methodPointer.name ≠ "" := by decide
  have hfound : memberSamples.inlined? 2 = .ok (some (.ofMemberPointer methodPointer)) := rfl
  obtain ⟨hdeclaration, htypedef⟩ :=
    reading_memberPointer memberSamples methodPointer finite_memberSamples.1
  exact ⟨finite_memberSamples.1, hname, hfound,
    hdeclaration toHandler 2 "call" 0 rfl hfound (by decide), ⟨_, rfl, by decide +kernel⟩,
    htypedef hname⟩

/-- A pointer to a pointer to a member of type `int[4]` is read as four pointers to
pointers to members, and the typedef as four pointers to members. -/
theorem rowPointer_misread :
    memberSamples.Finite rowPointer.type ∧
      memberSamples.Describes lexemes 0 rowPointer.type [.array [ofLiteral "4"]] [ofKeyword "int"] ∧
      (∃ tokens, memberSamples.declaration memberSamples.writtenOut 0 toRow "v" = .ok tokens ∧
        Reading.ofTokens? (lexemes tokens) =
          some { scope := none, name := "v"
                 layers := [.array [ofLiteral "4"], .pointer, .member "C"]
                 specifier := [ofKeyword "int"] }) ∧
      ∃ tokens, memberSamples.memberPointerTypedef memberSamples.writtenOut rowPointer =
          .ok (tokens ++ [ofPunctuation ";"]) ∧
        Reading.ofTokens? (lexemes tokens) =
          some { scope := none, name := "@row", layers := [.array [ofLiteral "4"], .member "C"]
                 specifier := [ofKeyword "int"] } := by
  refine ⟨finite_memberSamples.2, ?_, ⟨_, rfl, by decide +kernel⟩, ?_⟩
  · have hspecifier : lexemes [ofKeyword (memberSamples.settings.fundamentals.name 7)] =
        [ofKeyword "int"] := by decide +kernel
    have helement : memberSamples.Describes lexemes 0 (.fundamental 7) [] [ofKeyword "int"] :=
      hspecifier ▸ Describes.fundamental rfl
    have hfound : memberSamples.inlined? 5 = .ok (some (.ofArray row)) := rfl
    have hlayers : row.dimensions.map Layer.ofDimension = [.array [ofLiteral "4"]] := by
      decide +kernel
    have hrow : memberSamples.Describes lexemes 0 rowPointer.type _ _ :=
      .ofArray rfl hfound helement
    rw [hlayers] at hrow
    exact hrow
  · refine ⟨[remark "DWARF: 0x4", lineBreak, ofKeyword "typedef", space, ofKeyword "int", space,
      ofIdentifier "C", ofPunctuation "::*", ofIdentifier "@row", ofPunctuation "[",
      ofLiteral "4", ofPunctuation "]"], by rfl, by decide +kernel⟩

end Source

end DwarfOne
