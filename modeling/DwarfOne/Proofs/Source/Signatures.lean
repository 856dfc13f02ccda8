/-
# `Proofs.Source.Signatures` — functions and what they give

What a function gives is printed before its name, all of it: `int* f()` for a pointer,
but also `void (*)() f()` for a pointer to a function, where the name and the parameters
belong inside the parentheses, as in `void (*f())()`.

So a signature is read as the function it is of if nothing of the type that is given would
stand behind a name, and otherwise it is not read at all (`reading_signature`).
-/
import DwarfOne.Proofs.Source.Delimiters

namespace DwarfOne

open Token

/-- Where the errors are known, others are not needed. -/
theorem Agree.of_error {α : Type} {E E' : RenderError → Prop} {Q : α → Prop}
    {x : Except RenderError α} (h : Agree E Q x x) (hE : ∀ e, x = .error e → E' e) :
    Agree E' Q x x := by
  cases x with
  | ok a => exact ⟨rfl, h.2⟩
  | error e => exact ⟨rfl, hE e rfl⟩

theorem Token.lexemes_ite_of_nil {c : Prop} [Decidable c] {ts : List Token}
    (h : lexemes ts = []) : lexemes (if c then ts else []) = [] := by
  split
  · exact h
  · rfl

section Rules

variable {front back ts specifier tokens : List Token} {tight : Bool} {layers : List Layer}

/-- Where nothing stands behind a name there are only marks in front of it. -/
theorem Spells.isMark_of_nil (h : Spells front tight [] layers specifier)
    (hnamed : .member "" ∉ layers) : ∀ l ∈ layers, l.isMark = true := by
  obtain ⟨lead, marks, -, -, hmarks⟩ := h.around
  obtain ⟨arrays, rest, haround, hperm, -⟩ := hmarks hnamed
  intro l hl
  rcases haround.ends with ⟨-, hall⟩ | ⟨t, ht, -⟩
  · exact hall l (hperm.mem_iff.mpr hl)
  · cases ht

/-- A function whose name stands behind all of a type. -/
theorem Spells.ofTokens?_function (h : Spells (lexemes front) tight back layers specifier)
    (hspecifier : specifier ≠ []) (hnamed : .member "" ∉ layers) (hts : Balanced ts)
    (scope : Option String) (name : String)
    (htokens : lexemes tokens = lexemes front ++ back ++ nameTokens scope name ++
      ([ofPunctuation "("] ++ ts ++ [ofPunctuation ")"])) :
    ((∃ l ∈ layers, l.isMark = false) → back ≠ []) ∧
      Reading.ofTokens? (lexemes tokens) =
        if back = [] then some { scope, name, layers := .function ts :: layers, specifier }
        else none := by
  have hgroup := suffixes_function hts
  obtain ⟨marks, hfront, hmarks⟩ := h.around_lexemes
  obtain ⟨arrays, rest, haround, -, hlayers⟩ := hmarks hnamed
  constructor
  · rintro ⟨l, hl, hmark⟩ rfl
    cases (h.isMark_of_nil hnamed l hl).symm.trans hmark
  split
  case isTrue hnil =>
      subst hnil
      rw [← hlayers (spellable_of_forall_isMark (h.isMark_of_nil hnamed))]
      refine haround.ofTokens?_eq (h.heads hspecifier) prefixes_nil hgroup scope name ?_
      rw [dropQualifiers_of_notMem space_notMem_lexemes, htokens, hfront]
      simp only [List.append_assoc, List.append_nil]
  case isFalse hsome =>
      refine haround.ofTokens?_eq_none (h.heads hspecifier) hsome
        ((passes_nameTokens scope name []).append (hgroup.passes [])) ?_
      rw [dropQualifiers_of_notMem space_notMem_lexemes, htokens, hfront]
      simp only [List.append_assoc]

end Rules

namespace Source

variable {s : Source} {f : Function}

/-- How the signature of a function is read.  Everything has to be called something. -/
structure SignatureRead (s : Source) (f : Function) (indent : Nat) (isDefinition insideClass : Bool)
    (tokens : List Token) (owner : Option String) (parameters behind : List Token)
    (layers : List Layer) (specifier : List Token) : Prop where
  nameOf_owner : f.owner.mapM s.nameOf = .ok owner
  parameters_eq : s.parameters s.writtenOut indent isDefinition f.signature =
    .ok ([ofPunctuation "("] ++ parameters ++ [ofPunctuation ")"])
  /-- What would stand behind a name of the type that is given. -/
  back_eq : s.back s.writtenOut indent f.signature.returnType = .ok behind
  /-- What that type is. -/
  describes : ∀ layers' specifier',
    s.Describes lexemes indent f.signature.returnType layers' specifier' ↔
      layers' = layers ∧ specifier' = specifier
  /-- Arrays and functions stand behind a name, and then nothing is read. -/
  reads : specifier ≠ [] → .member "" ∉ layers →
    (insideClass = false → ∀ name ∈ owner, name ≠ "") → SpecialName.display f.name owner ≠ "" →
    ((∃ l ∈ layers, l.isMark = false) → lexemes behind ≠ []) ∧
      Reading.ofTokens? (lexemes tokens) =
        if lexemes behind = [] then
          some { scope := if insideClass then none else owner
                 name := SpecialName.display f.name owner
                 layers := .function (lexemes parameters) :: layers
                 specifier }
        else none

/-- The records that stand before the parameters. -/
def SignaturePart (s : Source) (f : Function) (o : UInt32) : Prop :=
  f.owner = some o ∨ s.Mentions f.signature.returnType o

/-- Printing a signature: it is read or not as above, or a record is missing, or the
parameters cannot be printed. -/
def PrintsSignature (s : Source) (f : Function) (indent : Nat) (isDefinition insideClass : Bool)
    (printed : Except RenderError (List Token)) : Prop :=
  (∃ o, printed = .error (.dangling (.toType o)) ∧ s.SignaturePart f o ∧ ¬ s.program.Knows o) ∨
    (∃ e, printed = .error e ∧
      s.parameters s.writtenOut indent isDefinition f.signature = .error e) ∨
    ∃ tokens owner parameters behind layers specifier, printed = .ok tokens ∧
      s.SignatureRead f indent isDefinition insideClass tokens owner parameters behind layers
        specifier

/-- With the type that is given printed before the name. -/
theorem signatureRead_of_spelt {indent : Nat} {isDefinition insideClass : Bool}
    {returned : Front} {tokens parameters behind : List Token} {owner : Option String}
    (hback : s.back s.writtenOut indent f.signature.returnType = .ok behind)
    (hspelt : s.Spelt lexemes indent f.signature.returnType returned behind)
    (howner : f.owner.mapM s.nameOf = .ok owner)
    (hparameters : s.parameters s.writtenOut indent isDefinition f.signature =
      .ok ([ofPunctuation "("] ++ parameters ++ [ofPunctuation ")"]))
    (hbalanced : Balanced parameters)
    (htokens : (insideClass = false → ∀ name ∈ owner, name ≠ "") →
      SpecialName.display f.name owner ≠ "" →
      lexemes tokens = lexemes returned.tokens ++ lexemes behind ++
        nameTokens (if insideClass then none else owner) (SpecialName.display f.name owner) ++
        ([ofPunctuation "("] ++ lexemes parameters ++ [ofPunctuation ")"])) :
    ∃ layers specifier, s.SignatureRead f indent isDefinition insideClass tokens owner parameters
      behind layers specifier := by
  obtain ⟨layers, specifier, hdescribes, hspells⟩ := hspelt
  refine ⟨layers, specifier, howner, hparameters, hback, hdescribes.iff_eq, ?_⟩
  intro hspecifier hnamed howned hname
  exact hspells.ofTokens?_function hspecifier hnamed (isView_lexemes.balanced hbalanced) _ _
    (htokens howned hname)

section Printing

variable {indent : Nat} {isDefinition : Bool}

/-- A record is missing, or the parameters cannot be printed. -/
def SignatureError (s : Source) (f : Function) (indent : Nat) (isDefinition : Bool)
    (e : RenderError) : Prop :=
  s.Unknown (s.SignaturePart f) e ∨
    s.parameters s.writtenOut indent isDefinition f.signature = .error e

theorem spelling_returnType (hfinite : s.Finite f.signature.returnType) :
    s.Spelling (s.SignatureError f indent isDefinition) lexemes f.signature.returnType := by
  have hallowing : Allowing (s.SignatureError f indent isDefinition) s
      (s.Writes f.signature.returnType) := by
    refine ⟨fun t ht => (allowing_writes.names t ht).mono ?_, allowing_writes.closed⟩
    rintro e ⟨o, rfl, hmentions, hunknown⟩
    exact .inl ⟨o, rfl, .inr hmentions, hunknown⟩
  refine spelling_of_finite isView_lexemes hallowing (fun o hbase e he => ?_)
    (fun o t hbase hfound => ?_) hfinite
  · exact .inl (named_unknown (.inr (.inl ⟨_, .refl, hbase⟩)) e he)
  · exact ⟨_, o, .refl, hbase, hfound⟩

theorem agree_groupedParameters :
    Agree (s.SignatureError f indent isDefinition) Grouped
      (s.parameters s.writtenOut indent isDefinition f.signature)
      (s.parameters s.writtenOut indent isDefinition f.signature) :=
  (agree_parameters (fun p _ => s.fits_writtenOut_anyError p.type) isDefinition).of_error
    fun _ he => .inr he

theorem agree_returned (hshown : showsReturnType f = true)
    (hfinite : s.Finite f.signature.returnType) :
    Agree (s.SignatureError f indent isDefinition)
      (fun ts => ∃ front back, ts = front.tokens ++ back ++ [space] ∧
        s.back s.writtenOut indent f.signature.returnType = .ok back ∧
        s.Spelt lexemes indent f.signature.returnType front back)
      (s.returnPart s.writtenOut indent f) (s.returnPart s.writtenOut indent f) := by
  rw [returnPart, if_pos hshown, typeName]
  simp only [bind_assoc, pure_bind]
  refine (spelling_returnType hfinite indent).bind fun front hback => ?_
  refine hback.and_eq_ok.bind fun back hspelt => .pure ?_
  exact ⟨front, back, rfl, hspelt.2, hspelt.1⟩

theorem agree_signatureRead (hshown : showsReturnType f = true)
    (hfinite : s.Finite f.signature.returnType) (indent : Nat) (isDefinition insideClass : Bool) :
    Agree (s.SignatureError f indent isDefinition)
      (fun tokens => ∃ owner parameters behind layers specifier,
        s.SignatureRead f indent isDefinition insideClass tokens owner parameters behind layers
          specifier)
      (s.signature s.writtenOut indent f isDefinition insideClass)
      (s.signature s.writtenOut indent f isDefinition insideClass) := by
  refine (agree_returned hshown hfinite).bind fun returned hreturned => ?_
  have hnames : ∀ o ∈ f.owner, Named (s.SignatureError f indent isDefinition) s o :=
    fun o ho e he => .inl (named_unknown (.inl ho) e he)
  refine (agree_owner hnames).and_eq_ok.bind fun owner howner => ?_
  refine agree_groupedParameters.and_eq_ok.bind fun parameters hparameters => .pure ?_
  obtain ⟨front, back, rfl, hback, hspelt⟩ := hreturned
  obtain ⟨⟨inner, rfl, hbalanced⟩, hok⟩ := hparameters
  refine ⟨owner, inner, back, signatureRead_of_spelt hback hspelt howner.2 hok hbalanced ?_⟩
  intro howned hname
  have hstatic : lexemes
      (if isStatic f insideClass then [ofKeyword "static", space] else []) = [] :=
    lexemes_ite_of_nil rfl
  have hinline : lexemes (if f.isInline then [ofKeyword "inline", space] else []) = [] :=
    lexemes_ite_of_nil rfl
  have hspace : lexemes [space] = [] := by decide
  rw [lexemes_append, lexemes_append, isView_lexemes.view_parameters]
  simp only [lexemes_append, hstatic, hinline, hspace, List.nil_append, List.append_nil]
  have hdisplay : lexemes [ofIdentifier (SpecialName.display f.name owner)] =
      [ofIdentifier (SpecialName.display f.name owner)] := lexemes_ofIdentifier hname
  rw [hdisplay, List.append_assoc _ _ [ofIdentifier _], List.append_assoc _ _ (lexemes _)]
  refine congrArg₂ (· ++ ·) (congrArg (lexemes front.tokens ++ lexemes back ++ ·) ?_) ?_
  · cases owner with
    | none => cases insideClass <;> rfl
    | some scope =>
        cases insideClass with
        | true => rfl
        | false =>
            have hscope : lexemes [ofIdentifier scope, ofPunctuation "::"] =
                [ofIdentifier scope, ofPunctuation "::"] :=
              lexemes_ofIdentifier (howned rfl scope rfl)
            exact congrArg (· ++ _) hscope
  · cases f.this? with
    | none => exact List.append_nil _
    | some this =>
        have hconst : lexemes (if this.type.isConst then [space, ofKeyword "const"] else []) = [] :=
          lexemes_ite_of_nil rfl
        exact (congrArg (_ ++ ·) hconst).trans (List.append_nil _)

end Printing

/-- A function is read as one that gives the type it gives, if nothing of that type stands
behind a name, and if something does the signature is not one of C++. -/
theorem reading_signature (s : Source) (f : Function) (hshown : showsReturnType f = true)
    (hfinite : s.Finite f.signature.returnType) (indent : Nat) (isDefinition insideClass : Bool) :
    s.PrintsSignature f indent isDefinition insideClass
      (s.signature s.writtenOut indent f isDefinition insideClass) := by
  have hagree := agree_signatureRead hshown hfinite indent isDefinition insideClass
  cases hprinted : s.signature s.writtenOut indent f isDefinition insideClass with
  | error e =>
      rw [hprinted] at hagree
      rcases hagree.2 with ⟨o, rfl, hpart, hunknown⟩ | hparameters
      · exact .inl ⟨o, rfl, hpart, hunknown⟩
      · exact .inr (.inl ⟨e, rfl, hparameters⟩)
  | ok tokens =>
      rw [hprinted] at hagree
      obtain ⟨owner, parameters, behind, layers, specifier, hread⟩ := hagree.2
      exact .inr (.inr ⟨tokens, owner, parameters, behind, layers, specifier, rfl, hread⟩)

/-- A member function of the class at offset 1 that takes a number and gives a pointer to
one. -/
def lookUp : Function where
  signature :=
    { offset := 3, name := "lookUp", variadic := false
      returnType := { TypeRef.fundamental 7 with modifiers := [⟨.pointer, true, false⟩] }
      parameters :=
        [{ offset := 4, name := "this", location := none
           type := { toFirst with isConst := true } },
          { offset := 5, name := "n", type := .fundamental 7, location := some (.register 4) }] }
  isGlobal := true
  isInline := false
  low := 0x10
  high := 0x18
  owner := some 1
  access := .publicly
  mangled := none
  locals := []
  lines := []

/-- A type of functions without a name. -/
def notice : RoutineType :=
  { offset := 2, name := "", returnType := .fundamental 0x14, variadic := false, parameters := [] }

/-- A function that gives a pointer to such a function. -/
def install : Function :=
  { lookUp with
    signature := { offset := 6, name := "install", returnType := toHandler, variadic := false
                   parameters := [] }
    owner := none }

def callbacks : Source where
  program :=
    { Program.empty (DebugInfo.assemble .big [] []) with
      types := ((∅ : Std.TreeMap UInt32 UserType).insert 1 (plainStruct 1 "Table" [])).insert 2
        (.ofRoutine notice) }
  settings := .default
  disassembly := none

theorem reading_signature_lookUp :
    showsReturnType lookUp = true ∧ callbacks.Finite lookUp.signature.returnType ∧
      callbacks.PrintsSignature lookUp 0 true false
        (callbacks.signature callbacks.writtenOut 0 lookUp true false) ∧
      ∃ tokens, callbacks.signature callbacks.writtenOut 0 lookUp true false = .ok tokens ∧
        Reading.ofTokens? (lexemes tokens) =
          some { scope := some "Table", name := "lookUp"
                 layers := [.function [ofKeyword "int", ofIdentifier "n"], .pointer]
                 specifier := [ofKeyword "int"] } := by
  have hshown : showsReturnType lookUp = true := by decide
  have hfinite : callbacks.Finite lookUp.signature.returnType := by
    intro o t hbase
    cases hbase
  exact ⟨hshown, hfinite, reading_signature callbacks lookUp hshown hfinite 0 true false, _, rfl,
    by decide +kernel⟩

/-- What is printed for a function that gives a pointer to a function is no declaration. -/
theorem install_unreadable :
    showsReturnType install = true ∧ callbacks.Finite install.signature.returnType ∧
      callbacks.Describes lexemes 0 install.signature.returnType [.pointer, .function []]
        [ofKeyword "void"] ∧
      ∃ tokens, callbacks.signature callbacks.writtenOut 0 install true false = .ok tokens ∧
        Reading.ofTokens? (lexemes tokens) = none := by
  refine ⟨by decide, ?_, ?_, _, rfl, by decide +kernel⟩
  · intro o t hbase hfound
    cases hbase
    cases hfound
    refine acc_of_fundamental fun ty huse => ⟨0x14, ?_⟩
    rw [List.mem_singleton.mp huse]
    rfl
  · have hspecifier : lexemes [ofKeyword (callbacks.settings.fundamentals.name 0x14)] =
        [ofKeyword "void"] := by decide +kernel
    have hreturn : callbacks.Describes lexemes 0 (.fundamental 0x14) [] [ofKeyword "void"] :=
      hspecifier ▸ Describes.fundamental rfl
    have hfound : callbacks.inlined? 2 = .ok (some (.ofRoutine notice)) := rfl
    have hparameters : callbacks.parameters callbacks.writtenOut 0 false notice =
        .ok ([ofPunctuation "("] ++ [] ++ [ofPunctuation ")"]) := rfl
    exact .ofRoutine rfl hfound hparameters hreturn

end Source

end DwarfOne
