/-
# `Proofs.Source.Balance` — what is printed is balanced

The front of a type may leave parentheses open, and its back closes as many.  That
is so for a type that is written out if it is so for the types it is made of
(`fits_written`), and then everything that is printed with these types has all its
brackets in pairs.

Each lemma is about two ways of writing types out, which is how it will be seen that
the depth does not matter.
-/
import DwarfOne.Proofs.Source.Brackets

namespace DwarfOne

/-! ## What is printed of a type -/

/-- The parameters that are shown. -/
def RoutineType.shown (r : RoutineType) : List Local :=
  r.parameters.filter (·.name ≠ "this")

/-- The types that stand in the signature of a function. -/
def Function.signatureRefs (f : Function) : List TypeRef :=
  (if Source.showsReturnType f then [f.signature.returnType] else []) ++
    f.signature.shown.map Local.type

namespace Source

open Token

/-- The member functions that are shown in a class. -/
def methods (s : Source) (c : ClassType) : List Function :=
  c.functions.filterMap (s.program.functions[·]?)

/-- The types that stand in a type when it is written out. -/
def uses (s : Source) : UserType → List TypeRef
  | .ofClass c => c.bases.map Base.type ++ c.typedefs.map Typedef.type ++
      c.members.map Member.type ++ (s.methods c).flatMap Function.signatureRefs
  | .ofEnum _ => []
  | .ofArray a => [a.element]
  | .ofRoutine r => r.returnType :: r.shown.map Local.type
  | .ofMemberPointer p => [p.type]

/-- The classes whose names stand in a type when it is written out, other than in the
types above. -/
def owners (s : Source) : UserType → List UInt32
  | .ofClass c => (s.methods c).filterMap Function.owner
  | .ofMemberPointer p => [p.owner]
  | _ => []

/-! ## Fronts and backs -/

section Equations

variable {s : Source} {nested : Nested} {indent : Nat} {ty : TypeRef} {o : UInt32}

theorem exists_nameOf_of_inlined? {found : Option UserType} (h : s.inlined? o = .ok found) :
    ∃ name, s.nameOf o = .ok name ∧
      found = if s.canInline name then s.program.types[o]? else none := by
  unfold inlined? at h
  cases hname : s.nameOf o with
  | error e =>
      rw [hname] at h
      cases h
  | ok name =>
      rw [hname] at h
      cases h
      exact ⟨name, rfl, rfl⟩

theorem nameOf_of_inlined?_eq_error {e : RenderError} (h : s.inlined? o = .error e) :
    s.nameOf o = .error e := by
  unfold inlined? at h
  cases hname : s.nameOf o with
  | error e' =>
      rw [hname] at h
      cases h
      rfl
  | ok name =>
      rw [hname] at h
      cases h

theorem front_fundamental {id : UInt16} (hbase : ty.base = .fundamental id) :
    s.front nested indent ty = .ok
      { tokens := baseQualifiers ty ++ [ofKeyword (s.settings.fundamentals.name id)] ++
          modifiers ty.modifiers
        tight := false } := by
  rw [front, hbase]
  rfl

theorem back_fundamental {id : UInt16} (hbase : ty.base = .fundamental id) :
    s.back nested indent ty = .ok [] := by
  rw [back, hbase]
  rfl

theorem front_named {name : String} (hbase : ty.base = .user o) (hfound : s.inlined? o = .ok none)
    (hname : s.nameOf o = .ok name) :
    s.front nested indent ty = .ok
      { tokens := baseQualifiers ty ++ [ofIdentifier name] ++ modifiers ty.modifiers
        tight := false } := by
  simp only [front, hbase, hfound, hname]
  rfl

theorem back_named (hbase : ty.base = .user o) (hfound : s.inlined? o = .ok none) :
    s.back nested indent ty = .ok [] := by
  simp only [back, hbase, hfound]
  rfl

theorem front_inlined {t : UserType} (hbase : ty.base = .user o)
    (hfound : s.inlined? o = .ok (some t)) :
    s.front nested indent ty = do
      let written ← nested.front indent t ty.modifiers
      return { written with tokens := baseQualifiers ty ++ written.tokens } := by
  simp only [front, hbase, hfound]
  rfl

theorem back_inlined {t : UserType} (hbase : ty.base = .user o)
    (hfound : s.inlined? o = .ok (some t)) :
    s.back nested indent ty = nested.back indent t ty.modifiers := by
  simp only [back, hbase, hfound]
  rfl

theorem front_error {e : RenderError} (hbase : ty.base = .user o)
    (hfound : s.inlined? o = .error e) : s.front nested indent ty = .error e := by
  simp only [front, hbase, hfound]
  rfl

theorem back_error {e : RenderError} (hbase : ty.base = .user o)
    (hfound : s.inlined? o = .error e) : s.back nested indent ty = .error e := by
  simp only [back, hbase, hfound]
  rfl

end Equations

section Tokens

variable {stack : List Bracket}

@[simp] theorem after_qualifiers (isConst isVolatile : Bool) :
    after stack (qualifiers isConst isVolatile) = some stack := by
  cases isConst <;> cases isVolatile <;> rfl

@[simp] theorem after_baseQualifiers (ty : TypeRef) :
    after stack (baseQualifiers ty) = some stack := by
  simp [baseQualifiers]

@[simp] theorem after_modifierMark (kind : ModifierKind) (ts : List Token) :
    after stack (modifierMark kind :: ts) = after stack ts := by
  cases kind <;> rfl

@[simp] theorem after_modifiers (ms : List Modifier) : after stack (modifiers ms) = some stack := by
  induction ms with
  | nil => rfl
  | cons m rest ih => simp [modifiers, ih]

@[simp] theorem after_dimensions (a : ArrayType) : after stack (dimensions a) = some stack := by
  refine balanced_flatMap (fun dimension _ stack => ?_) stack
  cases dimension with
  | none => rfl
  | some n => rfl

@[simp] theorem after_named (tight : Bool) (name : String) :
    after stack (named tight name) = some stack := by
  simp [named]

end Tokens

section Fits

variable (E : RenderError → Prop) (s : Source) (nested nested' : Nested)

/-- Where the name of a record cannot be had, the error is allowed. -/
def Named (o : UInt32) : Prop :=
  ∀ e, s.nameOf o = .error e → E e

/-- The front leaves as many parentheses open as the back closes. -/
structure Matched (n : Nat) (front front' : Except RenderError Front)
    (back back' : Except RenderError (List Token)) : Prop where
  front : Agree E (fun f => Opens n f.tokens) front front'
  back : Agree E (Closes n) back back'

/-- The type, whether its name is shown or it is written out. -/
def Fits (ty : TypeRef) : Prop :=
  ∃ n, ∀ indent, Matched E n (s.front nested indent ty) (s.front nested' indent ty)
    (s.back nested indent ty) (s.back nested' indent ty)

/-- The type as it is written out. -/
def FitsWritten (t : UserType) : Prop :=
  ∀ ms, ∃ n, ∀ indent, Matched E n (nested.front indent t ms) (nested'.front indent t ms)
    (nested.back indent t ms) (nested'.back indent t ms)

variable {E s nested nested'}

theorem Named.agree {o : UInt32} (h : Named E s o) :
    Agree E (fun name => s.nameOf o = .ok name) (s.nameOf o) (s.nameOf o) := by
  refine ⟨rfl, ?_⟩
  cases hname : s.nameOf o with
  | ok name => rfl
  | error e => exact h e hname

theorem fits_of_base {ty : TypeRef} (hname : ∀ o, ty.base = .user o → Named E s o)
    (hwritten : ∀ o t, ty.base = .user o → s.inlined? o = .ok (some t) →
      FitsWritten E nested nested' t) :
    Fits E s nested nested' ty := by
  cases hbase : ty.base with
  | fundamental id =>
      refine ⟨0, fun indent => ⟨?_, ?_⟩⟩
      · rw [front_fundamental hbase, front_fundamental hbase]
        exact .pure fun _ => by simp
      · rw [back_fundamental hbase, back_fundamental hbase]
        exact .pure fun _ => rfl
  | user o =>
      cases hfound : s.inlined? o with
      | error e =>
          have he : E e := hname o hbase e (nameOf_of_inlined?_eq_error hfound)
          refine ⟨0, fun indent => ⟨?_, ?_⟩⟩
          · rw [front_error hbase hfound, front_error hbase hfound]
            exact ⟨rfl, he⟩
          · rw [back_error hbase hfound, back_error hbase hfound]
            exact ⟨rfl, he⟩
      | ok found =>
          cases found with
          | none =>
              obtain ⟨name, hok, -⟩ := exists_nameOf_of_inlined? hfound
              refine ⟨0, fun indent => ⟨?_, ?_⟩⟩
              · rw [front_named hbase hfound hok, front_named hbase hfound hok]
                exact .pure fun _ => by simp
              · rw [back_named hbase hfound, back_named hbase hfound]
                exact .pure fun _ => rfl
          | some t =>
              obtain ⟨n, hn⟩ := hwritten o t hbase hfound ty.modifiers
              refine ⟨n, fun indent => ⟨?_, ?_⟩⟩
              · rw [front_inlined hbase hfound, front_inlined hbase hfound]
                exact (hn indent).front.bind fun written hw => .pure fun _ => by simp [hw]
              · rw [back_inlined hbase hfound, back_inlined hbase hfound]
                exact (hn indent).back

variable {indent : Nat} {ty : TypeRef}

theorem Fits.declaration (h : Fits E s nested nested' ty) (name : String) :
    Agree E Balanced (s.declaration nested indent ty name)
      (s.declaration nested' indent ty name) := by
  obtain ⟨n, hn⟩ := h
  refine (hn indent).front.bind fun before hbefore => ?_
  refine (hn indent).back.bind fun after hafter => .pure fun stack => ?_
  simp [hbefore, hafter]

theorem Fits.typeName (h : Fits E s nested nested' ty) :
    Agree E Balanced (s.typeName nested indent ty) (s.typeName nested' indent ty) := by
  obtain ⟨n, hn⟩ := h
  refine (hn indent).front.bind fun before hbefore => ?_
  refine (hn indent).back.bind fun after hafter => .pure fun stack => ?_
  simp [hbefore, hafter]

/-! ## Signatures -/

/-- Balanced tokens in parentheses. -/
def Grouped (ts : List Token) : Prop :=
  ∃ inner, ts = [ofPunctuation "("] ++ inner ++ [ofPunctuation ")"] ∧ Balanced inner

theorem Grouped.balanced {ts : List Token} (h : Grouped ts) : Balanced ts := by
  obtain ⟨inner, rfl, hinner⟩ := h
  intro stack
  simp [hinner]

theorem agree_parameter {p : Local} (h : Fits E s nested nested' p.type) (isDefinition : Bool) :
    Agree E Balanced (s.parameter nested indent isDefinition p)
      (s.parameter nested' indent isDefinition p) := by
  refine (h.declaration p.name).bind fun declared hdeclared => .pure fun stack => ?_
  cases p.location with
  | none => simp [hdeclared]
  | some location => simp [hdeclared]

theorem balanced_intersperse {parts : List (List Token)} {separator : List Token}
    (hseparator : Balanced separator) (h : ∀ ts ∈ parts, Balanced ts) :
    Balanced (parts.intersperse separator).flatten := by
  refine balanced_flatten ?_
  induction parts with
  | nil => exact h
  | cons first rest ih =>
      cases rest with
      | nil => exact h
      | cons second rest =>
          rw [List.intersperse_cons_cons]
          intro ts hts
          rcases List.mem_cons.mp hts with rfl | hts
          · exact h ts List.mem_cons_self
          rcases List.mem_cons.mp hts with rfl | hts
          · exact hseparator
          · exact ih (fun ts hts => h ts (List.mem_cons_of_mem _ hts)) ts hts

theorem agree_parameters {r : RoutineType} (h : ∀ p ∈ r.shown, Fits E s nested nested' p.type)
    (isDefinition : Bool) :
    Agree E Grouped (s.parameters nested indent isDefinition r)
      (s.parameters nested' indent isDefinition r) := by
  refine (Agree.mapM fun p hp => agree_parameter (h p hp) isDefinition).bind
    fun each heach => .pure ⟨_, rfl, balanced_intersperse (fun _ => rfl) fun ts hts => ?_⟩
  split at hts
  · rcases List.mem_append.mp hts with hts | hts
    · exact heach ts hts
    · rw [List.mem_singleton.mp hts]
      exact fun _ => rfl
  · exact heach ts hts

theorem agree_returnPart {f : Function} (h : ∀ ty ∈ f.signatureRefs, Fits E s nested nested' ty) :
    Agree E Balanced (s.returnPart nested indent f) (s.returnPart nested' indent f) := by
  unfold returnPart
  split
  case isTrue hshown =>
      have hfits : Fits E s nested nested' f.signature.returnType :=
        h _ (List.mem_append_left _ (by simp [hshown]))
      exact hfits.typeName.bind fun returned hreturned => .pure fun stack => by simp [hreturned]
  case isFalse => exact .pure fun _ => rfl

theorem agree_owner {owner : Option UInt32} (h : ∀ o ∈ owner, Named E s o) :
    Agree E (fun _ => True) (owner.mapM s.nameOf) (owner.mapM s.nameOf) := by
  cases owner with
  | none => exact .pure trivial
  | some o => exact (h o rfl).agree.bind fun name _ => .pure trivial

theorem agree_signature {f : Function} (h : ∀ ty ∈ f.signatureRefs, Fits E s nested nested' ty)
    (howner : ∀ o ∈ f.owner, Named E s o) (isDefinition insideClass : Bool) :
    Agree E Balanced (s.signature nested indent f isDefinition insideClass)
      (s.signature nested' indent f isDefinition insideClass) := by
  have hparameters : ∀ p ∈ f.signature.shown, Fits E s nested nested' p.type := fun p hp =>
    h _ (List.mem_append_right _ (List.mem_map_of_mem hp))
  refine (agree_returnPart h).bind fun returned hreturned => ?_
  refine (agree_owner howner).bind fun owner _ => ?_
  refine (agree_parameters hparameters isDefinition).bind fun parameters hgrouped => ?_
  refine .pure fun stack => ?_
  have hparameters := hgrouped.balanced
  cases owner with
  | none =>
      cases f.this? with
      | none => simp [hreturned, hparameters]
      | some this => simp [hreturned, hparameters]
  | some owner =>
      cases f.this? with
      | none => simp [hreturned, hparameters]
      | some this => simp [hreturned, hparameters]

theorem agree_functionDeclaration {f : Function}
    (h : ∀ ty ∈ f.signatureRefs, Fits E s nested nested' ty)
    (howner : ∀ o ∈ f.owner, Named E s o) (insideClass : Bool) :
    Agree E Balanced (s.functionDeclaration nested indent f insideClass)
      (s.functionDeclaration nested' indent f insideClass) :=
  (agree_signature h howner false insideClass).bind fun signature hsignature =>
    .pure fun stack => by simp [hsignature]

end Fits

/-! ## Bodies -/

section Remarks

variable {stack : List Bracket}

@[simp] theorem after_leadingRemark (indent : Nat) (parts : List String) :
    after stack (leadingRemark indent parts) = some stack := by
  simp [leadingRemark]

@[simp] theorem after_trailingRemark (parts : List String) :
    after stack (trailingRemark parts) = some stack := by
  simp [trailingRemark]

@[simp] theorem after_ownName (isInline : Bool) (name : String) :
    after stack (ownName isInline name) = some stack := by
  simp [ownName]

@[simp] theorem after_enumerators (s : Source) (indent : Nat) (previous : Int)
    (es : List Enumerator) : after stack (s.enumerators indent previous es) = some stack := by
  induction es generalizing previous with
  | nil => rfl
  | cons e rest ih => simp [enumerators, ih]

@[simp] theorem after_accessLabel (inForce access : Access) (isFirst : Bool) :
    after stack (accessLabel inForce access isFirst) = some stack := by
  simp [accessLabel]

theorem balanced_labelled (indent : Nat) {items : List (Access × List Token)}
    (h : ∀ item ∈ items, Balanced item.2) (inForce : Access) (isFirst : Bool) :
    Balanced (labelled indent inForce isFirst items) := by
  intro stack
  induction items generalizing inForce isFirst with
  | nil => rfl
  | cons item rest ih =>
      have hrest := ih fun item hitem => h item (List.mem_cons_of_mem _ hitem)
      simp [labelled, h item List.mem_cons_self, hrest]

theorem balanced_classItems (indent : Nat) (kind : ClassKind) {typedefs : List (List Token)}
    {members functions : List (Access × List Token)} (htypedefs : ∀ ts ∈ typedefs, Balanced ts)
    (hmembers : ∀ item ∈ members, Balanced item.2)
    (hfunctions : ∀ item ∈ functions, Balanced item.2) :
    Balanced (classItems indent kind typedefs members functions) := by
  intro stack
  have haliases : Balanced (typedefs.flatMap (newline (indent + 1) ++ ·)) :=
    balanced_flatMap fun ts hts stack => by simp [htypedefs ts hts]
  have hdata := balanced_labelled (indent + 1) hmembers
  have hcode := balanced_labelled (indent + 1) hfunctions
  simp [classItems, haliases, hdata, hcode]

end Remarks

/-- What a type that is written out in braces begins with. -/
inductive BeginsBody : Token → Prop
  | remark (text : String) : BeginsBody (remark text)
  | ofClass (kind : ClassKind) : BeginsBody (ofKeyword kind.keyword)
  | ofEnum : BeginsBody (ofKeyword "enum")

/-- Something in braces with something before. -/
def Bodied (isInline : Bool) (ts : List Token) : Prop :=
  ∃ head items, ts = head ++ [ofPunctuation "\x7b"] ++ items ++ closing isInline ∧
    (∃ first ∈ head.head?, BeginsBody first) ∧ Balanced head ∧ Balanced items

theorem Bodied.balanced {isInline : Bool} {ts : List Token} (h : Bodied isInline ts) :
    Balanced ts := by
  obtain ⟨head, items, rfl, -, hhead, hitems⟩ := h
  intro stack
  cases isInline <;> simp [closing, hhead, hitems]

theorem begins_leadingRemark {word : Token} (hword : BeginsBody word) (indent : Nat)
    (parts : List String) (rest : List Token) :
    ∃ first ∈ (leadingRemark indent parts ++ [word] ++ rest).head?, BeginsBody first := by
  unfold leadingRemark
  split
  · exact ⟨word, rfl, hword⟩
  · exact ⟨_, rfl, .remark _⟩

theorem bodied_enumeration (s : Source) (indent : Nat) (e : EnumType) (isInline : Bool) :
    Bodied isInline (s.enumeration indent e isInline) := by
  refine ⟨leadingRemark indent (s.offsetRemark e.offset) ++ [ofKeyword "enum"] ++
      (ownName isInline e.name ++ newline indent),
    s.enumerators (indent + 1) (-1) e.enumerators ++ newline indent, ?_, ?_, ?_, ?_⟩
  · simp [enumeration]
  · exact begins_leadingRemark .ofEnum _ _ _
  · intro stack
    simp
  · intro stack
    simp

section Classes

variable {E : RenderError → Prop} {s : Source} {nested nested' : Nested} {indent : Nat}

theorem agree_base {kind : ClassKind} {lead : String}
    (hlead : lead.toList.all Bracket.isPlain = true) {b : Base}
    (h : Fits E s nested nested' b.type) :
    Agree E Balanced (s.base nested indent kind lead b) (s.base nested' indent kind lead b) := by
  refine h.typeName.bind fun written hwritten => .pure fun stack => ?_
  rw [after_append, after_append, after_append, after_ofPunctuation hlead]
  simp [hwritten]

theorem agree_bases {kind : ClassKind} {lead : String}
    (hlead : lead.toList.all Bracket.isPlain = true) {bs : List Base}
    (h : ∀ b ∈ bs, Fits E s nested nested' b.type) :
    Agree E Balanced (s.bases nested indent kind lead bs)
      (s.bases nested' indent kind lead bs) := by
  induction bs generalizing lead with
  | nil => exact .pure fun _ => rfl
  | cons b rest ih =>
      refine (agree_base hlead (h b List.mem_cons_self)).bind fun first hfirst => ?_
      refine (ih (by decide) fun b hb => h b (List.mem_cons_of_mem _ hb)).bind
        fun others hothers => ?_
      exact .pure fun stack => by simp [hfirst, hothers]

theorem agree_typedef {t : Typedef} (h : Fits E s nested nested' t.type) :
    Agree E Balanced (s.typedef nested indent t) (s.typedef nested' indent t) :=
  (h.declaration t.name).bind fun declared hdeclared => .pure fun stack => by simp [hdeclared]

theorem agree_member {m : Member} (h : Fits E s nested nested' m.type) :
    Agree E Balanced (s.member nested indent m) (s.member nested' indent m) := by
  refine (h.declaration m.name).bind fun declared hdeclared => .pure fun stack => ?_
  cases m.bitSize with
  | none => simp [hdeclared]
  | some n => simp [hdeclared]

/-- What is printed with the access that it has. -/
theorem agree_withAccess {access : Access} {x y : Except RenderError (List Token)}
    (h : Agree E Balanced x y) :
    Agree E (fun item => Balanced item.2) (do return (access, ← x)) (do return (access, ← y)) :=
  h.bind fun _ hitem => .pure hitem

theorem agree_classType {c : ClassType} (h : ∀ ty ∈ s.uses (.ofClass c), Fits E s nested nested' ty)
    (howners : ∀ o ∈ s.owners (.ofClass c), Named E s o) (isInline : Bool) :
    Agree E (Bodied isInline) (s.classType nested indent c isInline)
      (s.classType nested' indent c isInline) := by
  simp only [uses, List.mem_append, or_imp, forall_and] at h
  obtain ⟨⟨⟨hbases, htypedefs⟩, hmembers⟩, hmethods⟩ := h
  refine (agree_bases (by decide) fun b hb => hbases _ (List.mem_map_of_mem hb)).bind
    fun bases hbases => ?_
  refine (Agree.mapM fun t ht => agree_typedef (htypedefs _ (List.mem_map_of_mem ht))).bind
    fun typedefs htypedefs => ?_
  refine (Agree.mapM fun m hm => agree_withAccess
    (agree_member (hmembers _ (List.mem_map_of_mem hm)))).bind fun members hmembers => ?_
  refine (Agree.mapM fun f hf => agree_withAccess (agree_functionDeclaration ?_ ?_ true)).bind
    fun functions hfunctions => ?_
  · intro ty hty
    exact hmethods ty (List.mem_flatMap.mpr ⟨f, hf, hty⟩)
  · intro o ho
    exact howners o (List.mem_filterMap.mpr ⟨f, hf, ho⟩)
  · refine .pure ⟨_, _, rfl, ?_, fun stack => ?_, ?_⟩
    · rw [List.append_assoc, List.append_assoc]
      exact begins_leadingRemark (.ofClass c.kind) _ _ _
    · simp [hbases]
    · exact balanced_classItems indent c.kind htypedefs hmembers hfunctions

/-! ## Types written out -/

theorem Fits.array {a : ArrayType} (h : Fits E s nested nested' a.element) (ms : List Modifier) :
    ∃ n, ∀ indent, Matched E n
      (s.writtenFront nested indent (.ofArray a) ms) (s.writtenFront nested' indent (.ofArray a) ms)
      (s.writtenBack nested indent (.ofArray a) ms)
      (s.writtenBack nested' indent (.ofArray a) ms) := by
  obtain ⟨n, hn⟩ := h
  cases ms with
  | nil =>
      refine ⟨n, fun indent => ⟨?_, ?_⟩⟩
      · exact (hn indent).front.bind fun element helement => .pure helement
      · exact (hn indent).back.bind fun after hafter => .pure fun stack => by simp [hafter]
  | cons m rest =>
      refine ⟨n + 1, fun indent => ⟨?_, ?_⟩⟩
      · refine (hn indent).front.bind fun element helement => .pure fun stack => ?_
        cases element.tight <;> simp [helement, List.replicate_succ]
      · exact (hn indent).back.bind fun after hafter => .pure fun stack => by
          simp [hafter, List.replicate_succ]

theorem Fits.routine {r : RoutineType} (h : Fits E s nested nested' r.returnType)
    (hparameters : ∀ p ∈ r.shown, Fits E s nested nested' p.type) (ms : List Modifier) :
    ∃ n, ∀ indent, Matched E n
      (s.writtenFront nested indent (.ofRoutine r) ms)
      (s.writtenFront nested' indent (.ofRoutine r) ms)
      (s.writtenBack nested indent (.ofRoutine r) ms)
      (s.writtenBack nested' indent (.ofRoutine r) ms) := by
  obtain ⟨n, hn⟩ := h
  refine ⟨n + 1, fun indent => ⟨?_, ?_⟩⟩
  · exact (hn indent).front.bind fun returned hreturned => .pure fun stack => by
      simp [hreturned, List.replicate_succ]
  · refine (agree_parameters hparameters false).bind fun parameters hgrouped => ?_
    refine (hn indent).back.bind fun after hafter => .pure fun stack => ?_
    simp [hgrouped.balanced, hafter, List.replicate_succ]

theorem agree_memberPointerFront {p : MemberPointerType} {n : Nat}
    (h : Agree E (fun f => Opens n f.tokens) (s.front nested indent p.type)
      (s.front nested' indent p.type))
    (howner : Named E s p.owner) (ms : List Modifier) :
    Agree E (Opens n) (s.memberPointerFront nested indent p ms)
      (s.memberPointerFront nested' indent p ms) := by
  refine h.bind fun target htarget => ?_
  refine howner.agree.bind fun owner _ => .pure fun stack => ?_
  simp [htarget]

/-- A type that is written out fits if the types in it do. -/
theorem fits_written {t : UserType} (h : ∀ ty ∈ s.uses t, Fits E s nested nested' ty)
    (howners : ∀ o ∈ s.owners t, Named E s o) :
    FitsWritten E { front := s.writtenFront nested, back := s.writtenBack nested }
      { front := s.writtenFront nested', back := s.writtenBack nested' } t := by
  intro ms
  cases t with
  | ofClass c =>
      refine ⟨0, fun indent => ⟨?_, .pure fun _ => rfl⟩⟩
      refine (agree_classType h howners true).bind fun body hbody => .pure fun stack => ?_
      simp [hbody.balanced]
  | ofEnum e =>
      refine ⟨0, fun indent => ⟨.pure fun stack => ?_, .pure fun _ => rfl⟩⟩
      simp [(bodied_enumeration s indent e true).balanced]
  | ofArray a => exact (h a.element List.mem_cons_self).array ms
  | ofRoutine r =>
      refine (h r.returnType List.mem_cons_self).routine (fun p hp => ?_) ms
      exact h p.type (List.mem_cons_of_mem _ (List.mem_map_of_mem hp))
  | ofMemberPointer p =>
      obtain ⟨n, hn⟩ := h p.type List.mem_cons_self
      refine ⟨n, fun indent => ⟨?_, (hn indent).back⟩⟩
      have howner := howners p.owner List.mem_cons_self
      exact (agree_memberPointerFront (hn indent).front howner ms).bind fun _ h => .pure h

end Classes

/-! ## Files -/

section Files

variable {E : RenderError → Prop} {s : Source} {nested nested' : Nested}

theorem agree_arrayTypedef {a : ArrayType} (h : Fits E s nested nested' a.element) :
    Agree E Balanced (s.arrayTypedef nested a) (s.arrayTypedef nested' a) := by
  obtain ⟨n, hn⟩ := h
  refine (hn 0).front.bind fun before hbefore => ?_
  refine (hn 0).back.bind fun after hafter => .pure fun stack => ?_
  simp [hbefore, hafter]

theorem agree_routineTypedef {r : RoutineType} (h : Fits E s nested nested' r.returnType)
    (hparameters : ∀ p ∈ r.shown, Fits E s nested nested' p.type) :
    Agree E Balanced (s.routineTypedef nested r) (s.routineTypedef nested' r) := by
  obtain ⟨n, hn⟩ := h
  refine (hn 0).front.bind fun before hbefore => ?_
  refine (agree_parameters hparameters false).bind fun parameters hgrouped => ?_
  refine (hn 0).back.bind fun after hafter => .pure fun stack => ?_
  simp [hbefore, hgrouped.balanced, hafter]

theorem agree_memberPointerTypedef {p : MemberPointerType} (h : Fits E s nested nested' p.type)
    (howner : Named E s p.owner) :
    Agree E Balanced (s.memberPointerTypedef nested p) (s.memberPointerTypedef nested' p) := by
  obtain ⟨n, hn⟩ := h
  refine (agree_memberPointerFront (hn 0).front howner []).bind fun before hbefore => ?_
  refine (hn 0).back.bind fun after hafter => .pure fun stack => ?_
  simp [hbefore, hafter]

theorem agree_userType {t : UserType} (h : ∀ ty ∈ s.uses t, Fits E s nested nested' ty)
    (howners : ∀ o ∈ s.owners t, Named E s o) :
    Agree E Balanced (s.userType nested t) (s.userType nested' t) := by
  cases t with
  | ofClass c => exact (agree_classType h howners false).mono fun _ h => h.balanced
  | ofEnum e => exact .pure (bodied_enumeration s 0 e false).balanced
  | ofArray a => exact agree_arrayTypedef (h _ List.mem_cons_self)
  | ofRoutine r =>
      refine agree_routineTypedef (h _ List.mem_cons_self) fun p hp => ?_
      exact h _ (List.mem_cons_of_mem _ (List.mem_map_of_mem hp))
  | ofMemberPointer p =>
      exact agree_memberPointerTypedef (h _ List.mem_cons_self) (howners _ List.mem_cons_self)

theorem agree_fileVariable {v : Variable} (h : Fits E s nested nested' v.type) :
    Agree E Balanced (s.fileVariable nested v) (s.fileVariable nested' v) :=
  (h.declaration v.name).bind fun declared hdeclared => .pure fun stack => by simp [hdeclared]

theorem agree_localVariable {l : Local} (h : Fits E s nested nested' l.type) :
    Agree E Balanced (s.localVariable nested l) (s.localVariable nested' l) := by
  refine (h.declaration l.name).bind fun declared hdeclared => .pure fun stack => ?_
  cases l.location with
  | none => simp [hdeclared]
  | some location => simp [hdeclared]

theorem balanced_instructions (indent : Nat) (lines : List LineEntry) (code : List Instruction) :
    Balanced (instructions indent lines code) := by
  intro stack
  induction code generalizing lines with
  | nil => rfl
  | cons i rest ih =>
      have hlines : ∀ here : List LineEntry, after stack (here.flatMap fun line =>
          newline indent ++ [remark ("Line " ++ Numeral.decimal line.line.toNat)]) = some stack :=
        fun here => balanced_flatMap (fun line _ stack => by simp) stack
      simp [instructions, hlines, ih]

@[simp] theorem after_disassembled {stack : List Bracket} (f : Function) :
    after stack (s.disassembled f) = some stack := by
  unfold disassembled
  cases s.codeOf f with
  | none => rfl
  | some code => simp [balanced_instructions]

theorem agree_functionDefinition {f : Function}
    (h : ∀ ty ∈ f.signatureRefs, Fits E s nested nested' ty)
    (hlocals : ∀ l ∈ f.locals, Fits E s nested nested' l.type)
    (howner : ∀ o ∈ f.owner, Named E s o) :
    Agree E Balanced (s.functionDefinition nested f) (s.functionDefinition nested' f) := by
  have hremarks : Balanced ((s.functionRemarks f).flatMap fun text => remark text :: newline 0) :=
    balanced_flatMap fun text _ stack => by simp
  refine (agree_signature h howner true false).bind fun signature hsignature => ?_
  refine (Agree.mapM fun l hl => agree_localVariable (hlocals l hl)).bind fun locals hlocals => ?_
  refine .pure fun stack => ?_
  simp [hremarks, hsignature, balanced_flatten hlocals]

/-- Everything that can be shown fits. -/
structure FitsAll (E : RenderError → Prop) (s : Source) (nested nested' : Nested) : Prop where
  types : ∀ (o : UInt32) t, s.program.types[o]? = some t →
    (∀ ty ∈ s.uses t, Fits E s nested nested' ty) ∧ ∀ o ∈ s.owners t, Named E s o
  functions : ∀ (o : UInt32) f, s.program.functions[o]? = some f →
    (∀ ty ∈ f.signatureRefs, Fits E s nested nested' ty) ∧
      (∀ l ∈ f.locals, Fits E s nested nested' l.type) ∧ ∀ o ∈ f.owner, Named E s o
  vars : ∀ (o : UInt32) v, s.program.vars[o]? = some v → Fits E s nested nested' v.type

/-- Parts each of which is printed by itself. -/
theorem agree_parts {α : Type} {items : List α} {f g : α → Except RenderError (List Token)}
    (h : ∀ a ∈ items, Agree E Balanced (f a) (g a)) {tail : List Token} (htail : Balanced tail) :
    Agree E (fun parts => Balanced parts.flatten)
      (items.mapM fun a => do return (← f a) ++ tail)
      (items.mapM fun a => do return (← g a) ++ tail) := by
  have heach : ∀ a ∈ items,
      Agree E Balanced (do return (← f a) ++ tail) (do return (← g a) ++ tail) :=
    fun a ha => (h a ha).bind fun ts hts => .pure fun stack => by simp [hts, htail]
  exact (Agree.mapM heach).mono fun parts hparts => balanced_flatten hparts

theorem exists_of_mem_typesOf {files : List File} {t : UserType}
    (h : t ∈ files.flatMap s.typesOf) : ∃ o : UInt32, s.program.types[o]? = some t := by
  obtain ⟨file, -, ht⟩ := List.mem_flatMap.mp h
  have hmem : t ∈ s.program.typesOf file := by
    unfold typesOf at ht
    split at ht
    · exact (List.mem_filter.mp (List.mem_mergeSort.mp ht)).1
    · exact (List.mem_filter.mp ht).1
  obtain ⟨o, -, ho⟩ := List.mem_filterMap.mp hmem
  exact ⟨o, ho⟩

theorem exists_of_mem_functionsOf {files : List File} {f : Function}
    (h : f ∈ s.functionsOf files) : ∃ o : UInt32, s.program.functions[o]? = some f := by
  have hmem : f ∈ files.flatMap s.program.functionsOf := by
    unfold functionsOf at h
    split at h
    · exact List.mem_mergeSort.mp h
    · exact h
  obtain ⟨file, -, hf⟩ := List.mem_flatMap.mp hmem
  obtain ⟨o, -, ho⟩ := List.mem_filterMap.mp hf
  exact ⟨o, ho⟩

section All

variable (h : FitsAll E s nested nested') (fs : List File)
include h

theorem FitsAll.functionDefinition {o : UInt32} {f : Function}
    (hf : s.program.functions[o]? = some f) :
    Agree E Balanced (s.functionDefinition nested f) (s.functionDefinition nested' f) := by
  obtain ⟨hsignature, hlocals, howner⟩ := h.functions o f hf
  exact agree_functionDefinition hsignature hlocals howner

theorem FitsAll.userType {o : UInt32} {t : UserType} (ht : s.program.types[o]? = some t) :
    Agree E Balanced (s.userType nested t) (s.userType nested' t) :=
  agree_userType (h.types o t ht).1 (h.types o t ht).2

theorem FitsAll.typesPart :
    Agree E Balanced (s.typesPart nested fs) (s.typesPart nested' fs) := by
  have hend : Balanced (newline 0 ++ newline 0) := fun stack => by simp
  refine Agree.bind ?_ fun types htypes => .pure htypes
  simp only [List.append_assoc]
  refine agree_parts (fun t ht => ?_) hend
  obtain ⟨o, ho⟩ := exists_of_mem_typesOf ht
  exact h.userType ho

theorem FitsAll.variablesPart :
    Agree E Balanced (s.variablesPart nested fs) (s.variablesPart nested' fs) := by
  dsimp only [Source.variablesPart]
  split
  · refine (agree_parts (fun v hv => ?_) fun stack => after_newline 0).bind
      fun vars hvars => .pure fun stack => ?_
    · obtain ⟨file, -, hv⟩ := List.mem_flatMap.mp hv
      obtain ⟨o, -, ho⟩ := List.mem_filterMap.mp hv
      exact agree_fileVariable (h.vars o v ho)
    · simp [hvars]
  · exact .pure fun _ => rfl

theorem FitsAll.declarationsPart :
    Agree E Balanced (s.declarationsPart nested fs) (s.declarationsPart nested' fs) := by
  dsimp only [Source.declarationsPart]
  split
  · refine (agree_parts (fun f hf => ?_) fun stack => after_newline 0).bind
      fun functions hfunctions => .pure fun stack => ?_
    · obtain ⟨o, ho⟩ := exists_of_mem_functionsOf hf
      obtain ⟨hsignature, -, howner⟩ := h.functions o f ho
      exact agree_functionDeclaration hsignature howner false
    · simp [hfunctions]
  · exact .pure fun _ => rfl

theorem FitsAll.definitionsPart :
    Agree E Balanced (s.definitionsPart nested fs) (s.definitionsPart nested' fs) := by
  have hend : Balanced (newline 0 ++ newline 0) := fun stack => by simp
  dsimp only [Source.definitionsPart]
  split
  · refine Agree.bind ?_ fun functions hfunctions => .pure hfunctions
    simp only [List.append_assoc]
    refine agree_parts (fun f hf => ?_) hend
    obtain ⟨o, ho⟩ := exists_of_mem_functionsOf hf
    exact h.functionDefinition ho
  · exact .pure fun _ => rfl

omit h in
theorem balanced_fileRemarks : Balanced (s.fileRemarks fs) := by
  refine balanced_flatMap fun file _ => balanced_flatMap fun text _ stack => ?_
  simp

theorem FitsAll.files : Agree E Balanced (s.files nested fs) (s.files nested' fs) := by
  refine (h.typesPart fs).bind fun types htypes => ?_
  refine (h.variablesPart fs).bind fun vars hvars => ?_
  refine (h.declarationsPart fs).bind fun declarations hdeclarations => ?_
  refine (h.definitionsPart fs).bind fun definitions hdefinitions => .pure fun stack => ?_
  simp [balanced_fileRemarks fs stack, htypes, hvars, hdeclarations, hdefinitions]

end All

/-- Where everything fits, whatever is shown is balanced. -/
theorem FitsAll.tokens (h : FitsAll E s s.writtenOut s.writtenOut) (target : RenderTarget) :
    Agree E Balanced (s.tokens target) (s.tokens target) := by
  cases target with
  | all => exact h.files _
  | path name => exact h.files _
  | entry offset =>
      show Agree E Balanced (s.entry offset) (s.entry offset)
      unfold Source.entry
      split
      · exact h.files _
      · split
        case h_1 t ht => exact h.userType ht
        case h_2 =>
          split
          case h_1 v hv => exact agree_fileVariable (h.vars _ v hv)
          case h_2 =>
            split
            case h_1 f hf => exact h.functionDefinition hf
            case h_2 => exact .pure fun _ => rfl

end Files

end Source
end DwarfOne
