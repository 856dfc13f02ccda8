/-
# `Proofs.Source.Spelling` — types spelled around a name

`Describes` says what a type is made of: its modifiers, and then the dimensions of an array, the
parameters of a function or the class of a pointer to a member, if one is written out there, and
so on with what it leads to.  It ends at a specifier.

The printer has two recursions, one for what stands before the name and one for what stands
behind.  `Spells` says what the two have to do with each other and with the layers of a type, and
every type that can be written out is printed so, whichever way it is looked at
(`spelling_of_finite`).

Nothing of a type gets lost.  But a pointer to a member is not put in parentheses, so if
what it leads to is an array, the dimensions are read as if they were those of the name.
That is the only way in which the order can be another one.
-/
import DwarfOne.Proofs.Source.Declarators
import DwarfOne.Proofs.Source.Inlining

namespace DwarfOne

open Token

/-! ## Spelling -/

/-- The tokens before a name and behind it are those of a specifier and some layers.
Classes of which pointers to members are said must be called something. -/
structure Spells (front : List Token) (tight : Bool) (back : List Token) (layers : List Layer)
    (specifier : List Token) : Prop where
  heads : specifier ≠ [] → Heads specifier
  around : ∃ lead marks, front = lead ++ specifier ++ marks ∧ Qualifies lead ∧
    (.member "" ∉ layers → ∃ arrays rest, Around marks tight back arrays rest ∧
      (arrays ++ rest).Perm layers ∧ (Spellable layers → arrays ++ rest = layers))

section Rules

variable {view : List Token → List Token} {front back ts specifier : List Token} {tight : Bool}
  {layers layers' : List Layer}

theorem IsView.spells_specifier (hview : IsView view)
    (hspecifier : specifier ≠ [] → Heads specifier) (ms : List Modifier) :
    Spells (specifier ++ view (Source.modifiers ms)) false [] (Layer.ofModifiers ms) specifier where
  heads := hspecifier
  around := ⟨[], view (Source.modifiers ms), rfl, .nil, fun _ => ⟨[], Layer.ofModifiers ms,
    hview.around_modifiers ms, .refl _, fun _ => rfl⟩⟩

/-- Qualifiers in front change nothing. -/
theorem Spells.qualified (h : Spells front tight back layers specifier) (hts : Qualifies ts) :
    Spells (ts ++ front) tight back layers specifier where
  heads := h.heads
  around := by
    obtain ⟨lead, marks, rfl, hlead, hmarks⟩ := h.around
    exact ⟨ts ++ lead, marks, by simp only [List.append_assoc], hts.append hlead, hmarks⟩

theorem Spells.dimensions (h : Spells front tight back layers specifier) (a : ArrayType) :
    Spells front tight (Source.dimensions a ++ back) (a.dimensions.map Layer.ofDimension ++ layers)
      specifier where
  heads := h.heads
  around := by
    obtain ⟨lead, marks, hfront, hlead, hmarks⟩ := h.around
    refine ⟨lead, marks, hfront, hlead, fun hnamed => ?_⟩
    obtain ⟨arrays, rest, haround, hperm, hlayers⟩ := hmarks fun hmem =>
      hnamed (List.mem_append_right _ hmem)
    refine ⟨_, rest, haround.dimensions a, ?_, fun hspellable => ?_⟩
    · rw [List.append_assoc]
      exact hperm.append_left _
    · rw [spellable_append fun l hl => Layer.isMember_of_mem_dimensions hl] at hspellable
      rw [List.append_assoc, hlayers hspellable]

theorem Spells.enclosed (h : Spells front tight back layers specifier) (hview : IsView view)
    {opening : Token} (hopening : opening = ofPunctuation "(" ∨ opening = ofPunctuation " (")
    (hts : Suffixes ts layers') (hgroups : ∀ l ∈ layers', l.isMember = false) (ms : List Modifier)
    (hfirst : ms = [] → ∃ l ∈ layers'.head?, l.isArray = false) :
    Spells (front ++ [opening] ++ view (Source.modifiers ms)) true
      ([ofPunctuation ")"] ++ ts ++ back) (Layer.ofModifiers ms ++ layers' ++ layers)
      specifier where
  heads := h.heads
  around := by
    obtain ⟨lead, marks, rfl, hlead, hmarks⟩ := h.around
    refine ⟨lead, marks ++ [opening] ++ view (Source.modifiers ms),
      by simp only [List.append_assoc], hlead, fun hnamed => ?_⟩
    obtain ⟨arrays, rest, haround, hperm, hlayers⟩ := hmarks fun hmem =>
      hnamed (List.mem_append_right _ hmem)
    refine ⟨[], _, haround.enclosed hopening (hview.prefixes_modifiers ms) hts hgroups hfirst, ?_,
      fun hspellable => ?_⟩
    · rw [List.nil_append, List.append_assoc _ arrays]
      exact hperm.append_left _
    · rw [List.append_assoc, spellable_append fun l hl => Layer.isMember_of_mem_ofModifiers hl,
        spellable_append hgroups] at hspellable
      rw [List.nil_append, List.append_assoc _ arrays, hlayers hspellable]

theorem Spells.member (h : Spells front tight back layers specifier) (hview : IsView view)
    (owner : String) (ms : List Modifier) :
    Spells (front ++ view (if tight then [] else [space]) ++
        view [ofIdentifier owner, ofPunctuation "::*"] ++ view (Source.modifiers ms)) true back
      (Layer.ofModifiers ms ++ .member owner :: layers) specifier where
  heads := h.heads
  around := by
    obtain ⟨lead, marks, rfl, hlead, hmarks⟩ := h.around
    refine ⟨lead, marks ++ view (if tight then [] else [space]) ++
        view [ofIdentifier owner, ofPunctuation "::*"] ++ view (Source.modifiers ms),
      by simp only [List.append_assoc], hlead, fun hnamed => ?_⟩
    rw [List.mem_append, List.mem_cons, not_or, not_or] at hnamed
    obtain ⟨-, howner, hnamed⟩ := hnamed
    have hclass : view [ofIdentifier owner, ofPunctuation "::*"] =
        [ofIdentifier owner, ofPunctuation "::*"] := by
      have hsplit := hview.append [ofIdentifier owner] [ofPunctuation "::*"]
      rwa [hview.identifier fun hempty => howner (by rw [hempty]),
        hview.mark "::*" (by decide)] at hsplit
    obtain ⟨arrays, rest, haround, hperm, hlayers⟩ := hmarks hnamed
    rw [hclass]
    refine ⟨arrays, _, haround.member (hview.prefixes_spaceUnless tight)
      (hview.prefixes_modifiers ms) owner, ?_, fun hspellable => ?_⟩
    · -- the arrays have come in front of the modifiers and the class
      refine List.perm_append_comm_assoc .. |>.trans (.append_left _ ?_)
      exact List.perm_middle.trans (hperm.cons _)
    · rw [spellable_append fun l hl => Layer.isMember_of_mem_ofModifiers hl] at hspellable
      exact haround.member_eq owner ms hlayers hspellable

/-- Among lexemes nothing stands before a specifier. -/
theorem Spells.around_lexemes (h : Spells (lexemes ts) tight back layers specifier) :
    ∃ marks, lexemes ts = specifier ++ marks ∧ (.member "" ∉ layers →
      ∃ arrays rest, Around marks tight back arrays rest ∧ (arrays ++ rest).Perm layers ∧
        (Spellable layers → arrays ++ rest = layers)) := by
  obtain ⟨lead, marks, hfront, hlead, hmarks⟩ := h.around
  have hspace : space ∉ lead := by
    intro hmem
    have hall : space ∈ lexemes ts := by
      rw [hfront, List.append_assoc]
      exact List.mem_append_left _ hmem
    exact space_notMem_lexemes hall
  obtain rfl := hlead.eq_nil hspace
  exact ⟨marks, hfront, hmarks⟩

end Rules

namespace Source

/-! ## What a type is made of -/

/-- What a type is, with the layers from the outside in and the specifier at which
they end.  What is inside them is as it is seen. -/
inductive Describes (s : Source) (view : List Token → List Token) (indent : Nat) :
    TypeRef → List Layer → List Token → Prop
  | fundamental {ty : TypeRef} {id : UInt16} (hbase : ty.base = .fundamental id) :
      Describes s view indent ty (Layer.ofModifiers ty.modifiers)
        (view [ofKeyword (s.settings.fundamentals.name id)])
  | named {ty : TypeRef} {o : UInt32} {name : String} (hbase : ty.base = .user o)
      (hfound : s.inlined? o = .ok none) (hname : s.nameOf o = .ok name) :
      Describes s view indent ty (Layer.ofModifiers ty.modifiers) (view [ofIdentifier name])
  | ofClass {ty : TypeRef} {o : UInt32} {c : ClassType} {body : List Token}
      (hbase : ty.base = .user o) (hfound : s.inlined? o = .ok (some (.ofClass c)))
      (hbody : s.classType s.writtenOut indent c true = .ok body) :
      Describes s view indent ty (Layer.ofModifiers ty.modifiers) (view body)
  | ofEnum {ty : TypeRef} {o : UInt32} {e : EnumType} (hbase : ty.base = .user o)
      (hfound : s.inlined? o = .ok (some (.ofEnum e))) :
      Describes s view indent ty (Layer.ofModifiers ty.modifiers)
        (view (s.enumeration indent e true))
  | ofArray {ty : TypeRef} {o : UInt32} {a : ArrayType} {layers : List Layer}
      {specifier : List Token} (hbase : ty.base = .user o)
      (hfound : s.inlined? o = .ok (some (.ofArray a)))
      (helement : Describes s view indent a.element layers specifier) :
      Describes s view indent ty
        (Layer.ofModifiers ty.modifiers ++ a.dimensions.map Layer.ofDimension ++ layers)
        specifier
  | ofRoutine {ty : TypeRef} {o : UInt32} {r : RoutineType} {parameters : List Token}
      {layers : List Layer} {specifier : List Token} (hbase : ty.base = .user o)
      (hfound : s.inlined? o = .ok (some (.ofRoutine r)))
      (hparameters : s.parameters s.writtenOut indent false r =
        .ok ([ofPunctuation "("] ++ parameters ++ [ofPunctuation ")"]))
      (hreturn : Describes s view indent r.returnType layers specifier) :
      Describes s view indent ty
        (Layer.ofModifiers ty.modifiers ++ [.function (view parameters)] ++ layers) specifier
  | ofMemberPointer {ty : TypeRef} {o : UInt32} {p : MemberPointerType} {owner : String}
      {layers : List Layer} {specifier : List Token} (hbase : ty.base = .user o)
      (hfound : s.inlined? o = .ok (some (.ofMemberPointer p)))
      (howner : s.nameOf p.owner = .ok owner)
      (htarget : Describes s view indent p.type layers specifier) :
      Describes s view indent ty (Layer.ofModifiers ty.modifiers ++ .member owner :: layers)
        specifier

section Describing

variable {s : Source} {view : List Token → List Token} {indent : Nat} {ty : TypeRef}
  {layers layers' : List Layer} {specifier specifier' : List Token}

theorem Describes.unique (h : s.Describes view indent ty layers specifier)
    (h' : s.Describes view indent ty layers' specifier') :
    layers' = layers ∧ specifier' = specifier := by
  induction h generalizing layers' specifier' with
  | fundamental hbase => cases h' <;> grind
  | named hbase hfound hname => cases h' <;> grind
  | ofClass hbase hfound hbody => cases h' <;> grind
  | ofEnum hbase hfound => cases h' <;> grind
  | ofArray hbase hfound _ ih => cases h' <;> grind
  | ofRoutine hbase hfound hparameters _ ih =>
      cases h' with
      | ofRoutine hbase' hfound' hparameters' hreturn' =>
          cases hbase.symm.trans hbase'
          cases hfound.symm.trans hfound'
          have heq := Except.ok.inj (hparameters.symm.trans hparameters')
          simp only [List.append_cancel_right_eq, List.append_cancel_left_eq] at heq
          obtain ⟨rfl, rfl⟩ := ih hreturn'
          exact ⟨by rw [heq], rfl⟩
      | _ => grind
  | ofMemberPointer hbase hfound howner _ ih => cases h' <;> grind

theorem Describes.iff_eq (h : s.Describes view indent ty layers specifier)
    (layers' : List Layer) (specifier' : List Token) :
    s.Describes view indent ty layers' specifier' ↔ layers' = layers ∧ specifier' = specifier := by
  constructor
  · exact h.unique
  · rintro ⟨rfl, rfl⟩
    exact h

end Describing

/-! ## What is printed of a type -/

/-- Put around a name, this spells the type. -/
def Spelt (s : Source) (view : List Token → List Token) (indent : Nat) (ty : TypeRef)
    (front : Front) (back : List Token) : Prop :=
  ∃ layers specifier, s.Describes view indent ty layers specifier ∧
    Spells (view front.tokens) front.tight (view back) layers specifier

/-- Printing spells the type, or ends with an error that is allowed. -/
def Spelling (E : RenderError → Prop) (s : Source) (view : List Token → List Token)
    (ty : TypeRef) : Prop :=
  ∀ indent, Agree E
    (fun front => Agree E (s.Spelt view indent ty front)
      (s.back s.writtenOut indent ty) (s.back s.writtenOut indent ty))
    (s.front s.writtenOut indent ty) (s.front s.writtenOut indent ty)

section Rules

variable {E : RenderError → Prop} {s : Source} {view : List Token → List Token}
  {P : UserType → Prop} {ty : TypeRef} {o : UInt32} {indent : Nat}

theorem spelling_error {e : RenderError} (hbase : ty.base = .user o)
    (hfound : s.inlined? o = .error e) (hname : Named E s o) : s.Spelling E view ty := by
  intro indent
  rw [front_error hbase hfound]
  exact ⟨rfl, hname e (nameOf_of_inlined?_eq_error hfound)⟩

variable (hview : IsView view)
include hview

theorem Spelt.qualified {front : Front} {back : List Token} (h : s.Spelt view indent ty front back)
    (ty' : TypeRef) :
    s.Spelt view indent ty { front with tokens := baseQualifiers ty' ++ front.tokens } back := by
  obtain ⟨layers, specifier, hdescribes, hspells⟩ := h
  refine ⟨layers, specifier, hdescribes, ?_⟩
  rw [hview.append]
  exact hspells.qualified (hview.qualifiers ty')

/-- A specifier with modifiers behind it. -/
theorem spelt_specifier {ts : List Token} (hts : view ts ≠ [] → Heads (view ts))
    (h : s.Describes view indent ty (Layer.ofModifiers ty.modifiers) (view ts)) :
    s.Spelt view indent ty { tokens := ts ++ modifiers ty.modifiers, tight := false } [] := by
  refine ⟨_, _, h, ?_⟩
  rw [hview.append, hview.nil]
  exact hview.spells_specifier hts ty.modifiers

/-- One word, unless it is not seen. -/
theorem heads_view {t : Token} (ht : t.kind = .keyword ∨ t.kind = .identifier)
    (h : view [t] ≠ []) : Heads (view [t]) := by
  rcases hview.word ht with hseen | hseen
  · exact absurd hseen h
  · rw [hseen]
    exact heads_word ht

theorem Bodied.heads {ts : List Token} (h : Bodied true ts) : Heads (view ts) := by
  obtain ⟨head, items, rfl, -, hhead, hitems⟩ := h
  have hopen : after [] (view (head ++ [ofPunctuation "\x7b"] ++ items)) = some [.curly] := by
    rw [hview.after, after_append, after_append, hhead, Option.bind_some, after_curlyOpen,
      after_nil, Option.bind_some, hitems]
  have hclosing : view (closing true) = [ofPunctuation "\x7d"] := hview.mark _ (by decide)
  rw [hview.append, hclosing]
  exact heads_body hopen

theorem spelling_fundamental {id : UInt16} (hbase : ty.base = .fundamental id) :
    s.Spelling E view ty := by
  intro indent
  rw [front_fundamental hbase, back_fundamental hbase, List.append_assoc]
  have hspelt : s.Spelt view indent ty _ [] :=
    spelt_specifier hview (heads_view hview (.inl rfl)) (.fundamental hbase)
  exact .pure (.pure (hspelt.qualified hview ty))

theorem spelling_named (hbase : ty.base = .user o) (hfound : s.inlined? o = .ok none) :
    s.Spelling E view ty := by
  obtain ⟨name, hname, -⟩ := exists_nameOf_of_inlined? hfound
  intro indent
  rw [front_named hbase hfound hname, back_named hbase hfound, List.append_assoc]
  have hspelt : s.Spelt view indent ty _ [] :=
    spelt_specifier hview (heads_view hview (.inr rfl)) (.named hbase hfound hname)
  exact .pure (.pure (hspelt.qualified hview ty))

variable {t : UserType}

/-- How a type that is written out is spelled. -/
theorem spelling_of_written (hP : Allowing E s P) (hbase : ty.base = .user o)
    (hfound : s.inlined? o = .ok (some t)) (ht : P t) (hacc : Acc (fun u t => s.Inlines t u) t)
    (h : ∀ indent, Agree E
      (fun front => Agree E (s.Spelt view indent ty front)
        (s.writtenBack s.writtenOut indent t ty.modifiers)
        (s.writtenBack s.writtenOut indent t ty.modifiers))
      (s.writtenFront s.writtenOut indent t ty.modifiers)
      (s.writtenFront s.writtenOut indent t ty.modifiers)) : s.Spelling E view ty := by
  intro indent
  obtain ⟨hfront, hback⟩ := writtenOut_eq hP (mem_modelled_of_inlined? hfound) ht hacc indent
    ty.modifiers
  rw [front_inlined hbase hfound, back_inlined hbase hfound, hfront, hback]
  refine (h indent).bind fun front hspelt => .pure ?_
  exact hspelt.mono fun back hspelt => hspelt.qualified hview ty

section Written

variable (hP : Allowing E s P) (hbase : ty.base = .user o)
include hP hbase

theorem spelling_class {c : ClassType} (hfound : s.inlined? o = .ok (some (.ofClass c)))
    (ht : P (.ofClass c)) (hacc : Acc (fun u t => s.Inlines t u) (.ofClass c))
    (huses : ∀ ty' ∈ s.uses (.ofClass c), Fits E s s.writtenOut s.writtenOut ty') :
    s.Spelling E view ty := by
  refine spelling_of_written hview hP hbase hfound ht hacc fun indent => ?_
  have howners := (hP.names _ ht).owners
  refine (agree_classType huses howners true).and_eq_ok.bind fun body hbody => .pure (.pure ?_)
  exact spelt_specifier hview (fun _ => hbody.1.heads hview) (.ofClass hbase hfound hbody.2)

theorem spelling_enum {e : EnumType} (hfound : s.inlined? o = .ok (some (.ofEnum e)))
    (ht : P (.ofEnum e)) (hacc : Acc (fun u t => s.Inlines t u) (.ofEnum e)) :
    s.Spelling E view ty := by
  refine spelling_of_written hview hP hbase hfound ht hacc fun indent => .pure (.pure ?_)
  exact spelt_specifier hview (fun _ => (bodied_enumeration s indent e true).heads hview)
    (.ofEnum hbase hfound)

theorem spelling_array {a : ArrayType} (hfound : s.inlined? o = .ok (some (.ofArray a)))
    (ht : P (.ofArray a)) (hacc : Acc (fun u t => s.Inlines t u) (.ofArray a))
    (helement : s.Spelling E view a.element) : s.Spelling E view ty := by
  refine spelling_of_written hview hP hbase hfound ht hacc fun indent => ?_
  refine (helement indent).bind fun element hback => ?_
  cases hms : ty.modifiers with
  | nil =>
      refine .pure (hback.bind fun back hspelt => .pure ?_)
      obtain ⟨layers, specifier, hdescribes, hspells⟩ := hspelt
      refine ⟨_, specifier, .ofArray hbase hfound hdescribes, ?_⟩
      rw [hms]
      show Spells _ _ (view (dimensions a ++ back)) _ _
      rw [hview.append, hview.view_dimensions]
      exact hspells.dimensions a
  | cons m rest =>
      refine .pure (hback.bind fun back hspelt => .pure ?_)
      obtain ⟨layers, specifier, hdescribes, hspells⟩ := hspelt
      refine ⟨_, specifier, .ofArray hbase hfound hdescribes, ?_⟩
      obtain ⟨opening, hseen, hopening⟩ := hview.exists_view_opening element.tight
      rw [hms, hview.append, hview.append, hseen]
      show Spells _ _ (view ([ofPunctuation ")"] ++ dimensions a ++ back)) _ _
      rw [hview.append, hview.append, hview.mark ")" (by decide), hview.view_dimensions]
      refine hspells.enclosed hview hopening (suffixes_dimensions a) (fun l hl => ?_) (m :: rest)
        (by simp)
      exact Layer.isMember_of_mem_dimensions hl

theorem spelling_routine {r : RoutineType} (hfound : s.inlined? o = .ok (some (.ofRoutine r)))
    (ht : P (.ofRoutine r)) (hacc : Acc (fun u t => s.Inlines t u) (.ofRoutine r))
    (hshown : ∀ p ∈ r.shown, Fits E s s.writtenOut s.writtenOut p.type)
    (hreturn : s.Spelling E view r.returnType) : s.Spelling E view ty := by
  refine spelling_of_written hview hP hbase hfound ht hacc fun indent => ?_
  refine (hreturn indent).bind fun returned hback => .pure ?_
  refine (agree_parameters hshown false).and_eq_ok.bind fun parameters hparameters => ?_
  refine hback.bind fun back hspelt => .pure ?_
  obtain ⟨⟨inner, rfl, hbalanced⟩, hok⟩ := hparameters
  obtain ⟨layers, specifier, hdescribes, hspells⟩ := hspelt
  refine ⟨_, specifier, .ofRoutine hbase hfound hok hdescribes, ?_⟩
  obtain ⟨opening, hseen, hopening⟩ := hview.exists_view_opening false
  have hseen : view [ofPunctuation " ("] = [opening] := hseen
  rw [hview.append, hview.append, hseen, hview.append, hview.append, hview.mark ")" (by decide),
    hview.view_parameters]
  refine hspells.enclosed hview hopening (suffixes_function (hview.balanced hbalanced))
    (fun l hl => ?_) ty.modifiers fun _ => ⟨_, rfl, rfl⟩
  rw [List.mem_singleton.mp hl]
  rfl

theorem spelling_memberPointer {p : MemberPointerType}
    (hfound : s.inlined? o = .ok (some (.ofMemberPointer p))) (ht : P (.ofMemberPointer p))
    (hacc : Acc (fun u t => s.Inlines t u) (.ofMemberPointer p))
    (htarget : s.Spelling E view p.type) : s.Spelling E view ty := by
  refine spelling_of_written hview hP hbase hfound ht hacc fun indent => ?_
  have howner := (hP.names _ ht).owners p.owner List.mem_cons_self
  -- the back is that of the target
  have hfront : Agree E (fun before => Agree E
        (fun back => s.Spelt view indent ty { tokens := before, tight := true } back)
        (s.back s.writtenOut indent p.type) (s.back s.writtenOut indent p.type))
      (s.memberPointerFront s.writtenOut indent p ty.modifiers)
      (s.memberPointerFront s.writtenOut indent p ty.modifiers) := by
    refine (htarget indent).bind fun target hback => ?_
    refine howner.agree.bind fun owner hname => .pure ?_
    refine hback.mono fun back hspelt => ?_
    obtain ⟨layers, specifier, hdescribes, hspells⟩ := hspelt
    refine ⟨_, specifier, .ofMemberPointer hbase hfound hname hdescribes, ?_⟩
    rw [hview.append, hview.append, hview.append]
    exact hspells.member hview owner ty.modifiers
  exact hfront.bind fun before hback => .pure hback

end Written

/-- It depends on the type that is written out, if there is one. -/
theorem spelling_of_base (hname : ∀ o, ty.base = .user o → Named E s o)
    (hwritten : ∀ o t, ty.base = .user o → s.inlined? o = .ok (some t) → s.Spelling E view ty) :
    s.Spelling E view ty := by
  cases hbase : ty.base with
  | fundamental id => exact spelling_fundamental hview hbase
  | user o =>
      cases hfound : s.inlined? o with
      | error e => exact spelling_error hbase hfound (hname o hbase)
      | ok found =>
          cases found with
          | none => exact spelling_named hview hbase hfound
          | some t => exact hwritten o t hbase hfound

/-- By induction on what is written out inside. -/
theorem spelling_of_acc (hP : Allowing E s P) (hacc : Acc (fun u t => s.Inlines t u) t) (ht : P t)
    (hbase : ty.base = .user o) (hfound : s.inlined? o = .ok (some t)) : s.Spelling E view ty := by
  induction hacc generalizing ty o with
  | intro t hpred ih =>
      have hacc : Acc (fun u t => s.Inlines t u) t := .intro t hpred
      have hnames := (hP.names t ht).uses
      have hspelling : ∀ ty' ∈ s.uses t, s.Spelling E view ty' := by
        intro ty' huse
        refine spelling_of_base hview (hnames ty' huse) fun o' u hbase' hfound' => ?_
        have hinlines : s.Inlines t u := ⟨ty', huse, o', hbase', hfound'⟩
        exact ih u hinlines (hP.closed t u ht hinlines) hbase' hfound'
      have hfits : ∀ ty' ∈ s.uses t, Fits E s s.writtenOut s.writtenOut ty' := by
        intro ty' huse
        refine fits_writtenOut hP (hnames ty' huse) (fun o' u hbase' hfound' => ?_)
          fun o' u hbase' hfound' => hpred u ⟨ty', huse, o', hbase', hfound'⟩
        exact hP.closed t u ht ⟨ty', huse, o', hbase', hfound'⟩
      cases t with
      | ofClass c => exact spelling_class hview hP hbase hfound ht hacc hfits
      | ofEnum e => exact spelling_enum hview hP hbase hfound ht hacc
      | ofArray a =>
          exact spelling_array hview hP hbase hfound ht hacc
            (hspelling a.element List.mem_cons_self)
      | ofRoutine r =>
          refine spelling_routine hview hP hbase hfound ht hacc (fun p hp => ?_)
            (hspelling r.returnType List.mem_cons_self)
          exact hfits p.type (List.mem_cons_of_mem _ (List.mem_map_of_mem hp))
      | ofMemberPointer p =>
          exact spelling_memberPointer hview hP hbase hfound ht hacc
            (hspelling p.type List.mem_cons_self)

/-- Every type is spelled, unless a name on the way cannot be had. -/
theorem spelling_of_finite (hP : Allowing E s P) (hname : ∀ o, ty.base = .user o → Named E s o)
    (hinlined : ∀ o t, ty.base = .user o → s.inlined? o = .ok (some t) → P t)
    (hfinite : s.Finite ty) : s.Spelling E view ty :=
  spelling_of_base hview hname fun o t hbase hfound =>
    spelling_of_acc hview hP (hfinite o t hbase hfound) (hinlined o t hbase hfound) hbase hfound

end Rules

end Source

end DwarfOne
