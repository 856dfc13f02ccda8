/-
# `Proofs.Program.Visits` — no record is dropped in silence

The walk goes from records to those inside them, and each kind of container has
its own idea of what may stand in it: `Container.role?`.  A record that is met
(`Visit`) either has a role there, and then it is in the value made of its
container, in its place among the others of that role; or it has none, and then
there is one warning about it.

Here is the walk by itself, and the rule for each of its steps; what is made of the
containers is in `Proofs.Program.Accounts`.

`Tells` goes along binds with what a step yields and the records it warns of.
Attributes add no such warnings, so only the dispatch on tags is looked into.
-/
import DwarfOne.Proofs.Program.LineEntries
import DwarfOne.Proofs.Record.Links
import Mathlib.Data.List.Forall2

namespace DwarfOne

/-! ## Containers -/

/-- Where records are met. -/
inductive Container
  | top
  | unit
  | classBody
  | routineType
  | function
  | block
  deriving DecidableEq, Repr

/-- What a record is to the container it is met in. -/
inductive Role
  | file
  | type
  | function
  | variable
  | member
  | base
  | typedef
  | parameter
  /-- More arguments may follow. -/
  | more
  | local
  /-- A block, for the variables in it. -/
  | block
  deriving DecidableEq, Repr

namespace Container

def unitRole? : Tag → Option Role
  | .classType | .structureType | .unionType | .enumerationType | .arrayType
  | .subroutineType | .pointerToMemberType => some .type
  | .subroutine | .globalSubroutine | .inlinedSubroutine => some .function
  | .globalVariable | .localVariable => some .variable
  | _ => none

def classRole? : Tag → Option Role
  | .member => some .member
  | .inheritance => some .base
  | .typedef => some .typedef
  | _ => none

def signatureRole? : Tag → Option Role
  | .formalParameter => some .parameter
  | .unspecifiedParameters => some .more
  | _ => none

def blockRole? : Tag → Option Role
  | .localVariable => some .local
  | .lexicalBlock => some .block
  | _ => none

/-- What a container takes a record with a tag for, if it accepts it. -/
def role? : Container → Tag → Option Role
  | top, tag => if tag = .compileUnit then some .file else none
  | unit, tag => unitRole? tag
  | classBody, tag => classRole? tag
  | routineType, tag => signatureRole? tag
  | function, tag => (blockRole? tag).or (signatureRole? tag)
  | block, tag => blockRole? tag

/-- The container that a type is, if the records inside it are walked. -/
def ofType? : Tag → Option Container
  | .classType | .structureType | .unionType => some classBody
  | .subroutineType => some routineType
  | _ => none

/-- The container that a record with a tag is itself, if the records inside it are
walked. -/
def inside? (c : Container) (tag : Tag) : Option Container :=
  match c.role? tag with
  | some .file => some unit
  | some .type => ofType? tag
  | some .function => some function
  | some .block => some block
  | _ => none

end Container

/-! ## Visits -/

/-- A record is met in a container.  On the topmost level there is no record
around it. -/
structure Visit where
  container : Container
  parent : Option Entry
  entry : Entry

namespace Visit

def role? (v : Visit) : Option Role :=
  v.container.role? v.entry.tag

/-- The warning about a record that has no role. -/
def warning (v : Visit) : Diagnostic where
  kind := .unknownEntry
  offset := v.entry.offset
  message := "Unknown child entry " ++ v.entry.describe ++ " at offset " ++
    Numeral.upperOffset v.entry.offset.toNat ++ " in parent entry " ++
    (v.parent.map Entry.describe).getD "(root)"

/-- The warnings about some visits. -/
def warnings (visits : List Visit) : List Diagnostic :=
  (visits.filter (·.role?.isNone)).map warning

/-- The local variables met. -/
def locals (visits : List Visit) : List Entry :=
  (visits.filter (·.role? = some .local)).map entry

theorem warnings_flatMap {α : Type} (items : List α) (visits : α → List Visit) :
    warnings (items.flatMap visits) = items.flatMap fun a => warnings (visits a) := by
  rw [warnings, List.filter_flatMap, List.map_flatMap]
  rfl

theorem locals_flatMap {α : Type} (items : List α) (visits : α → List Visit) :
    locals (items.flatMap visits) = items.flatMap fun a => locals (visits a) := by
  rw [locals, List.filter_flatMap, List.map_flatMap]
  rfl

end Visit

/-- A visit with those inside the record, given these for each container it may
itself be. -/
def Visit.subtree (v : Visit) (inner : Container → List Visit) : List Visit :=
  v :: ((v.container.inside? v.entry.tag).map inner).getD []

namespace Entry

/-- The visits inside a record, in the order of the walk, to a given depth. -/
def visitsTo : Nat → Container → Entry → List Visit
  | 0, _, _ => []
  | depth + 1, c, e =>
      e.children.flatMap fun x =>
        Visit.subtree { container := c, parent := some e, entry := x } fun c' => visitsTo depth c' x

/-- The visits inside a record, in the order of the walk. -/
def visits (e : Entry) (c : Container) : List Visit :=
  visitsTo e.debug.records.size c e

/-- The visits of some records and of those inside them. -/
def visitsAll (c : Container) (parent : Option Entry) (es : List Entry) : List Visit :=
  es.flatMap fun x => Visit.subtree { container := c, parent, entry := x } x.visits

/-- The records inside one that have a role there. -/
def playing (e : Entry) (c : Container) (r : Role) : List Entry :=
  e.children.filter (c.role? ·.tag = some r)

/-- Records stand after those they are inside of. -/
theorem place_lt_of_mem_children {e x : Entry} (hd : e.debug.WellLinked) (hx : x ∈ e.children) :
    e.place < x.place ∧ x.place < e.debug.records.size := by
  obtain ⟨-, hplace, -⟩ := mem_children_iff.mp hx
  refine ⟨?_, hd.lt_size_of_mem_children hplace⟩
  refine (hd.children e.place).1.forall_mem (P := (e.place < ·)) (fun i s hi hs => ?_)
    (fun i hi => ?_) x.place hplace
  · exact hi.trans (hd.sibling_lt i s hs).1
  · rw [(hd.firstChild_eq e.place i hi).1]
    exact Nat.lt_succ_self _

/-- A depth for every place from the record on is enough. -/
theorem visitsTo_succ : ∀ (depth : Nat) (c : Container) (e : Entry), e.debug.WellLinked →
    e.debug.records.size ≤ e.place + depth → visitsTo (depth + 1) c e = visitsTo depth c e
  | 0, c, e, hd, hdepth => by
      have hnone : e.children = [] := by
        rw [List.eq_nil_iff_forall_not_mem]
        intro x hx
        have hlt := place_lt_of_mem_children hd hx
        omega
      simp only [visitsTo, hnone, List.flatMap_nil]
  | depth + 1, c, e, hd, hdepth => by
      rw [visitsTo, visitsTo]
      refine List.flatMap_congr fun x hx => ?_
      have hlt := place_lt_of_mem_children hd hx
      have hdebug := debug_of_mem_children hx
      have hx : ∀ c', visitsTo (depth + 1) c' x = visitsTo depth c' x := fun c' =>
        visitsTo_succ depth c' x (by rwa [hdebug]) (by rw [hdebug]; omega)
      simp only [hx]

/-- The visits inside a record are those of the records inside it. -/
theorem visits_eq {e : Entry} (hd : e.debug.WellLinked) (c : Container) :
    e.visits c = visitsAll c (some e) e.children := by
  rw [visits, ← visitsTo_succ _ c e hd (Nat.le_add_left _ _), visitsTo]
  refine List.flatMap_congr fun x hx => ?_
  rw [← debug_of_mem_children hx]
  rfl

end Entry

/-- The records of the topmost level. -/
def DebugInfo.rootEntries (d : DebugInfo) : List Entry :=
  d.roots.map (Entry.mk d)

/-- All visits, in the order of the walk. -/
def DebugInfo.visits (d : DebugInfo) : List Visit :=
  Entry.visitsAll .top none (d.rootEntries.filter (!·.record.isPadding))

/-! ## Steps and the records they warn of -/

namespace Build

variable {α β : Type} {x : Build α}

/-- What the step yields, together with the warnings about records that it adds,
has the property. -/
def Tells (x : Build α) (P : α → List Diagnostic → Prop) : Prop :=
  ∀ kept a kept', x kept = .ok (a, kept') →
    ∃ ws, kept' = kept.reportAll ws ∧ P a (ws.filter (·.kind = .unknownEntry))

/-- The step can yield the value. -/
def Reads (x : Build α) (a : α) : Prop :=
  ∃ kept kept', x kept = .ok (a, kept')

theorem tells_pure {a : α} {P : α → List Diagnostic → Prop} (h : P a []) : Tells (pure a) P := by
  intro kept b kept' hb
  cases hb
  exact ⟨[], rfl, h⟩

theorem tells_bind {f : α → Build β} {P : β → List Diagnostic → Prop}
    (h : Tells x fun a ws => Tells (f a) fun b ws' => P b (ws ++ ws')) : Tells (x >>= f) P := by
  intro kept b kept' hb
  obtain ⟨a, between, ha, hfa⟩ := bind_eq_ok_iff.mp hb
  obtain ⟨ws, rfl, hf⟩ := h kept a between ha
  obtain ⟨ws', rfl, hP⟩ := hf _ b kept' hfa
  rw [← List.filter_append] at hP
  exact ⟨ws ++ ws', (Diagnostics.reportAll_append kept ws ws').symm, hP⟩

theorem Tells.mono {P Q : α → List Diagnostic → Prop} (hx : Tells x P)
    (h : ∀ a ws, P a ws → Q a ws) : Tells x Q := by
  intro kept a kept' ha
  obtain ⟨ws, hws, hP⟩ := hx kept a kept' ha
  exact ⟨ws, hws, h a _ hP⟩

/-- A step that only looks at attributes warns of no record. -/
theorem Blind.tells {P : α → Prop} (hx : Blind attributeKinds x) (hP : Yields x P) :
    Tells x fun a ws => (P a ∧ Reads x a) ∧ ws = [] := by
  intro kept a kept' ha
  rcases hx with ⟨e, he⟩ | ⟨b, ws, hgives, hws⟩
  · rw [he] at ha
    cases ha
  · obtain ⟨rfl, rfl⟩ := hgives.eq_of_ok ha
    refine ⟨ws, rfl, ⟨hP kept a _ ha, kept, _, ha⟩, ?_⟩
    rw [List.filter_eq_nil_iff]
    intro w hw hkind
    have hmem := hws w hw
    rw [of_decide_eq_true hkind] at hmem
    exact absurd hmem (by decide)

/-- After a look at the attributes the warnings are those of the rest. -/
theorem Blind.tells_bind {f : α → Build β} {P : α → Prop} {Q : β → List Diagnostic → Prop}
    (hx : Blind attributeKinds x) (hP : Yields x P) (hf : ∀ a, P a → Tells (f a) Q) :
    Tells (x >>= f) Q := by
  refine Build.tells_bind ((hx.tells hP).mono ?_)
  rintro a _ ⟨⟨ha, -⟩, rfl⟩
  exact hf a ha

/-- Each item that is accepted gives something, and the others nothing. -/
theorem tells_gather {step : α → Build (Option β)} {accepted : α → Bool} {Q : α → β → Prop}
    {told : α → List Diagnostic} : ∀ {items : List α},
      (∀ a ∈ items, Tells (step a) fun found ws => ws = told a ∧
        if accepted a then ∃ b, found = some b ∧ Q a b else found = none) →
      Tells (gather step items) fun bs ws =>
        List.Forall₂ Q (items.filter accepted) bs ∧ ws = items.flatMap told
  | [], _ => tells_pure ⟨.nil, rfl⟩
  | a :: rest, hstep => by
      refine tells_bind ((hstep a List.mem_cons_self).mono ?_)
      rintro found _ ⟨rfl, hfound⟩
      refine tells_bind ((tells_gather fun c hc => hstep c (List.mem_cons_of_mem a hc)).mono ?_)
      rintro others _ ⟨hothers, rfl⟩
      refine tells_pure ⟨?_, by simp⟩
      cases haccepted : accepted a with
      | true =>
          rw [haccepted, if_pos rfl] at hfound
          obtain ⟨b, rfl, hb⟩ := hfound
          rw [List.filter_cons_of_pos haccepted]
          exact .cons hb hothers
      | false =>
          rw [haccepted, if_neg Bool.false_ne_true] at hfound
          rw [hfound, List.filter_cons_of_neg (by simp [haccepted])]
          exact hothers

end Build

open Build

/-! ## Being met -/

/-- What comes of a visit: with a role the record is read into something, without
one there is a warning.  The warnings about records inside it follow. -/
def Visit.Met {β : Type} (v : Visit) (inner : Container → List Visit) (Q : β → Prop)
    (found : Option β) (ws : List Diagnostic) : Prop :=
  ws = warnings (v.subtree inner) ∧
    if v.role?.isSome then ∃ b, found = some b ∧ Q b else found = none

namespace Visit

/-- Nothing inside a record is walked if it has no role. -/
theorem subtree_of_role?_eq_none {v : Visit} (hrole : v.role? = none)
    (inner : Container → List Visit) : v.subtree inner = [v] := by
  have hinside : v.container.inside? v.entry.tag = none := by
    rw [Container.inside?, show v.container.role? v.entry.tag = none from hrole]
  rw [subtree, hinside]
  rfl

variable {α β : Type} {c : Container} {parent : Option Entry} {x : Entry}
  {inner : Container → List Visit} {Q : β → Prop}

/-- A record with a role adds no warning to those about the records inside. -/
theorem met_some (parent : Option Entry) (inner : Container → List Visit) {r : Role}
    (hrole : c.role? x.tag = some r) {b : β} (hb : Q b) :
    Met { container := c, parent, entry := x } inner Q (some b)
      (warnings (((c.inside? x.tag).map inner).getD [])) := by
  refine ⟨?_, ?_⟩
  · rw [subtree, warnings, warnings, List.filter_cons_of_neg (by simp [role?, hrole])]
  · rw [role?, hrole, if_pos Option.isSome_some]
    exact ⟨b, rfl, hb⟩

/-- A record whose inside is walked too. -/
theorem tells_read {r : Role} {c' : Container} (hrole : c.role? x.tag = some r)
    (hinside : c.inside? x.tag = some c') {read : Build α} {g : α → β}
    (hread : Tells read fun a ws => Q (g a) ∧ ws = warnings (inner c')) :
    Tells (do return some (g (← read))) (Met { container := c, parent, entry := x } inner Q) := by
  refine tells_bind (hread.mono ?_)
  rintro a _ ⟨ha, rfl⟩
  have hmet := met_some parent inner hrole ha
  rw [hinside] at hmet
  exact tells_pure (by rwa [List.append_nil])

/-- A record that is all there is to know by being there. -/
theorem tells_found {r : Role} (hrole : c.role? x.tag = some r)
    (hinside : c.inside? x.tag = none) {b : β} (hb : Q b) :
    Tells (pure (some b)) (Met { container := c, parent, entry := x } inner Q) := by
  have hmet := met_some parent inner hrole hb
  rw [hinside] at hmet
  exact tells_pure hmet

/-- A record whose inside is not walked. -/
theorem tells_leaf {r : Role} (hrole : c.role? x.tag = some r) (hinside : c.inside? x.tag = none)
    {read : Build α} {g : α → β} (hread : Tells read fun a ws => Q (g a) ∧ ws = []) :
    Tells (do return some (g (← read))) (Met { container := c, parent, entry := x } inner Q) := by
  refine tells_bind (hread.mono ?_)
  rintro a _ ⟨ha, rfl⟩
  exact tells_found hrole hinside ha

theorem tells_unknown (hrole : c.role? x.tag = none) (hpadding : x.record.isPadding = false)
    {text : String} (htext : (parent.map Entry.describe).getD "(root)" = text) :
    Tells (do x.unknown text; return none)
      (Met { container := c, parent, entry := x } inner Q) := by
  obtain ⟨v, hv⟩ : ∃ v : Visit, v = { container := c, parent, entry := x } := ⟨_, rfl⟩
  have hwarn : x.unknown text = .warn v.warning := by
    rw [Entry.unknown, hpadding, if_neg Bool.false_ne_true, hv, warning, htext]
  have hkind : v.warning.kind = .unknownEntry := rfl
  have hnone : v.role? = none := by
    rw [hv]
    exact hrole
  rw [hwarn, ← hv]
  intro kept found kept' hfound
  cases hfound
  refine ⟨[v.warning], rfl, ?_, ?_⟩
  · rw [subtree_of_role?_eq_none hnone]
    simp [warnings, hnone, hkind]
  · rw [hnone, if_neg (by simp)]

/-- What is read may be part of something else. -/
theorem tells_map {γ : Type} {v : Visit} {Q' : γ → Prop} {g : β → γ} {read : Build (Option β)}
    (hread : Tells read (v.Met inner Q)) (hg : ∀ b, Q b → Q' (g b)) :
    Tells (do return (← read).map g) (v.Met inner Q') := by
  refine tells_bind (hread.mono ?_)
  rintro found _ ⟨rfl, hfound⟩
  refine tells_pure ⟨List.append_nil _, ?_⟩
  cases hrole : v.role? with
  | none =>
      rw [hrole, if_neg (by simp)] at hfound
      rw [hfound, if_neg (by simp)]
      rfl
  | some r =>
      rw [hrole, if_pos Option.isSome_some] at hfound
      obtain ⟨b, rfl, hb⟩ := hfound
      rw [if_pos Option.isSome_some]
      exact ⟨g b, rfl, hg b hb⟩

end Visit

/-! ## The records inside one -/

namespace Entry

variable {e : Entry} {c : Container} {β γ : Type} {Q : Entry → β → Prop} {bs : List β}
  {inner : Entry → Container → List Visit}

/-- Of the records inside one, those with a role are read in order, and the
warnings are those about the visits. -/
theorem tells_children {step : Entry → Build (Option β)}
    (hstep : ∀ x ∈ e.children, Tells (step x)
      (Visit.Met { container := c, parent := some e, entry := x } (inner x) (Q x))) :
    Tells (gather step e.children) fun bs ws =>
      List.Forall₂ Q (e.children.filter fun x => (c.role? x.tag).isSome) bs ∧
        ws = Visit.warnings (e.children.flatMap fun x =>
          Visit.subtree { container := c, parent := some e, entry := x } (inner x)) := by
  rw [Visit.warnings_flatMap]
  exact tells_gather hstep

theorem tells_visits (hd : e.debug.WellLinked) {step : Entry → Build (Option β)}
    (hstep : ∀ x ∈ e.children, Tells (step x)
      (Visit.Met { container := c, parent := some e, entry := x } x.visits (Q x))) :
    Tells (gather step e.children) fun bs ws =>
      List.Forall₂ Q (e.children.filter fun x => (c.role? x.tag).isSome) bs ∧
        ws = Visit.warnings (e.visits c) := by
  rw [visits_eq hd]
  exact tells_children hstep

/-- What is picked of the parts of a container are those with one role. -/
theorem forall₂_playing {pick : β → Option γ} {R : Entry → γ → Prop} {r : Role}
    (h : List.Forall₂ Q (e.children.filter fun x => (c.role? x.tag).isSome) bs)
    (hpick : ∀ x b, Q x b →
      Option.Rel R (Option.guard (fun x => c.role? x.tag = some r) x) (pick b)) :
    List.Forall₂ R (e.playing c r) (bs.filterMap pick) := by
  have hplaying : e.playing c r = (e.children.filter fun x => (c.role? x.tag).isSome).filterMap
      (Option.guard fun x => c.role? x.tag = some r) := by
    rw [List.filterMap_eq_filter, List.filter_filter, playing]
    refine List.filter_congr fun x _ => ?_
    by_cases hrole : c.role? x.tag = some r
    · simp [hrole]
    · simp [hrole]
  rw [hplaying]
  exact List.rel_filterMap (fun x b => hpick x b) h

/-- What the parts of a container declare are the local variables met, if each part
declares those met with its own record. -/
theorem forall₂_locals {declared : β → List γ} {R : Entry → γ → Prop}
    (h : List.Forall₂ Q (e.children.filter fun x => (c.role? x.tag).isSome) bs)
    (hdeclared : ∀ x b, Q x b → List.Forall₂ R
      (Visit.locals (Visit.subtree { container := c, parent := some e, entry := x } (inner x)))
      (declared b)) :
    List.Forall₂ R (Visit.locals (e.children.flatMap fun x =>
      Visit.subtree { container := c, parent := some e, entry := x } (inner x)))
      (bs.flatMap declared) := by
  have hlocals : ∀ xs : List Entry, (xs.flatMap fun x => Visit.locals
        (Visit.subtree { container := c, parent := some e, entry := x } (inner x))) =
      (xs.filter fun x => (c.role? x.tag).isSome).flatMap fun x => Visit.locals
        (Visit.subtree { container := c, parent := some e, entry := x } (inner x)) := by
    intro xs
    induction xs with
    | nil => rfl
    | cons x xs ih =>
        cases hrole : c.role? x.tag with
        | none =>
            have hnone : Visit.role? { container := c, parent := some e, entry := x } = none :=
              hrole
            have hempty : Visit.locals (Visit.subtree
                { container := c, parent := some e, entry := x } (inner x)) = [] := by
              simp [Visit.subtree_of_role?_eq_none hnone, Visit.locals, hnone]
            simp [hrole, hempty, ih]
        | some r => simp [hrole, ih]
  rw [Visit.locals_flatMap, hlocals]
  exact List.rel_flatMap h fun x b => hdeclared x b

end Entry

end DwarfOne
