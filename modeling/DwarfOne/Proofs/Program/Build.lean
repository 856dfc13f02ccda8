/-
# `Proofs.Program.Build` — what a step of the walk yields

`Yields x P` says that whatever the step `x` yields has the property `P`; a step
that stops at a dangling reference yields nothing.  The rules go through binds,
so a property of an entity is proved one attribute at a time: `yields_refine`
carries it along the attributes of a record, `yields_gather` collects what the
records below one yield.

`Gives x a ws` says all there is to say of a step that does not stop: whatever
is kept before it, it yields `a` and adds the warnings `ws`.
-/
import DwarfOne.Program.Build
import DwarfOne.Proofs.Program.Diagnostic

namespace DwarfOne
namespace Build

variable {α β : Type} {x : Build α} {P Q : α → Prop}

-- no instance: the rules below are about binds, which would be turned into maps
theorem lawfulMonad : LawfulMonad Build :=
  .mk' Build
    (fun x => by
      funext kept
      simp only [Functor.map]
      cases x kept with
      | error e => rfl
      | ok r => rfl)
    (fun a f => rfl)
    (fun x f g => by
      funext kept
      simp only [bind]
      cases x kept with
      | error e => rfl
      | ok r => rfl)

theorem foldlM_concat (step : β → α → Build β) (start : β) (items : List α) (last : α) :
    (items ++ [last]).foldlM step start = items.foldlM step start >>= (step · last) := by
  have hlawful := lawfulMonad
  simp [List.foldlM_append]

theorem bind_eq_ok_iff {f : α → Build β} {kept kept' : Diagnostics} {b : β} :
    (x >>= f) kept = .ok (b, kept') ↔
      ∃ a between, x kept = .ok (a, between) ∧ f a between = .ok (b, kept') := by
  simp only [bind]
  cases x kept with
  | error e => simp
  | ok r =>
      constructor
      · intro h
        exact ⟨r.1, r.2, rfl, h⟩
      · rintro ⟨a, between, hr, h⟩
        cases hr
        exact h

/-- Whatever the step yields has the property. -/
def Yields (x : Build α) (P : α → Prop) : Prop :=
  ∀ kept a kept', x kept = .ok (a, kept') → P a

@[simp] theorem yields_pure_iff {a : α} : Yields (pure a) P ↔ P a := by
  constructor
  · intro h
    exact h (.empty .default) a (.empty .default) rfl
  · intro h kept b kept' hb
    cases hb
    exact h

@[simp] theorem yields_bind {f : α → Build β} {R : β → Prop}
    (h : Yields x fun a => Yields (f a) R) : Yields (x >>= f) R := by
  intro kept b kept' hb
  obtain ⟨a, between, ha, hfa⟩ := bind_eq_ok_iff.mp hb
  exact h kept a between ha between b kept' hfa

@[simp] theorem yields_stop (e : DanglingReference) : Yields (stop e) P := by
  intro kept a kept' h
  cases h

theorem Yields.of_forall (h : ∀ a, P a) : Yields x P :=
  fun _ a _ _ => h a

@[simp] theorem yields_true : Yields x fun _ => True :=
  .of_forall fun _ => trivial

theorem Yields.mono (hx : Yields x P) (h : ∀ a, P a → Q a) : Yields x Q :=
  fun kept a kept' ha => h a (hx kept a kept' ha)

/-- A step that always finds something. -/
theorem Yields.found {g : α → β} {R : β → Prop} (h : Yields x fun a => R (g a)) :
    Yields (do return some (g (← x))) fun found => ∀ b ∈ found, R b :=
  yields_bind (h.mono fun a ha => yields_pure_iff.mpr fun b hb => by
    cases hb
    exact ha)

/-- What each attribute keeps, all of them keep. -/
theorem yields_refine {step : α → Attribute → Build α} :
    ∀ {attributes : List Attribute} {start : α}, P start →
      (∀ a, P a → ∀ b ∈ attributes, Yields (step a b) P) →
        Yields (refine step start attributes) P
  | [], _, hstart, _ => yields_pure_iff.mpr hstart
  | b :: rest, start, hstart, hstep => by
      refine yields_bind ((hstep start hstart b List.mem_cons_self).mono fun a ha => ?_)
      exact yields_refine ha fun a ha c hc => hstep a ha c (List.mem_cons_of_mem b hc)

/-- What is gathered comes from one of the items. -/
theorem yields_gather {step : α → Build (Option β)} {R : α → β → Prop} :
    ∀ {items : List α}, (∀ a ∈ items, Yields (step a) fun found => ∀ b ∈ found, R a b) →
      Yields (gather step items) fun bs => ∀ b ∈ bs, ∃ a ∈ items, R a b
  | [], _ => yields_pure_iff.mpr fun _ hb => absurd hb List.not_mem_nil
  | a :: rest, hstep => by
      refine yields_bind ((hstep a List.mem_cons_self).mono fun found hfound => ?_)
      refine yields_bind ((yields_gather fun c hc => hstep c (List.mem_cons_of_mem a hc)).mono
        fun others ho => ?_)
      refine yields_pure_iff.mpr fun b hb => ?_
      rcases List.mem_append.mp hb with hb | hb
      · exact ⟨a, List.mem_cons_self, hfound b (Option.mem_toList.mp hb)⟩
      · obtain ⟨c, hc, hR⟩ := ho b hb
        exact ⟨c, List.mem_cons_of_mem a hc, hR⟩

theorem yields_gather_forall {step : α → Build (Option β)} {P : β → Prop} {items : List α}
    (hstep : ∀ a ∈ items, Yields (step a) fun found => ∀ b ∈ found, P b) :
    Yields (gather step items) fun bs => ∀ b ∈ bs, P b :=
  (yields_gather hstep).mono fun _ hbs b hb =>
    let ⟨_, _, h⟩ := hbs b hb
    h

/-- A view of what is gathered, if the items alone decide it. -/
theorem yields_map_gather {γ : Type} {step : α → Build (Option β)} {view : β → γ}
    {expected : α → Option γ} :
    ∀ {items : List α}, (∀ a ∈ items, Yields (step a) fun found => found.map view = expected a) →
      Yields (gather step items) fun bs => bs.map view = items.filterMap expected
  | [], _ => yields_pure_iff.mpr rfl
  | a :: rest, hstep => by
      refine yields_bind ((hstep a List.mem_cons_self).mono fun found hfound => ?_)
      refine yields_bind ((yields_map_gather fun c hc => hstep c (List.mem_cons_of_mem a hc)).mono
        fun others ho => ?_)
      rw [yields_pure_iff, List.filterMap_cons, ← hfound, List.map_append, ho]
      cases found with
      | none => rfl
      | some b => rfl

/-! ## Steps that never stop -/

/-- The step yields the value and adds the warnings, whatever is kept before. -/
def Gives (x : Build α) (a : α) (ws : List Diagnostic) : Prop :=
  ∀ kept, x kept = .ok (a, kept.reportAll ws)

theorem gives_pure (a : α) : Gives (pure a) a [] :=
  fun _ => rfl

theorem gives_warn (w : Diagnostic) : Gives (warn w) () [w] :=
  fun _ => rfl

theorem Gives.bind {a : α} {ws ws' : List Diagnostic} {f : α → Build β} {b : β}
    (hx : Gives x a ws) (hf : Gives (f a) b ws') : Gives (x >>= f) b (ws ++ ws') := by
  intro kept
  rw [Diagnostics.reportAll_append]
  exact bind_eq_ok_iff.mpr ⟨a, _, hx kept, hf _⟩

theorem Gives.eq_of_ok {a b : α} {ws : List Diagnostic} (h : Gives x a ws)
    {kept kept' : Diagnostics} (hok : x kept = .ok (b, kept')) :
    b = a ∧ kept' = kept.reportAll ws := by
  rw [h kept] at hok
  cases hok
  exact ⟨rfl, rfl⟩

end Build

/-! ## Types that resolve -/

/-- A type whose base is fundamental, or described by a record that is there. -/
def TypeRef.Resolves (d : DebugInfo) (ty : TypeRef) : Prop :=
  (∃ id, ty.base = .fundamental id) ∨ ∃ offset place,
    ty.base = .user offset ∧ d.find? offset = some place

theorem TypeRef.resolves_integer (d : DebugInfo) : TypeRef.integer.Resolves d :=
  .inl ⟨_, rfl⟩

theorem TypeRef.resolves_void (d : DebugInfo) : TypeRef.void.Resolves d :=
  .inl ⟨_, rfl⟩

/-- A type given by an attribute resolves, or the walk stops. -/
theorem Entry.yields_type? (e : Entry) (a : Attribute) :
    Build.Yields (e.type? a) fun found => ∀ ty ∈ found, ty.Resolves e.debug := by
  refine Build.yields_bind (.of_forall fun found => ?_)
  cases found with
  | none => simp
  | some ty =>
      cases hbase : ty.base with
      | fundamental id =>
          have hoffset : ty.userOffset? = none := by rw [TypeRef.userOffset?, hbase]
          simp only [hoffset, Build.yields_pure_iff, Option.mem_some_iff]
          rintro _ rfl
          exact .inl ⟨id, hbase⟩
      | user offset =>
          have hoffset : ty.userOffset? = some offset := by rw [TypeRef.userOffset?, hbase]
          simp only [hoffset]
          split
          case isTrue => exact Build.yields_stop _
          case isFalse hfound =>
              obtain ⟨place, hplace⟩ : ∃ place, e.debug.find? offset = some place :=
                Option.ne_none_iff_exists'.mp (by simpa using hfound)
              simp only [Build.yields_pure_iff, Option.mem_some_iff]
              rintro _ rfl
              exact .inr ⟨offset, place, hbase, hplace⟩

/-- The same with something to fall back on. -/
theorem Entry.yields_type?_getD (e : Entry) (a : Attribute) {start : TypeRef}
    (hstart : start.Resolves e.debug) :
    Build.Yields (e.type? a) fun found => (found.getD start).Resolves e.debug := by
  refine (e.yields_type? a).mono fun found hfound => ?_
  cases found with
  | none => exact hstart
  | some ty => exact hfound ty rfl

end DwarfOne
