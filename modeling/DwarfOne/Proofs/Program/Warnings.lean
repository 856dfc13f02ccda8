/-
# `Proofs.Program.Warnings` — warnings do not decide what is built

Every step of the walk is handed the warnings kept so far, so each could look at
them and go another way when some kind is off or the limit is reached.  None
does.  `Blind kinds x` says so of a step: whatever is kept before it, it stops at
the same reference, or yields the same value and adds the same warnings, all of
these kinds.  The rules go through binds, and the readers follow attribute by
attribute.  Attributes are warned of as attributes, records also as records, and
lines by neither; only the last pass does that.

So a run with any settings is a run with all kinds shown and no limit, of whose
warnings the settings let some through (`build_eq_throttled`).
-/
import DwarfOne.Proofs.Program.Passes

namespace DwarfOne
namespace Build

variable {α β : Type} {x : Build α} {kinds kinds' : List DiagnosticKind}

/-! ## Blind steps -/

/-- What is kept before the step makes no difference to it.  It warns of these
kinds only. -/
def Blind (kinds : List DiagnosticKind) (x : Build α) : Prop :=
  (∃ e, ∀ kept, x kept = .error e) ∨ ∃ a ws, Gives x a ws ∧ ∀ w ∈ ws, w.kind ∈ kinds

/-- The kinds of warnings that attributes give rise to. -/
def attributeKinds : List DiagnosticKind := [.unknownAttribute, .unrecognizedLocation]

/-- The kinds of warnings that records give rise to. -/
def recordKinds : List DiagnosticKind := .unknownEntry :: attributeKinds

@[simp] theorem blind_pure (a : α) : Blind kinds (pure a) :=
  .inr ⟨a, [], gives_pure a, fun _ hw => absurd hw List.not_mem_nil⟩

@[simp] theorem blind_stop (e : DanglingReference) : Blind kinds (stop e : Build α) :=
  .inl ⟨e, fun _ => rfl⟩

@[simp] theorem blind_warn {w : Diagnostic} (hw : w.kind ∈ kinds) : Blind kinds (warn w) := by
  refine .inr ⟨(), [w], gives_warn w, fun w' hw' => ?_⟩
  rw [List.mem_singleton.mp hw']
  exact hw

theorem Blind.mono (hx : Blind kinds x) (h : kinds ⊆ kinds') : Blind kinds' x :=
  hx.imp_right fun ⟨a, ws, hgives, hws⟩ => ⟨a, ws, hgives, fun w hw => h (hws w hw)⟩

/-- A record is warned of in every way its attributes are. -/
theorem Blind.ofRecord (hx : Blind attributeKinds x) : Blind recordKinds x :=
  hx.mono (List.subset_cons_self _ _)

theorem bind_of_error {f : α → Build β} {e : DanglingReference} {kept : Diagnostics}
    (hx : x kept = .error e) : (x >>= f) kept = .error e := by
  simp only [bind, hx]

@[simp] theorem Blind.bind {f : α → Build β} (hx : Blind kinds x) (hf : ∀ a, Blind kinds (f a)) :
    Blind kinds (x >>= f) := by
  rcases hx with ⟨e, he⟩ | ⟨a, ws, hgives, hws⟩
  · exact .inl ⟨e, fun kept => bind_of_error (he kept)⟩
  · rcases hf a with ⟨e, he⟩ | ⟨b, ws', hgives', hws'⟩
    · refine .inl ⟨e, fun kept => ?_⟩
      simp only [Bind.bind, hgives kept]
      exact he _
    · refine .inr ⟨b, ws ++ ws', hgives.bind hgives', fun w hw => ?_⟩
      rcases List.mem_append.mp hw with hw | hw
      · exact hws w hw
      · exact hws' w hw

theorem blind_refine {step : α → Attribute → Build α} (hstep : ∀ a b, Blind kinds (step a b)) :
    ∀ (start : α) (attributes : List Attribute), Blind kinds (refine step start attributes)
  | start, [] => blind_pure start
  | start, b :: rest => (hstep start b).bind fun a => blind_refine hstep a rest

theorem blind_gather {step : α → Build (Option β)} (hstep : ∀ a, Blind kinds (step a)) :
    ∀ items : List α, Blind kinds (gather step items)
  | [] => blind_pure []
  | a :: rest =>
      (hstep a).bind fun _ => (blind_gather hstep rest).bind fun _ => blind_pure _

end Build

open Build

/-! ## Values of attributes -/

namespace Entry

variable (e : Entry) (a : Attribute)

@[simp] theorem blind_unknown (parent : String) : Blind recordKinds (e.unknown parent) := by
  unfold unknown
  split <;> simp [recordKinds]

@[simp] theorem blind_unknownAttribute : Blind attributeKinds (e.unknownAttribute a) := by
  unfold unknownAttribute
  split <;> simp [attributeKinds]

@[simp] theorem blind_decoded {α : Type} (result : Except PayloadError α) :
    Blind attributeKinds (e.decoded a result) := by
  cases result with
  | ok value => exact blind_pure (some value)
  | error cause => exact (blind_warn (by simp [attributeKinds])).bind fun _ => blind_pure none

@[simp] theorem blind_text? : Blind attributeKinds (e.text? a) :=
  e.blind_decoded a _

@[simp] theorem blind_text : Blind attributeKinds (e.text a) :=
  (e.blind_text? a).bind fun _ => blind_pure _

@[simp] theorem blind_number? : Blind attributeKinds (e.number? a) :=
  e.blind_decoded a _

@[simp] theorem blind_offset? : Blind attributeKinds (e.offset? a) :=
  e.blind_decoded a _

@[simp] theorem blind_block? {α : Type}
    (decode : ByteOrder → List UInt8 → Except PayloadError α) :
    Blind attributeKinds (e.block? a decode) :=
  e.blind_decoded a _

/-- A reference that leads nowhere stops the walk whatever has been warned of. -/
@[simp] theorem blind_type? : Blind attributeKinds (e.type? a) := by
  refine (e.blind_decoded a _).bind fun found => ?_
  cases found with
  | none => exact blind_pure none
  | some ty =>
      cases hoffset : ty.userOffset? with
      | none => simp [hoffset]
      | some offset =>
          simp only [hoffset]
          split <;> simp

@[simp] theorem blind_location? : Blind attributeKinds (e.location? a) := by
  refine (e.blind_block? a _).bind fun found => ?_
  dsimp only
  split <;> simp [attributeKinds]

end Entry

/-! ## Types -/

theorem Member.blind_addAttribute (e : Entry) (m : Member) (a : Attribute) :
    Blind attributeKinds (addAttribute e m a) := by
  unfold addAttribute
  cases a.name with
  | location =>
      refine (e.blind_location? a).bind fun location => ?_
      split <;> simp
  | _ => simp

theorem Member.blind_ofEntry (kind : ClassKind) (e : Entry) :
    Blind attributeKinds (ofEntry kind e) :=
  blind_refine (blind_addAttribute e) _ _

theorem Base.blind_addAttribute (e : Entry) (b : Base) (a : Attribute) :
    Blind attributeKinds (addAttribute e b a) := by
  unfold addAttribute
  cases a.name with
  | _ => simp

theorem Base.blind_ofEntry (kind : ClassKind) (e : Entry) :
    Blind attributeKinds (ofEntry kind e) :=
  blind_refine (blind_addAttribute e) _ _

theorem Typedef.blind_addAttribute (e : Entry) (t : Typedef) (a : Attribute) :
    Blind attributeKinds (addAttribute e t a) := by
  unfold addAttribute
  cases a.name with
  | _ => simp

theorem Typedef.blind_ofEntry (e : Entry) : Blind attributeKinds (ofEntry e) :=
  blind_refine (blind_addAttribute e) _ _

theorem ClassPart.blind_ofEntry (kind : ClassKind) (parent e : Entry) :
    Blind recordKinds (ofEntry kind parent e) := by
  have hmember := (Member.blind_ofEntry kind e).ofRecord
  have hbase := (Base.blind_ofEntry kind e).ofRecord
  have htypedef := (Typedef.blind_ofEntry e).ofRecord
  unfold ofEntry
  split
  all_goals simp [hmember, hbase, htypedef]

theorem ClassType.blind_addAttribute (e : Entry) (c : ClassType) (a : Attribute) :
    Blind attributeKinds (addAttribute e c a) := by
  unfold addAttribute
  cases a.name with
  | _ => simp

@[simp] theorem ClassType.blind_ofEntry (kind : ClassKind) (e : Entry) :
    Blind recordKinds (ofEntry kind e) :=
  (blind_refine (blind_addAttribute e) _ _).ofRecord.bind fun _ =>
    (blind_gather (ClassPart.blind_ofEntry kind e) _).bind fun _ => blind_pure _

theorem EnumType.blind_addAttribute (e : Entry) (t : EnumType) (a : Attribute) :
    Blind attributeKinds (addAttribute e t a) := by
  unfold addAttribute
  cases a.name with
  | _ => simp

theorem EnumType.blind_ofEntry (e : Entry) : Blind attributeKinds (ofEntry e) :=
  blind_refine (blind_addAttribute e) _ _

theorem ArrayType.blind_addAttribute (e : Entry) (t : ArrayType) (a : Attribute) :
    Blind attributeKinds (addAttribute e t a) := by
  unfold addAttribute
  cases a.name with
  | subscrData =>
      refine (e.blind_block? a _).bind fun found => ?_
      cases found with
      | none => exact blind_pure t
      | some data => exact blind_pure _
  | _ => simp

theorem ArrayType.blind_ofEntry (e : Entry) : Blind attributeKinds (ofEntry e) :=
  blind_refine (blind_addAttribute e) _ _

theorem MemberPointerType.blind_addAttribute (e : Entry) (t : MemberPointerType) (a : Attribute) :
    Blind attributeKinds (addAttribute e t a) := by
  unfold addAttribute
  cases a.name with
  | _ => simp

theorem MemberPointerType.blind_ofEntry (e : Entry) : Blind attributeKinds (ofEntry e) :=
  blind_refine (blind_addAttribute e) _ _

/-! ## Routines and variables -/

theorem Local.blind_addAttribute (e : Entry) (l : Local) (a : Attribute) :
    Blind attributeKinds (addAttribute e l a) := by
  unfold addAttribute
  cases a.name with
  | _ => simp

theorem Local.blind_ofEntry (e : Entry) : Blind attributeKinds (ofEntry e) :=
  blind_refine (blind_addAttribute e) _ _

@[simp] theorem SignaturePart.blind_ofEntry (parent e : Entry) :
    Blind recordKinds (ofEntry parent e) := by
  have hparameter := (Local.blind_ofEntry e).ofRecord
  unfold ofEntry
  split <;> simp [hparameter]

theorem RoutineType.blind_addAttribute (e : Entry) (t : RoutineType) (a : Attribute) :
    Blind attributeKinds (addAttribute e t a) := by
  unfold addAttribute
  cases a.name with
  | _ => simp

@[simp] theorem RoutineType.blind_ofEntry (e : Entry) : Blind recordKinds (ofEntry e) :=
  (blind_refine (blind_addAttribute e) _ _).ofRecord.bind fun _ =>
    (blind_gather (SignaturePart.blind_ofEntry e) _).bind fun _ => blind_pure _

theorem blind_checkBlockAttribute (e : Entry) (a : Attribute) :
    Blind attributeKinds (checkBlockAttribute e a) := by
  unfold checkBlockAttribute
  cases a.name with
  | _ => simp

/-- Blocks inside a block are read as it is, so the induction is on the fuel. -/
@[simp] theorem blind_blockLocals : ∀ (fuel : Nat) (block : Entry),
    Blind recordKinds (blockLocals fuel block)
  | 0, _ => blind_pure []
  | fuel + 1, block => by
      have hattributes := blind_refine (fun _ a => blind_checkBlockAttribute block a) ()
        block.attributes
      refine hattributes.ofRecord.bind fun _ => ?_
      refine (blind_gather (fun e => ?_) _).bind fun _ => blind_pure _
      have hvariable := (Local.blind_ofEntry e).ofRecord
      have hblock := blind_blockLocals fuel e
      split <;> simp [hvariable, hblock]

theorem FunctionPart.blind_ofEntry (parent e : Entry) : Blind recordKinds (ofEntry parent e) := by
  have hvariable := (Local.blind_ofEntry e).ofRecord
  unfold ofEntry
  split <;> simp [hvariable]

theorem Function.blind_addAttribute (e : Entry) (f : Function) (a : Attribute) :
    Blind attributeKinds (addAttribute e f a) := by
  unfold addAttribute
  cases a.name with
  | _ => simp

@[simp] theorem Function.blind_ofEntry (e : Entry) : Blind recordKinds (ofEntry e) :=
  (blind_refine (blind_addAttribute e) _ _).ofRecord.bind fun _ =>
    (blind_gather (FunctionPart.blind_ofEntry e) _).bind fun _ => blind_pure _

theorem Variable.blind_addAttribute (e : Entry) (v : Variable) (a : Attribute) :
    Blind attributeKinds (addAttribute e v a) := by
  unfold addAttribute
  cases a.name with
  | location =>
      refine (e.blind_location? a).bind fun location => ?_
      split <;> simp
  | _ => simp

theorem Variable.blind_ofEntry (e : Entry) : Blind attributeKinds (ofEntry e) :=
  blind_refine (blind_addAttribute e) _ _

/-! ## Units -/

theorem UnitPart.blind_ofEntry (parent e : Entry) : Blind recordKinds (ofEntry parent e) := by
  have henum := (EnumType.blind_ofEntry e).ofRecord
  have harray := (ArrayType.blind_ofEntry e).ofRecord
  have hpointer := (MemberPointerType.blind_ofEntry e).ofRecord
  have hvariable := (Variable.blind_ofEntry e).ofRecord
  unfold ofEntry
  cases e.tag with
  | _ => simp [henum, harray, hpointer, hvariable]

theorem File.blind_addAttribute (e : Entry) (f : File) (a : Attribute) :
    Blind attributeKinds (addAttribute e f a) := by
  unfold addAttribute
  cases a.name with
  | _ => simp

@[simp] theorem CompileUnit.blind_ofEntry (e : Entry) : Blind recordKinds (ofEntry e) :=
  (blind_refine (File.blind_addAttribute e) _ _).ofRecord.bind fun _ =>
    (blind_gather (UnitPart.blind_ofEntry e) _).bind fun _ => blind_pure _

theorem CompileUnit.blind_ofRoot (e : Entry) : Blind recordKinds (ofRoot e) := by
  unfold ofRoot
  split <;> simp

/-! ## The whole walk -/

namespace Program

theorem blind_readUnits (d : DebugInfo) : Blind recordKinds (readUnits d) :=
  (blind_gather CompileUnit.blind_ofRoot _).bind fun _ => blind_pure _

/-- The walk stops at a reference, or gives a program and adds first warnings
that are not about lines, then those of the two passes. -/
theorem walk_cases [RangeMap UInt32] (d : DebugInfo) :
    (∃ e, ∀ kept, walk d kept = .error e) ∨
      ∃ units linked p ws, Passed d units linked p ∧
        (walk d).Gives p (ws ++ ((entered d units).unlinked (entered d units).memberLinks ++
          linked.settled.flatMap linked.outsideOf)) ∧
        ∀ w ∈ ws, w.kind ≠ .unrecognizedLine := by
  rcases blind_readUnits d with ⟨e, he⟩ | ⟨read, ws, hread, hws⟩
  · exact .inl ⟨e, fun kept => bind_of_error (he kept)⟩
  · obtain ⟨units, hgather, rfl⟩ := readUnits_eq_ok_iff.mp (hread (.empty .everything))
    obtain ⟨linked, p, hlinks, hlines, hpassed⟩ :=
      exists_gives_passes (exists_readFrom_of_gather hgather)
    refine .inr ⟨units, linked, p, ws, hpassed, hread.bind (hlinks.bind hlines),
      fun w hw hline => ?_⟩
    have hkind := hws w hw
    rw [hline] at hkind
    exact absurd hkind (by decide)

/-- Warnings have no say in what is built.  Whatever the settings, building stops
where it stops with everything shown, or gives the same program; and of all the
warnings there are, those of an enabled kind are kept up to the limit.  So it is
with any warnings that come one after another. -/
theorem build_eq_throttled [RangeMap UInt32] (d : DebugInfo) (settings : DiagnosticSettings) :
    (build d settings = (build d .everything).map fun r =>
      (r.1, .throttled settings r.2.reported.toList)) ∧
    ∀ events : List Diagnostic,
      events.foldl Diagnostics.report (.empty settings) = .throttled settings events := by
  refine ⟨?_, Diagnostics.reportAll_empty settings⟩
  rcases walk_cases d with ⟨e, he⟩ | ⟨_, _, p, ws, -, hgives, -⟩
  · rw [build, build, he, he]
    rfl
  · rw [build, build, hgives, hgives, Diagnostics.reportAll_empty settings, Except.map,
      Diagnostics.reported_reportAll_everything]

end Program
end DwarfOne
