/-
# `Proofs.Record.Failure` — the two walks fail at the same place

The survey steps over payloads and looks at the bounds afterwards; the reading
walk looks before each read.  On a damaged section they may therefore tell the
missing bytes differently, but nothing else: they get to the same record and
there to the same attribute, and what stops them is of one kind.

`Frame.FailsAt` names the place within a record, `WalkFailsAt` the record.  Both
are about the readers themselves, and `survey_eq_error_iff` and
`readAll_eq_error_iff` say that there is no other way to fail.
-/
import DwarfOne.Proofs.Bytes.Failure
import DwarfOne.Proofs.Record.Assembly

namespace DwarfOne

open Reader

/-- Errors of one kind.  Only what is said of missing bytes may differ. -/
inductive DebugError.Alike : DebugError → DebugError → Prop
  | same (e : DebugError) : Alike e e
  | truncated (cause cause' : OutOfBounds) : Alike (.truncated cause) (.truncated cause')

/-! ## One attribute -/

namespace Attribute

variable {α β : Type} {c c' : Cursor} {e e' : DebugError}

/-- What can be wrong with an attribute whose payload is taken in some way: the
bytes of its name, its form, or the bytes of the payload. -/
inductive Broken (payload : Form → Reader OutOfBounds α) (c : Cursor) : DebugError → Prop
  | name {cause : OutOfBounds} :
      Reader.half.on c = .error cause → Broken payload c (.truncated cause)
  | form {rawName : UInt16} {c' : Cursor} {e : DebugError} :
      Reader.half c = .ok rawName c' → knownForm rawName c.offset = .error e →
        Broken payload c e
  | value {rawName : UInt16} {c' : Cursor} {form : Form} {cause : OutOfBounds} :
      Reader.half c = .ok rawName c' → knownForm rawName c.offset = .ok form →
        (payload form).on c' = .error cause → Broken payload c (.truncated cause)

/-- However the payload is taken, an attribute is broken in one way only. -/
theorem Broken.alike {payload : Form → Reader OutOfBounds α}
    {payload' : Form → Reader OutOfBounds β} (h : Broken payload c e) (h' : Broken payload' c e') :
    e.Alike e' := by
  cases h with
  | @name cause hname =>
      cases h' with
      | name => exact .truncated _ _
      | form hname' => exact absurd hname' (ne_ok_of_on_eq_error hname)
      | value => exact .truncated _ _
  | form hname hform =>
      cases h' with
      | name hname' => exact absurd hname (ne_ok_of_on_eq_error hname')
      | form hname' hform' =>
          rw [hname] at hname'
          cases hname'
          rw [hform] at hform'
          cases hform'
          exact .same _
      | value hname' hform' =>
          rw [hname] at hname'
          cases hname'
          rw [hform] at hform'
          cases hform'
  | value hname hform =>
      cases h' with
      | name => exact .truncated _ _
      | form hname' hform' =>
          rw [hname] at hname'
          cases hname'
          rw [hform] at hform'
          cases hform'
      | value => exact .truncated _ _

/-- The part that both ways of taking an attribute have in common. -/
theorem broken_of_error (payload : Form → Reader OutOfBounds α)
    (finish : UInt16 → Form → Reader DebugError β)
    (hfinish : ∀ rawName form c e, (finish rawName form).on c = .error e →
      ∃ cause, (payload form).on c = .error cause ∧ e = .truncated cause)
    (h : ((liftM Reader.half : Reader DebugError UInt16) >>= fun rawName =>
      (liftM (knownForm rawName c.offset) : Reader DebugError Form) >>= finish rawName).on c =
        .error e) :
    Broken payload c e := by
  rcases bind_on_eq_error_iff.mp h with hname | ⟨rawName, c₁, hname, hrest⟩
  · obtain ⟨cause, hcause, rfl⟩ := mapError_on_eq_error_iff.mp hname
    exact .name hcause
  · have hhalf := mapError_eq_ok_iff.mp hname
    rcases bind_on_eq_error_iff.mp hrest with hform | ⟨form, c₂, hform, hvalue⟩
    · exact .form hhalf (lift_on_eq_error_iff.mp hform)
    · obtain ⟨hknown, rfl⟩ := lift_eq_ok_iff.mp hform
      obtain ⟨cause, hcause, rfl⟩ := hfinish rawName form _ e hvalue
      exact .value hhalf hknown hcause

theorem broken_of_skip (h : skip.on c = .error e) : Broken skipValue c e := by
  refine broken_of_error skipValue (fun _ form => liftM (skipValue form)) ?_ h
  intro _ form c e hvalue
  obtain ⟨cause, hcause, rfl⟩ := mapError_on_eq_error_iff.mp hvalue
  exact ⟨cause, hcause, rfl⟩

theorem broken_of_read (h : read.on c = .error e) : Broken AttributeValue.read c e := by
  refine broken_of_error AttributeValue.read (fun rawName form =>
    (liftM (AttributeValue.read form) : Reader DebugError AttributeValue) >>= fun value =>
      pure (Attribute.mk (UInt32.ofNat c.offset) rawName value)) ?_ h
  intro rawName form c₁ e hvalue
  rcases bind_on_eq_error_iff.mp hvalue with hread | ⟨value, c₂, -, hpure⟩
  · obtain ⟨cause, hcause, rfl⟩ := mapError_on_eq_error_iff.mp hread
    exact ⟨cause, hcause, rfl⟩
  · cases hpure

/-- Stepping over an attribute gets as far as reading it does. -/
theorem skip_eq_ok_iff (hw : c.Within) : skip c = .ok () c' ↔ ∃ a, read c = .ok a c' := by
  rw [accepts_skip c rfl hw]
  constructor
  · rintro ⟨p, hp, ⟨a, ha, -⟩, hc'⟩
    exact ⟨a, (accepts_read c rfl hw a c').mpr ⟨p, hp, ha, hc'⟩⟩
  · rintro ⟨a, ha⟩
    obtain ⟨p, hp, hspans, hc'⟩ := (accepts_read c rfl hw a c').mp ha
    exact ⟨p, hp, ⟨a, hspans, rfl⟩, hc'⟩

theorem exists_error_iff (hw : c.Within) :
    (∃ e, skip.on c = .error e) ↔ ∃ e, read.on c = .error e := by
  constructor
  · rintro ⟨e, hskip⟩
    cases hread : read c with
    | error e' c₁ => exact ⟨e', on_of_error hread⟩
    | ok a c₁ => exact absurd ((skip_eq_ok_iff hw).mpr ⟨a, hread⟩) (ne_ok_of_on_eq_error hskip)
  · rintro ⟨e, hread⟩
    cases hskip : skip c with
    | error e' c₁ => exact ⟨e', on_of_error hskip⟩
    | ok u c₁ =>
        obtain ⟨a, ha⟩ := (skip_eq_ok_iff hw).mp hskip
        exact absurd ha (ne_ok_of_on_eq_error hread)

theorem accepts_skipOrEnd {order : ByteOrder} : AcceptsUntil (itemOrEnd skip) order 1
    (fun offset p u => ∃ a, Spans order offset p a ∧ (fun _ => ()) a = u) :=
  accepts_skip.untilEnd fun ⟨_, h, _⟩ => h.ne_nil

theorem accepts_readOrEnd {order : ByteOrder} :
    AcceptsUntil (itemOrEnd read) order 1 (Spans order) :=
  accepts_read.untilEnd Spans.ne_nil

/-- As many attributes are stepped over as are read, over the same bytes. -/
theorem reaches_skip_iff (hw : c.Within) {n : Nat} :
    Reaches (itemOrEnd skip) n c c' ↔ Reaches (itemOrEnd read) n c c' := by
  constructor
  · intro h
    refine accepts_skipOrEnd.reaches_of_imp (fun c c' u _ hw hu => ?_) h rfl hw
    obtain ⟨hend, hskip⟩ := itemOrEnd_eq_some_iff.mp hu
    obtain ⟨a, ha⟩ := (skip_eq_ok_iff hw).mp hskip
    exact ⟨a, itemOrEnd_eq_some_iff.mpr ⟨hend, ha⟩⟩
  · intro h
    refine accepts_readOrEnd.reaches_of_imp (fun c c' a _ hw ha => ?_) h rfl hw
    obtain ⟨hend, hread⟩ := itemOrEnd_eq_some_iff.mp ha
    exact ⟨(), itemOrEnd_eq_some_iff.mpr ⟨hend, (skip_eq_ok_iff hw).mpr ⟨a, hread⟩⟩⟩

/-- The two fail after the same number of attributes. -/
theorem exists_failsAfter_iff (hw : c.Within) {n : Nat} :
    (∃ e, FailsAfter (itemOrEnd skip) n c e) ↔ ∃ e, FailsAfter (itemOrEnd read) n c e := by
  constructor
  · rintro ⟨e, c', hreach, hfail⟩
    obtain ⟨hend, hskip⟩ := itemOrEnd_on_eq_error_iff.mp hfail
    have hw' := (accepts_skipOrEnd.add_length_le hreach rfl hw).2.1
    obtain ⟨e', hread⟩ := (exists_error_iff hw').mp ⟨e, hskip⟩
    exact ⟨e', c', (reaches_skip_iff hw).mp hreach, itemOrEnd_on_eq_error_iff.mpr ⟨hend, hread⟩⟩
  · rintro ⟨e, c', hreach, hfail⟩
    obtain ⟨hend, hread⟩ := itemOrEnd_on_eq_error_iff.mp hfail
    have hw' := (accepts_readOrEnd.add_length_le hreach rfl hw).2.1
    obtain ⟨e', hskip⟩ := (exists_error_iff hw').mpr ⟨e, hread⟩
    exact ⟨e', c', (reaches_skip_iff hw).mpr hreach, itemOrEnd_on_eq_error_iff.mpr ⟨hend, hskip⟩⟩

theorem alike_of_failsAfter (hw : c.Within) {n : Nat} (h : FailsAfter (itemOrEnd skip) n c e)
    (h' : FailsAfter (itemOrEnd read) n c e') : e.Alike e' := by
  obtain ⟨c₁, hreach, hfail⟩ := h
  obtain ⟨c₂, hreach', hfail'⟩ := h'
  cases ((reaches_skip_iff hw).mp hreach).unique hreach'
  have hskip := (itemOrEnd_on_eq_error_iff.mp hfail).2
  have hread := (itemOrEnd_on_eq_error_iff.mp hfail').2
  exact (broken_of_skip hskip).alike (broken_of_read hread)

end Attribute

/-! ## One record -/

namespace Frame

variable {α β : Type} {c : Cursor} {e e' : DebugError}

/-- What stops a walk at the record ahead: the record's header, or the attribute
with a number. -/
inductive FailsAt (item : Reader DebugError α) (c : Cursor) : Option Nat → DebugError → Prop
  | header {e : DebugError} : next?.on c = .error e → FailsAt item c none e
  | body {f : Frame} {c' : Cursor} {j : Nat} {e : DebugError} :
      next? c = .ok (some f) c' → f.hasAttributes = true →
        FailsAfter (itemOrEnd item) j f.body e → FailsAt item c (some j) e

/-- The attributes of a frame, taken one by one. -/
def items (item : Reader DebugError α) (f : Frame) : Except DebugError (List α) :=
  if f.hasAttributes then (toEnd item).on f.body else .ok []

theorem count_eq (f : Frame) : f.count = (f.items Attribute.skip).map List.length := by
  rw [count, items]
  split
  · rfl
  · rfl

theorem read_eq (f : Frame) :
    f.read = (f.items Attribute.read).map
      (RawRecord.mk (UInt32.ofNat f.start) f.length (Tag.ofValue f.tag)) := by
  rw [read, items]
  split
  · rfl
  · rfl

theorem map_eq_error_iff {x : Except DebugError α} {f : α → β} :
    x.map f = .error e ↔ x = .error e := by
  cases x with
  | error e' => simp [Except.map]
  | ok a => exact ⟨nofun, nofun⟩

/-- One record taken whole: the frame is cut off and something made of it. -/
def each (make : Frame → Except DebugError β) : Reader DebugError (Option β) := do
  match ← next? with
  | none => return none
  | some frame => return some (← make frame)

theorem each_on_eq_error_iff {make : Frame → Except DebugError β} :
    (each make).on c = .error e ↔
      next?.on c = .error e ∨ ∃ f c', next? c = .ok (some f) c' ∧ make f = .error e := by
  rw [each, bind_on_eq_error_iff]
  refine or_congr Iff.rfl ?_
  constructor
  · rintro ⟨none | f, c', hnext, hfail⟩
    · cases hfail
    · rcases bind_on_eq_error_iff.mp hfail with hmake | ⟨b, c'', -, hpure⟩
      · exact ⟨f, c', hnext, lift_on_eq_error_iff.mp hmake⟩
      · cases hpure
  · rintro ⟨f, c', hnext, hmake⟩
    refine ⟨some f, c', hnext, ?_⟩
    exact bind_on_eq_error_iff.mpr (.inl (lift_on_eq_error_iff.mpr hmake))

/-- A record cannot be taken exactly if its header or one of its attributes
cannot. -/
theorem exists_failsAt_iff {item : Reader DebugError α} {F : Format α}
    (finish : Frame → List α → β) (h : item.Accepts c.order F)
    (hne : ∀ {offset p a}, F offset p a → p ≠ []) (hw : c.Within) :
    (each fun f => (f.items item).map (finish f)).on c = .error e ↔ ∃ j, FailsAt item c j e := by
  have hitems : ∀ {f : Frame} {c' : Cursor}, next? c = .ok (some f) c' →
      (f.items item = .error e ↔
        f.hasAttributes = true ∧ ∃ j, FailsAfter (itemOrEnd item) j f.body e) := by
    intro f c' hnext
    obtain ⟨hfits, rfl, -⟩ := (next?_eq_some_iff hw).mp hnext
    rw [items]
    split
    case isTrue hattr =>
        have horder : (ahead c).body.order = c.order := rfl
        rw [h.toEnd_on_eq_error_iff hne horder (ahead_body_within hw hfits hattr)]
        exact ⟨fun hj => ⟨hattr, hj⟩, fun hj => hj.2⟩
    case isFalse hattr => exact ⟨nofun, fun hj => absurd hj.1 hattr⟩
  rw [each_on_eq_error_iff]
  constructor
  · rintro (hnext | ⟨f, c', hnext, hmake⟩)
    · exact ⟨none, .header hnext⟩
    · obtain ⟨hattr, j, hj⟩ := (hitems hnext).mp (map_eq_error_iff.mp hmake)
      exact ⟨some j, .body hnext hattr hj⟩
  · rintro ⟨j, hfail⟩
    cases hfail with
    | header hnext => exact .inl hnext
    | @body f c' j _ hnext hattr hj =>
        exact .inr ⟨f, c', hnext, map_eq_error_iff.mpr ((hitems hnext).mpr ⟨hattr, j, hj⟩)⟩

theorem exists_failsAt_skip_iff (hw : c.Within) {j : Option Nat} :
    (∃ e, FailsAt Attribute.skip c j e) ↔ ∃ e, FailsAt Attribute.read c j e := by
  constructor
  · rintro ⟨e, hnext | ⟨hnext, hattr, hfail⟩⟩
    · exact ⟨e, .header hnext⟩
    · obtain ⟨hfits, rfl, -⟩ := (next?_eq_some_iff hw).mp hnext
      obtain ⟨e', hfail'⟩ :=
        (Attribute.exists_failsAfter_iff (ahead_body_within hw hfits hattr)).mp ⟨e, hfail⟩
      exact ⟨e', .body hnext hattr hfail'⟩
  · rintro ⟨e, hnext | ⟨hnext, hattr, hfail⟩⟩
    · exact ⟨e, .header hnext⟩
    · obtain ⟨hfits, rfl, -⟩ := (next?_eq_some_iff hw).mp hnext
      obtain ⟨e', hfail'⟩ :=
        (Attribute.exists_failsAfter_iff (ahead_body_within hw hfits hattr)).mpr ⟨e, hfail⟩
      exact ⟨e', .body hnext hattr hfail'⟩

theorem alike_of_failsAt (hw : c.Within) {j : Option Nat} (h : FailsAt Attribute.skip c j e)
    (h' : FailsAt Attribute.read c j e') : e.Alike e' := by
  cases h with
  | header hnext =>
      cases h' with
      | header hnext' =>
          rw [hnext] at hnext'
          cases hnext'
          exact .same _
  | body hnext hattr hfail =>
      cases h' with
      | body hnext' _ hfail' =>
          rw [hnext] at hnext'
          cases hnext'
          obtain ⟨hfits, rfl, -⟩ := (next?_eq_some_iff hw).mp hnext
          exact Attribute.alike_of_failsAfter (ahead_body_within hw hfits hattr) hfail hfail'

end Frame

/-! ## The section -/

namespace RawRecord

variable {c : Cursor} {e : DebugError}

theorem count?_on_eq_error_iff (hw : c.Within) :
    count?.on c = .error e ↔ ∃ j, Frame.FailsAt Attribute.skip c j e := by
  rw [← Frame.exists_failsAt_iff (fun _ => List.length) Attribute.accepts_skip
    (fun ⟨_, h, _⟩ => h.ne_nil) hw]
  simp only [← Frame.count_eq]
  rfl

theorem read?_on_eq_error_iff (hw : c.Within) :
    read?.on c = .error e ↔ ∃ j, Frame.FailsAt Attribute.read c j e := by
  rw [← Frame.exists_failsAt_iff
    (fun f => RawRecord.mk (UInt32.ofNat f.start) f.length (Tag.ofValue f.tag))
    Attribute.accepts_read Attribute.Spans.ne_nil hw]
  simp only [← Frame.read_eq]
  rfl

/-- As many records are counted as are read, over the same bytes. -/
theorem reaches_count?_iff {c' : Cursor} (hw : c.Within) {n : Nat} :
    Reaches count? n c c' ↔ Reaches read? n c c' := by
  constructor
  · intro h
    refine accepts_count?.reaches_of_imp (fun c c' m _ hw hm => ?_) h rfl hw
    obtain ⟨y, hy, hsome⟩ := (count?_eq_ok_iff hw).mp hm
    obtain ⟨r, rfl, -⟩ := Option.map_eq_some_iff.mp hsome
    exact ⟨r, hy⟩
  · intro h
    refine accepts_read?.reaches_of_imp (fun c c' r _ hw hr => ?_) h rfl hw
    exact ⟨r.attributes.length, (count?_eq_ok_iff hw).mpr ⟨some r, hr, rfl⟩⟩

end RawRecord

section Section

variable {α β : Type} (order : ByteOrder) (bytes : List UInt8)

/-- A walk that takes records one way and their attributes another gets to
record `i` of the section and fails there, at the header or at an attribute. -/
def WalkFailsAt (record : Reader DebugError (Option α)) (item : Reader DebugError β)
    (i : Nat) (j : Option Nat) (e : DebugError) : Prop :=
  ∃ c, Reaches record i (.ofBytes order bytes 0) c ∧ Frame.FailsAt item c j e

/-- The survey fails at record `i`. -/
def SurveyFailsAt : Nat → Option Nat → DebugError → Prop :=
  WalkFailsAt order bytes RawRecord.count? Attribute.skip

/-- The reading walk fails at record `i`. -/
def ReadingFailsAt : Nat → Option Nat → DebugError → Prop :=
  WalkFailsAt order bytes RawRecord.read? Attribute.read

variable {order bytes} {e : DebugError}

/-- A walk fails exactly when it gets to a record and fails there. -/
theorem collect_on_eq_error_iff {record : Reader DebugError (Option α)}
    {item : Reader DebugError β} {least : Nat} {F : Format α}
    (h : AcceptsUntil record order least F)
    (hrecord : ∀ c : Cursor, c.Within → (record.on c = .error e ↔ ∃ j, Frame.FailsAt item c j e)) :
    (collect record).on (.ofBytes order bytes 0) = .error e ↔
      ∃ i j, WalkFailsAt order bytes record item i j e := by
  have hw : (Cursor.ofBytes order bytes 0).Within := Nat.zero_le _
  rw [h.collect_on_eq_error_iff_failsAfter rfl hw]
  constructor
  · rintro ⟨i, c, hreach, hfail⟩
    have hw' := (h.add_length_le hreach rfl hw).2.1
    obtain ⟨j, hj⟩ := (hrecord c hw').mp hfail
    exact ⟨i, j, c, hreach, hj⟩
  · rintro ⟨i, j, c, hreach, hj⟩
    have hw' := (h.add_length_le hreach rfl hw).2.1
    exact ⟨i, c, hreach, (hrecord c hw').mpr ⟨j, hj⟩⟩

theorem survey_eq_error_iff :
    survey order bytes = .error e ↔ ∃ i j, SurveyFailsAt order bytes i j e :=
  collect_on_eq_error_iff RawRecord.accepts_count? fun _ => RawRecord.count?_on_eq_error_iff

theorem readAll_eq_error_iff :
    RawRecord.readAll order bytes = .error e ↔ ∃ i j, ReadingFailsAt order bytes i j e :=
  collect_on_eq_error_iff RawRecord.accepts_read? fun _ => RawRecord.read?_on_eq_error_iff

/-- The survey and the reading walk fail at the same places. -/
theorem exists_surveyFailsAt_iff {i : Nat} {j : Option Nat} :
    (∃ e, SurveyFailsAt order bytes i j e) ↔ ∃ e, ReadingFailsAt order bytes i j e := by
  have hw : (Cursor.ofBytes order bytes 0).Within := Nat.zero_le _
  constructor
  · rintro ⟨e, c, hreach, hfail⟩
    have hw' := (RawRecord.accepts_count?.add_length_le hreach rfl hw).2.1
    obtain ⟨e', hfail'⟩ := (Frame.exists_failsAt_skip_iff hw').mp ⟨e, hfail⟩
    exact ⟨e', c, (RawRecord.reaches_count?_iff hw).mp hreach, hfail'⟩
  · rintro ⟨e, c, hreach, hfail⟩
    have hw' := (RawRecord.accepts_read?.add_length_le hreach rfl hw).2.1
    obtain ⟨e', hfail'⟩ := (Frame.exists_failsAt_skip_iff hw').mpr ⟨e, hfail⟩
    exact ⟨e', c, (RawRecord.reaches_count?_iff hw).mpr hreach, hfail'⟩

theorem alike_of_walkFailsAt {i : Nat} {j : Option Nat} {e' : DebugError}
    (h : SurveyFailsAt order bytes i j e) (h' : ReadingFailsAt order bytes i j e') :
    e.Alike e' := by
  have hw : (Cursor.ofBytes order bytes 0).Within := Nat.zero_le _
  obtain ⟨c, hreach, hfail⟩ := h
  obtain ⟨c', hreach', hfail'⟩ := h'
  have hw' := (RawRecord.accepts_count?.add_length_le hreach rfl hw).2.1
  cases ((RawRecord.reaches_count?_iff hw).mp hreach).unique hreach'
  exact Frame.alike_of_failsAt hw' hfail hfail'

end Section

/-! ## Both walks -/

namespace DebugInfo

variable {order : ByteOrder} {bytes : List UInt8} {e : DebugError}

/-- The number of records and the number of their attributes. -/
def tally (order : ByteOrder) (bytes : List UInt8) : Except DebugError (Nat × Nat) :=
  (survey order bytes).map fun ns => (ns.length, ns.sum)

theorem length_arena (rs : List RawRecord) :
    (arena rs).length = (rs.map fun r => r.attributes.length).sum :=
  List.length_flatMap

theorem tally_eq_ok_iff {n m : Nat} :
    tally order bytes = .ok (n, m) ↔
      ∃ rs, RawRecord.readAll order bytes = .ok rs ∧ rs.length = n ∧ (arena rs).length = m := by
  have hmap : tally order bytes = .ok (n, m) ↔
      ∃ ns, survey order bytes = .ok ns ∧ ns.length = n ∧ ns.sum = m := by
    rw [tally]
    cases survey order bytes with
    | error e => exact ⟨nofun, nofun⟩
    | ok ns => simp [Except.map]
  rw [hmap]
  constructor
  · rintro ⟨ns, hns, rfl, rfl⟩
    obtain ⟨rs, hrs, rfl⟩ := survey_eq_ok_iff.mp hns
    exact ⟨rs, hrs, by rw [List.length_map], length_arena rs⟩
  · rintro ⟨rs, hrs, rfl, rfl⟩
    exact ⟨_, survey_eq_ok_iff.mpr ⟨rs, hrs, rfl⟩, by rw [List.length_map],
      (length_arena rs).symm⟩

/-- A section that cannot be decoded cannot be surveyed, unless the fault is in
the line tables. -/
theorem decode_eq_error_iff {line : Option (List UInt8)} :
    decode order bytes line = .error e ↔
      survey order bytes = .error e ∨
        (∃ ns, survey order bytes = .ok ns) ∧ lineTablesOf order line = .error e := by
  cases hsurvey : survey order bytes with
  | error e' =>
      have hdecode : decode order bytes line = .error e' := by
        simp only [decode, hsurvey]
        rfl
      rw [hdecode]
      constructor
      · intro h
        cases h
        exact .inl rfl
      · rintro (h | ⟨⟨ns, h⟩, -⟩)
        · cases h
          rfl
        · cases h
  | ok ns =>
      obtain ⟨rs, hrs, -⟩ := survey_eq_ok_iff.mp hsurvey
      rw [decode_of_readAll hrs]
      constructor
      · intro h
        exact .inr ⟨⟨ns, rfl⟩, Frame.map_eq_error_iff.mp h⟩
      · rintro (h | ⟨-, h⟩)
        · cases h
        · exact Frame.map_eq_error_iff.mpr h

/-- The survey and the reading walk agree on a section. -/
structure WalksAgree (order : ByteOrder) (bytes : List UInt8) : Prop where
  /-- What is counted is what is read. -/
  tally_iff : ∀ n m, tally order bytes = .ok (n, m) ↔
    ∃ rs, RawRecord.readAll order bytes = .ok rs ∧ rs.length = n ∧ (arena rs).length = m
  /-- Each fails at some record and attribute, and in no other way. -/
  survey_iff : ∀ e, survey order bytes = .error e ↔ ∃ i j, SurveyFailsAt order bytes i j e
  reading_iff : ∀ e, RawRecord.readAll order bytes = .error e ↔
    ∃ i j, ReadingFailsAt order bytes i j e
  /-- They fail at the same record and attribute. -/
  place : ∀ i j, (∃ e, SurveyFailsAt order bytes i j e) ↔ ∃ e, ReadingFailsAt order bytes i j e
  /-- What stops one stops the other. -/
  alike : ∀ i j e e', SurveyFailsAt order bytes i j e → ReadingFailsAt order bytes i j e' →
    e.Alike e'
  /-- Decoding never fails in the reading walk. -/
  decode_iff : ∀ line e, decode order bytes line = .error e ↔
    survey order bytes = .error e ∨
      (∃ ns, survey order bytes = .ok ns) ∧ lineTablesOf order line = .error e

/-- Every section is surveyed just as it is read. -/
theorem walksAgree (order : ByteOrder) (bytes : List UInt8) : WalksAgree order bytes where
  tally_iff _ _ := tally_eq_ok_iff
  survey_iff _ := survey_eq_error_iff
  reading_iff _ := readAll_eq_error_iff
  place _ _ := exists_surveyFailsAt_iff
  alike _ _ _ _ := alike_of_walkFailsAt
  decode_iff _ _ := decode_eq_error_iff

/-- Where a word is cut short the survey counts the bytes that are missing, the
reading walk those it wants. -/
example :
    survey .big [0, 0, 0, 10, 0, 7, 0, 0x66, 1, 2] = .error (.truncated ⟨10, 2⟩) ∧
      RawRecord.readAll .big [0, 0, 0, 10, 0, 7, 0, 0x66, 1, 2] =
        .error (.truncated ⟨8, 4⟩) := by
  decide

end DebugInfo
end DwarfOne
