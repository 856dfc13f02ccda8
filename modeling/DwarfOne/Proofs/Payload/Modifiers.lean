/-
# `Proofs.Payload.Modifiers` — what each modifier byte does

The bytes of a modified type are read from the first to the last, with the qualifiers that
wait for a pointer or a reference carried along.  What becomes of a byte is said here by its
place alone: `modifierPlaces` are the places that add a modifier, `Waits` tells which
qualifiers belong to such a place, and the base looks at the last byte only.

The induction goes along the bytes.  What waits at its start is either used up by the first
modifier or goes on waiting, so `Marks` says of a place what `Modifies` does, and in addition
what comes of the qualifiers that waited before the first byte.
-/
import DwarfOne.Payload.TypeRef
import DwarfOne.Proofs.Bytes.Order
import Mathlib.Data.List.Forall2

namespace DwarfOne

attribute [ext] TypeRef

/-- The kind of modifier that a byte adds, if it adds one. -/
def ModifierKind.ofByte? : UInt8 → Option ModifierKind
  | 1 => some .pointer
  | 2 => some .reference
  | _ => none

theorem ModifierKind.ofByte?_eq_none_iff {b : UInt8} : ofByte? b = none ↔ b ≠ 1 ∧ b ≠ 2 := by
  unfold ofByte?
  split <;> simp_all

namespace TypeRef

variable {ty : TypeRef} {isConst isVolatile : Bool} {b q : UInt8} {bytes : List UInt8} {k : Nat}
  {m : Modifier}

/-! ## One byte -/

theorem addModifiers_of_kind {kind : ModifierKind} (h : ModifierKind.ofByte? b = some kind) :
    ty.addModifiers isConst isVolatile (b :: bytes) =
      { ty with modifiers := ⟨kind, isConst, isVolatile⟩ :: ty.modifiers }.addModifiers
        false false bytes := by
  unfold ModifierKind.ofByte? at h
  split at h
  · cases h
    rw [addModifiers]
  · cases h
    rw [addModifiers]
  · cases h

theorem addModifiers_last (h : ModifierKind.ofByte? b = none) :
    ty.addModifiers isConst isVolatile [b] =
      { ty with isConst := ty.isConst || b = 3, isVolatile := ty.isVolatile || b = 4 } := by
  -- the equation for all other bytes needs these two among the hypotheses
  obtain ⟨hpointer, hreference⟩ := ModifierKind.ofByte?_eq_none_iff.mp h
  by_cases hconst : b = 3
  · subst hconst
    simp [addModifiers]
  by_cases hvolatile : b = 4
  · subst hvolatile
    simp [addModifiers]
  · simp [addModifiers, hconst, hvolatile]

theorem addModifiers_of_none (h : ModifierKind.ofByte? b = none) (hne : bytes ≠ []) :
    ty.addModifiers isConst isVolatile (b :: bytes) =
      ty.addModifiers (isConst || b = 3) (isVolatile || b = 4) bytes := by
  obtain ⟨hpointer, hreference⟩ := ModifierKind.ofByte?_eq_none_iff.mp h
  by_cases hconst : b = 3
  · subst hconst
    simp [addModifiers]
  by_cases hvolatile : b = 4
  · subst hvolatile
    simp [addModifiers]
  · simp [addModifiers, hconst, hvolatile]

/-- For the modifiers the last byte is like any other. -/
theorem modifiers_of_none (h : ModifierKind.ofByte? b = none) :
    (ty.addModifiers isConst isVolatile (b :: bytes)).modifiers =
      (ty.addModifiers (isConst || b = 3) (isVolatile || b = 4) bytes).modifiers := by
  cases bytes with
  | nil =>
      rw [addModifiers_last h]
      rfl
  | cons b' bytes => rw [addModifiers_of_none h (List.cons_ne_nil b' bytes)]

/-! ## The base -/

theorem base_addModifiers (ty : TypeRef) (isConst isVolatile : Bool) (bytes : List UInt8) :
    (ty.addModifiers isConst isVolatile bytes).base = ty.base ∧
    (ty.addModifiers isConst isVolatile bytes).isConst =
      (ty.isConst || bytes.getLast? = some 3) ∧
    (ty.addModifiers isConst isVolatile bytes).isVolatile =
      (ty.isVolatile || bytes.getLast? = some 4) := by
  induction bytes generalizing ty isConst isVolatile with
  | nil => simp [addModifiers]
  | cons b bytes ih =>
      cases hkind : ModifierKind.ofByte? b with
      | some kind =>
          rw [addModifiers_of_kind hkind]
          cases bytes with
          | nil =>
              have hconst : b ≠ 3 := by
                rintro rfl
                cases hkind
              have hvolatile : b ≠ 4 := by
                rintro rfl
                cases hkind
              simp [addModifiers, hconst, hvolatile]
          | cons b' bytes =>
              rw [List.getLast?_cons_cons]
              exact ih _ _ _
      | none =>
          cases bytes with
          | nil => simp [addModifiers_last hkind]
          | cons b' bytes =>
              rw [addModifiers_of_none hkind (List.cons_ne_nil b' bytes), List.getLast?_cons_cons]
              exact ih _ _ _

/-! ## Places -/

/-- The kind of modifier that the byte at a place adds, if it adds one. -/
def kindAt? (bytes : List UInt8) (k : Nat) : Option ModifierKind :=
  bytes[k]?.bind ModifierKind.ofByte?

/-- The places of the bytes that add a modifier, in order. -/
def modifierPlaces (bytes : List UInt8) : List Nat :=
  (List.range bytes.length).filter fun k => (kindAt? bytes k).isSome

/-- A byte is found before a place, and no modifier is added between the two. -/
def Waits (bytes : List UInt8) (k : Nat) (q : UInt8) : Prop :=
  ∃ j < k, bytes[j]? = some q ∧ ∀ i, j < i → i < k → kindAt? bytes i = none

/-- No modifier is added before a place. -/
def Clear (bytes : List UInt8) (k : Nat) : Prop :=
  ∀ i < k, kindAt? bytes i = none

/-- The modifier that the byte at a place adds. -/
structure Modifies (bytes : List UInt8) (k : Nat) (m : Modifier) : Prop where
  kind : kindAt? bytes k = some m.kind
  isConst : m.isConst = true ↔ Waits bytes k 3
  isVolatile : m.isVolatile = true ↔ Waits bytes k 4

/-- The same if qualifiers waited already before the first byte. -/
structure Marks (isConst isVolatile : Bool) (bytes : List UInt8) (k : Nat) (m : Modifier) :
    Prop where
  kind : kindAt? bytes k = some m.kind
  const : m.isConst = true ↔ Waits bytes k 3 ∨ isConst = true ∧ Clear bytes k
  volatile : m.isVolatile = true ↔ Waits bytes k 4 ∨ isVolatile = true ∧ Clear bytes k

theorem modifierPlaces_cons : modifierPlaces (b :: bytes) =
    (if (ModifierKind.ofByte? b).isSome then [0] else []) ++
      (modifierPlaces bytes).map Nat.succ := by
  rw [modifierPlaces, List.length_cons, List.range_succ_eq_map, List.filter_cons, List.filter_map]
  show (if (ModifierKind.ofByte? b).isSome then 0 :: (modifierPlaces bytes).map Nat.succ
    else (modifierPlaces bytes).map Nat.succ) = _
  split
  · rfl
  · rfl

theorem clear_succ :
    Clear (b :: bytes) (k + 1) ↔ ModifierKind.ofByte? b = none ∧ Clear bytes k := by
  constructor
  · intro h
    exact ⟨h 0 (Nat.succ_pos k), fun i hi => h (i + 1) (Nat.succ_lt_succ hi)⟩
  · rintro ⟨hb, h⟩ i hi
    cases i with
    | zero => exact hb
    | succ i => exact h i (Nat.lt_of_succ_lt_succ hi)

theorem waits_succ :
    Waits (b :: bytes) (k + 1) q ↔ Waits bytes k q ∨ b = q ∧ Clear bytes k := by
  constructor
  · rintro ⟨j, hj, hq, hbetween⟩
    cases j with
    | zero =>
        rw [List.getElem?_cons_zero, Option.some.injEq] at hq
        exact .inr ⟨hq, fun i hi =>
          hbetween (i + 1) (Nat.succ_pos i) (Nat.succ_lt_succ hi)⟩
    | succ j =>
        exact .inl ⟨j, Nat.lt_of_succ_lt_succ hj, hq, fun i hji hik =>
          hbetween (i + 1) (Nat.succ_lt_succ hji) (Nat.succ_lt_succ hik)⟩
  · rintro (⟨j, hj, hq, hbetween⟩ | ⟨rfl, hclear⟩)
    · refine ⟨j + 1, Nat.succ_lt_succ hj, hq, ?_⟩
      intro i hji hik
      cases i with
      | zero => exact absurd hji (Nat.not_lt_zero _)
      | succ i => exact hbetween i (Nat.lt_of_succ_lt_succ hji) (Nat.lt_of_succ_lt_succ hik)
    · refine ⟨0, Nat.succ_pos k, rfl, ?_⟩
      intro i hi hik
      cases i with
      | zero => exact absurd hi (Nat.lt_irrefl 0)
      | succ i => exact hclear i (Nat.lt_of_succ_lt_succ hik)

theorem not_waits_zero : ¬ Waits bytes 0 q := by
  rintro ⟨j, hj, -⟩
  exact absurd hj (Nat.not_lt_zero j)

/-- Past a pointer or reference nothing waits of what was before. -/
theorem Marks.after_kind {kind : ModifierKind} (hkind : ModifierKind.ofByte? b = some kind)
    (h : Marks false false bytes k m) : Marks isConst isVolatile (b :: bytes) (k + 1) m := by
  have hnot : ∀ q, ModifierKind.ofByte? q = none → b ≠ q := by
    rintro q hq rfl
    cases hkind.symm.trans hq
  have hclear : ¬ Clear (b :: bytes) (k + 1) := by
    intro hclear
    cases hkind.symm.trans (clear_succ.mp hclear).1
  constructor
  case kind => exact h.kind
  case const => simpa [waits_succ, hnot 3 rfl, hclear] using h.const
  case volatile => simpa [waits_succ, hnot 4 rfl, hclear] using h.volatile

/-- Any other byte is one more that may wait. -/
theorem Marks.after_none (hkind : ModifierKind.ofByte? b = none)
    (h : Marks (isConst || b = 3) (isVolatile || b = 4) bytes k m) :
    Marks isConst isVolatile (b :: bytes) (k + 1) m := by
  constructor
  case kind => exact h.kind
  case const =>
      rw [h.const, waits_succ, clear_succ]
      simp only [Bool.or_eq_true, decide_eq_true_eq, hkind, true_and]
      tauto
  case volatile =>
      rw [h.volatile, waits_succ, clear_succ]
      simp only [Bool.or_eq_true, decide_eq_true_eq, hkind, true_and]
      tauto

/-- The modifiers are those of the places, the last one first, before the ones there were. -/
theorem modifiers_addModifiers (ty : TypeRef) (isConst isVolatile : Bool) (bytes : List UInt8) :
    ∃ ms, (ty.addModifiers isConst isVolatile bytes).modifiers = ms.reverse ++ ty.modifiers ∧
      List.Forall₂ (Marks isConst isVolatile bytes) (modifierPlaces bytes) ms := by
  induction bytes generalizing ty isConst isVolatile with
  | nil => exact ⟨[], rfl, .nil⟩
  | cons b bytes ih =>
      rw [modifierPlaces_cons]
      -- a pointer or reference takes all that waits; the places behind it start anew
      cases hkind : ModifierKind.ofByte? b with
      | some kind =>
          obtain ⟨ms, hms, hmarks⟩ :=
            ih { ty with modifiers := ⟨kind, isConst, isVolatile⟩ :: ty.modifiers } false false
          refine ⟨⟨kind, isConst, isVolatile⟩ :: ms, ?_, .cons ⟨hkind, ?_, ?_⟩ ?_⟩
          · rw [addModifiers_of_kind hkind, hms, List.reverse_cons, List.append_assoc]
            rfl
          · simp [not_waits_zero, Clear]
          · simp [not_waits_zero, Clear]
          · exact List.forall₂_map_left_iff.mpr (hmarks.imp fun k m h => h.after_kind hkind)
      | none =>
          obtain ⟨ms, hms, hmarks⟩ := ih ty (isConst || b = 3) (isVolatile || b = 4)
          refine ⟨ms, ?_, ?_⟩
          · rw [modifiers_of_none hkind, hms]
          · exact List.forall₂_map_left_iff.mpr (hmarks.imp fun k m h => h.after_none hkind)

/-- What the bytes say of a type, place by place. -/
structure Interprets (base : BaseType) (bytes : List UInt8) (ty : TypeRef) : Prop where
  base_eq : ty.base = base
  modifiers : List.Forall₂ (Modifies bytes) (modifierPlaces bytes).reverse ty.modifiers
  isConst : ty.isConst = true ↔ bytes.getLast? = some 3
  isVolatile : ty.isVolatile = true ↔ bytes.getLast? = some 4

theorem interprets_withModifiers (base : BaseType) (bytes : List UInt8) :
    Interprets base bytes (withModifiers base bytes) := by
  obtain ⟨hbase, hconst, hvolatile⟩ := base_addModifiers (ofBase base) false false bytes
  obtain ⟨ms, hms, hmarks⟩ := modifiers_addModifiers (ofBase base) false false bytes
  constructor
  case base_eq => exact hbase
  case modifiers =>
      have hmodifies : List.Forall₂ (Modifies bytes) (modifierPlaces bytes) ms := by
        refine hmarks.imp fun k m h => ⟨h.kind, ?_, ?_⟩
        · simpa using h.const
        · simpa using h.volatile
      rw [withModifiers, hms, ofBase, List.append_nil]
      exact List.rel_reverse hmodifies
  case isConst =>
      rw [withModifiers, hconst]
      simp [ofBase]
  case isVolatile =>
      rw [withModifiers, hvolatile]
      simp [ofBase]

/-! ## Bytes that mean nothing -/

/-- A byte that is no modifier and no qualifier. -/
def Other (b : UInt8) : Prop :=
  b ≠ 1 ∧ b ≠ 2 ∧ b ≠ 3 ∧ b ≠ 4

theorem Other.ofByte?_eq_none (h : Other b) : ModifierKind.ofByte? b = none :=
  ModifierKind.ofByte?_eq_none_iff.mpr ⟨h.1, h.2.1⟩

/-- Before some other byte it could as well be left out. -/
theorem addModifiers_append_other (h : Other b) {r : List UInt8} (hr : r ≠ []) (l : List UInt8) :
    ty.addModifiers isConst isVolatile (l ++ b :: r) =
      ty.addModifiers isConst isVolatile (l ++ r) := by
  induction l generalizing ty isConst isVolatile with
  | nil =>
      obtain ⟨-, -, hconst, hvolatile⟩ := id h
      rw [List.nil_append, addModifiers_of_none h.ofByte?_eq_none hr]
      simp [hconst, hvolatile]
  | cons x l ih =>
      cases hkind : ModifierKind.ofByte? x with
      | some kind =>
          rw [List.cons_append, List.cons_append, addModifiers_of_kind hkind,
            addModifiers_of_kind hkind, ih]
      | none =>
          rw [List.cons_append, List.cons_append, addModifiers_of_none hkind (by simp),
            addModifiers_of_none hkind (by simp [hr]), ih]

/-- In the last place it leaves the modifiers alone. -/
theorem modifiers_append_other (h : Other b) (l : List UInt8) :
    (ty.addModifiers isConst isVolatile (l ++ [b])).modifiers =
      (ty.addModifiers isConst isVolatile l).modifiers := by
  induction l generalizing ty isConst isVolatile with
  | nil =>
      rw [List.nil_append, addModifiers_last h.ofByte?_eq_none]
      rfl
  | cons x l ih =>
      cases hkind : ModifierKind.ofByte? x with
      | some kind =>
          rw [List.cons_append, addModifiers_of_kind hkind, addModifiers_of_kind hkind, ih]
      | none => rw [List.cons_append, modifiers_of_none hkind, modifiers_of_none hkind, ih]

/-- Such a byte does nothing but, in the last place, keep another from being the last. -/
structure OthersIgnored (base : BaseType) : Prop where
  before : ∀ l r b, Other b → r ≠ [] →
    withModifiers base (l ++ b :: r) = withModifiers base (l ++ r)
  last : ∀ l b, Other b → withModifiers base (l ++ [b]) =
    { withModifiers base l with isConst := false, isVolatile := false }

theorem othersIgnored (base : BaseType) : OthersIgnored base := by
  constructor
  case before =>
      intro l r b hb hr
      exact addModifiers_append_other hb hr l
  case last =>
      intro l b hb
      obtain ⟨-, -, hconst, hvolatile⟩ := id hb
      obtain ⟨hbase, hisConst, hisVolatile⟩ :=
        base_addModifiers (ofBase base) false false (l ++ [b])
      ext1
      · exact hbase.trans (base_addModifiers (ofBase base) false false l).1.symm
      · rw [withModifiers, hisConst]
        simp [ofBase, hconst]
      · rw [withModifiers, hisVolatile]
        simp [ofBase, hvolatile]
      · exact modifiers_append_other hb l

/-! ## Attributes -/

/-- How many bytes an attribute of that name keeps for the base, and which base the number in
them stands for. -/
inductive NamesBase : AttributeName → Nat → (Nat → BaseType) → Prop
  | fundamental : NamesBase .modFundType 2 fun n => .fundamental (.ofNat n)
  | user : NamesBase .modUserDefType 4 fun n => .user (.ofNat n)

section Attributes

variable {a : Attribute} {width : Nat} {base : Nat → BaseType}

theorem decode_of_namesBase (order : ByteOrder) (h : NamesBase a.name width base) :
    decode order a = a.value.asBlock >>= decodeModified order width base := by
  unfold decode
  generalize a.name = given at h
  cases h with
  | fundamental => rfl
  | user => rfl

theorem decode_of_block (order : ByteOrder) (h : NamesBase a.name width base)
    {modifiers number : List UInt8} (hvalue : a.value = .block (modifiers ++ number))
    (hnumber : number.length = width) :
    decode order a = .ok (withModifiers (base (order.value number)) modifiers) := by
  have hsplit : (modifiers ++ number).length - width = modifiers.length := by
    rw [List.length_append, hnumber, Nat.add_sub_cancel]
  rw [decode_of_namesBase order h, hvalue]
  show decodeModified order width base (modifiers ++ number) = _
  rw [decodeModified, if_neg (by rw [List.length_append]; omega)]
  simp only [hsplit, List.drop_left, List.take_left]

theorem decode_of_short (order : ByteOrder) (h : NamesBase a.name width base)
    (hshort : ∀ block, a.value = .block block → block.length < width) :
    ∃ e, decode order a = .error e := by
  rw [decode_of_namesBase order h]
  cases hvalue : a.value with
  | block block => exact ⟨_, if_pos (hshort block hvalue)⟩
  | _ => exact ⟨_, rfl⟩

/-- What comes of an attribute that gives a modified type. -/
structure ReadsModified (order : ByteOrder) (a : Attribute) (width : Nat)
    (base : Nat → BaseType) : Prop where
  /-- It cannot be read exactly if it is no block, or one too short for the base. -/
  error_iff : (∃ e, decode order a = .error e) ↔
    ∀ block, a.value = .block block → block.length < width
  ok : ∀ modifiers number, a.value = .block (modifiers ++ number) → number.length = width →
    ∃ ty, decode order a = .ok ty ∧ Interprets (base (order.value number)) modifiers ty

/-- A modified type is read as its bytes say, place by place, whatever they are. -/
theorem readsModified_of_namesBase (order : ByteOrder) (h : NamesBase a.name width base) :
    ReadsModified order a width base ∧
      (∀ base bytes, Interprets base bytes (withModifiers base bytes)) ∧
      ∀ base, OthersIgnored base := by
  refine ⟨⟨⟨?_, decode_of_short order h⟩, ?_⟩, interprets_withModifiers, othersIgnored⟩
  · rintro ⟨e, he⟩ block hvalue
    by_contra hlong
    have hsplit := List.take_append_drop (block.length - width) block
    rw [← hsplit] at hvalue
    have hnumber : (block.drop (block.length - width)).length = width := by
      rw [List.length_drop]
      omega
    cases (decode_of_block order h hvalue hnumber).symm.trans he
  · intro modifiers number hvalue hnumber
    exact ⟨_, decode_of_block order h hvalue hnumber, interprets_withModifiers _ modifiers⟩

/-- A constant reference to a volatile pointer, with a byte that means nothing before the
reference and a last byte that makes the base constant. -/
def qualifiedReference : Attribute :=
  { offset := 0, rawName := 0x63, value := .block [3, 9, 2, 4, 1, 3, 0, 7] }

theorem readsModified_qualifiedReference :
    NamesBase qualifiedReference.name 2 (fun n => .fundamental (.ofNat n)) ∧
      ReadsModified .big qualifiedReference 2 fun n => .fundamental (.ofNat n) := by
  have hname : NamesBase qualifiedReference.name 2 fun n => .fundamental (.ofNat n) :=
    .fundamental
  exact ⟨hname, (readsModified_of_namesBase .big hname).1⟩

example : decode .big qualifiedReference = .ok
    { base := .fundamental 7, isConst := true, isVolatile := false
      modifiers := [⟨.pointer, false, true⟩, ⟨.reference, true, false⟩] } := by
  decide

end Attributes

end TypeRef

end DwarfOne
