/-
# `Proofs.Payload.TypeEncoding` — modified types written and read back

A modified type is written from its outermost modifier inwards, each modifier after its
qualifiers, then the qualifiers of the base, then the base.  Where two qualifiers stand
together either may be the first.

The qualifiers of a modifier wait for it together, so all of them come back.  The base has
only the one in the last place: a type comes back whole unless its base is both constant and
volatile, and then it lacks the qualifier of the base that was written first, and nothing else.
-/
import DwarfOne.Proofs.Payload.Modifiers

namespace DwarfOne

/-! ## Writing -/

/-- The bytes of some qualifiers. -/
inductive QualifierBytes : Bool → Bool → List UInt8 → Prop
  | plain : QualifierBytes false false []
  | const : QualifierBytes true false [3]
  | volatile : QualifierBytes false true [4]
  | constFirst : QualifierBytes true true [3, 4]
  | volatileFirst : QualifierBytes true true [4, 3]

def ModifierKind.byte : ModifierKind → UInt8
  | .pointer => 1
  | .reference => 2

/-- The bytes of a modifier. -/
def Modifier.Writes (m : Modifier) (bytes : List UInt8) : Prop :=
  ∃ q, QualifierBytes m.isConst m.isVolatile q ∧ bytes = q ++ [m.kind.byte]

namespace BaseType

/-- The attribute that gives a modified type with this base. -/
def attributeName : BaseType → AttributeName
  | .fundamental _ => .modFundType
  | .user _ => .modUserDefType

def bytes (order : ByteOrder) : BaseType → List UInt8
  | .fundamental id => order.bytes 2 id.toNat
  | .user offset => order.bytes 4 offset.toNat

end BaseType

/-- The block of a modified type.  The bytes of the base's own qualifiers are `q`. -/
structure TypeRef.Writes (order : ByteOrder) (ty : TypeRef) (q block : List UInt8) : Prop where
  qualifies : QualifierBytes ty.isConst ty.isVolatile q
  block_eq : ∃ levels, List.Forall₂ Modifier.Writes ty.modifiers.reverse levels ∧
    block = levels.flatten ++ q ++ ty.base.bytes order

theorem exists_qualifierBytes (isConst isVolatile : Bool) :
    ∃ q, QualifierBytes isConst isVolatile q := by
  cases isConst with
  | false =>
      cases isVolatile with
      | false => exact ⟨_, .plain⟩
      | true => exact ⟨_, .volatile⟩
  | true =>
      cases isVolatile with
      | false => exact ⟨_, .const⟩
      | true => exact ⟨_, .constFirst⟩

theorem exists_levels (ms : List Modifier) :
    ∃ levels, List.Forall₂ Modifier.Writes ms levels := by
  induction ms with
  | nil => exact ⟨[], .nil⟩
  | cons m ms ih =>
      obtain ⟨levels, hlevels⟩ := ih
      obtain ⟨q, hq⟩ := exists_qualifierBytes m.isConst m.isVolatile
      exact ⟨_ :: levels, .cons ⟨q, hq, rfl⟩ hlevels⟩

theorem TypeRef.exists_writes (order : ByteOrder) (ty : TypeRef) :
    ∃ q block, ty.Writes order q block := by
  obtain ⟨q, hq⟩ := exists_qualifierBytes ty.isConst ty.isVolatile
  obtain ⟨levels, hlevels⟩ := exists_levels ty.modifiers.reverse
  exact ⟨q, _, hq, levels, hlevels, rfl⟩

/-! ## Reading back -/

section Qualifiers

variable {isConst isVolatile : Bool} {q : List UInt8}

theorem QualifierBytes.ofByte?_eq_none (h : QualifierBytes isConst isVolatile q) :
    ∀ b ∈ q, ModifierKind.ofByte? b = none := by
  have hmem : ∀ b ∈ q, b = 3 ∨ b = 4 := by cases h <;> simp
  intro b hb
  rcases hmem b hb with rfl | rfl
  · rfl
  · rfl

theorem QualifierBytes.mem_eq (h : QualifierBytes isConst isVolatile q) :
    decide (3 ∈ q) = isConst ∧ decide (4 ∈ q) = isVolatile := by
  cases h <;> decide

end Qualifiers

namespace TypeRef

variable {ty : TypeRef} {order : ByteOrder} {q block rest : List UInt8}

/-- Qualifiers wait for whatever follows. -/
theorem addModifiers_append_qualifiers (hq : ∀ b ∈ q, ModifierKind.ofByte? b = none)
    (hrest : rest ≠ []) (isConst isVolatile : Bool) :
    ty.addModifiers isConst isVolatile (q ++ rest) =
      ty.addModifiers (isConst || 3 ∈ q) (isVolatile || 4 ∈ q) rest := by
  induction q generalizing isConst isVolatile with
  | nil => simp
  | cons b q ih =>
      rw [List.cons_append, addModifiers_of_none (hq b List.mem_cons_self) (by simp [hrest]),
        ih fun b' hb' => hq b' (List.mem_cons_of_mem b hb')]
      congr 1
      · simp [Bool.or_assoc, eq_comm]
      · simp [Bool.or_assoc, eq_comm]

theorem addModifiers_append_modifier {m : Modifier} {bytes : List UInt8} (h : m.Writes bytes) :
    ty.addModifiers false false (bytes ++ rest) =
      { ty with modifiers := m :: ty.modifiers }.addModifiers false false rest := by
  obtain ⟨q, hq, rfl⟩ := h
  have hkind : ModifierKind.ofByte? m.kind.byte = some m.kind := by
    cases m.kind with
    | pointer => rfl
    | reference => rfl
  obtain ⟨hconst, hvolatile⟩ := hq.mem_eq
  rw [List.append_assoc, addModifiers_append_qualifiers hq.ofByte?_eq_none (by simp), hconst,
    hvolatile, List.singleton_append, addModifiers_of_kind hkind, Bool.false_or, Bool.false_or]

theorem addModifiers_append_modifiers {ms : List Modifier} {levels : List (List UInt8)}
    (h : List.Forall₂ Modifier.Writes ms levels) :
    ty.addModifiers false false (levels.flatten ++ rest) =
      { ty with modifiers := ms.reverse ++ ty.modifiers }.addModifiers false false rest := by
  induction h generalizing ty with
  | nil => rfl
  | cons hm _ ih =>
      rw [List.flatten_cons, List.append_assoc, addModifiers_append_modifier hm, ih]
      simp

/-- With nothing behind them, only the last one counts. -/
theorem addModifiers_qualifiers {isConst isVolatile : Bool}
    (h : QualifierBytes isConst isVolatile q) :
    ty.addModifiers false false q =
      { ty with isConst := ty.isConst || q.getLast? = some 3
                isVolatile := ty.isVolatile || q.getLast? = some 4 } := by
  cases h <;> simp [addModifiers]

theorem namesBase_attributeName (order : ByteOrder) (base : BaseType) :
    ∃ width number, NamesBase base.attributeName width number ∧
      (base.bytes order).length = width ∧ number (order.value (base.bytes order)) = base := by
  cases base with
  | fundamental id =>
      refine ⟨2, _, .fundamental, order.length_bytes 2 _, ?_⟩
      rw [BaseType.bytes, order.value_bytes id.toNat_lt, UInt16.ofNat_toNat]
  | user offset =>
      refine ⟨4, _, .user, order.length_bytes 4 _, ?_⟩
      rw [BaseType.bytes, order.value_bytes offset.toNat_lt, UInt32.ofNat_toNat]

/-- The type comes back, with the last qualifier of its base. -/
theorem decode_of_writes {a : Attribute} (h : ty.Writes order q block)
    (hname : a.name = ty.base.attributeName) (hvalue : a.value = .block block) :
    decode order a = .ok
      { ty with isConst := q.getLast? = some 3, isVolatile := q.getLast? = some 4 } := by
  obtain ⟨levels, hlevels, rfl⟩ := h.block_eq
  obtain ⟨width, number, hnames, hwidth, hbase⟩ := namesBase_attributeName order ty.base
  rw [← hname] at hnames
  rw [decode_of_block order hnames hvalue hwidth, hbase, withModifiers,
    addModifiers_append_modifiers hlevels, addModifiers_qualifiers h.qualifies]
  simp [ofBase]

/-- Every type can be written, and comes back as it was however that was done, except that a
base keeps the last of two qualifiers. -/
theorem decode_written (order : ByteOrder) (ty : TypeRef) :
    (∃ q block, ty.Writes order q block) ∧
      ∀ (q block : List UInt8) (a : Attribute), ty.Writes order q block →
        a.name = ty.base.attributeName → a.value = .block block →
          (¬ (ty.isConst = true ∧ ty.isVolatile = true) → decode order a = .ok ty) ∧
          (ty.isConst = true ∧ ty.isVolatile = true →
            q = [3, 4] ∧ decode order a = .ok { ty with isConst := false } ∨
            q = [4, 3] ∧ decode order a = .ok { ty with isVolatile := false }) := by
  refine ⟨ty.exists_writes order, ?_⟩
  intro q block a h hname hvalue
  rw [decode_of_writes h hname hvalue]
  obtain ⟨base, isConst, isVolatile, modifiers⟩ := ty
  have hqualifies : QualifierBytes isConst isVolatile q := h.qualifies
  cases hqualifies <;> simp

/-- A reference to a pointer with both qualifiers, to a constant. -/
def qualifiedPointer : TypeRef :=
  { base := .fundamental 2, isConst := true, isVolatile := false
    modifiers := [⟨.pointer, true, true⟩, ⟨.reference, false, false⟩] }

theorem decode_written_qualifiedPointer :
    qualifiedPointer.Writes .big [3] [2, 4, 3, 1, 3, 0, 2] ∧
      decode .big ⟨0, 0x63, .block [2, 4, 3, 1, 3, 0, 2]⟩ = .ok qualifiedPointer := by
  have hwrites : qualifiedPointer.Writes .big [3] [2, 4, 3, 1, 3, 0, 2] := by
    refine ⟨.const, [[2], [4, 3, 1]], .cons ⟨[], .plain, rfl⟩ ?_, ?_⟩
    · exact .cons ⟨[4, 3], .volatileFirst, rfl⟩ .nil
    · decide
  exact ⟨hwrites, ((decode_written .big qualifiedPointer).2 _ _ _ hwrites rfl rfl).1 (by decide)⟩

/-- A base with both qualifiers. -/
def constVolatile : TypeRef :=
  { base := .fundamental 7, isConst := true, isVolatile := true, modifiers := [] }

theorem constVolatile_notReadBack : constVolatile.Writes .big [3, 4] [3, 4, 0, 7] ∧
    decode .big ⟨0, 0x63, .block [3, 4, 0, 7]⟩ ≠ .ok constVolatile ∧
    decode .big ⟨0, 0x63, .block [3, 4, 0, 7]⟩ = .ok { constVolatile with isConst := false } := by
  refine ⟨⟨.constFirst, [], .nil, ?_⟩, ?_, ?_⟩
  · decide
  · decide
  · decide

end TypeRef

end DwarfOne
