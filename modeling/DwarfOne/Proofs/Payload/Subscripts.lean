/-
# `Proofs.Payload.Subscripts` — the blocks that are subscript data

Subscript data is one item after another, and nothing else is accepted: `SubscriptItem.Spans`
is the grammar of an item, and the reader of an item accepts exactly that.  What an item takes
depends on its format byte in three places at once, so the formats follow the reader part by
part: the index type, the two bounds, the element type.

Whatever comes out of a block can be written again (`exists_spans_iff`).
-/
import DwarfOne.Payload.Subscript
import DwarfOne.Proofs.Payload.Location
import DwarfOne.Proofs.Payload.TypeEncoding
import DwarfOne.Proofs.Record.Encoding

namespace DwarfOne

open Reader

/-! ## The grammar -/

/-- The bytes of an index type. -/
inductive TypeRef.Indexes (order : ByteOrder) : Bool → List UInt8 → TypeRef → Prop
  | fundamental (id : UInt16) : Indexes order false (order.bytes 2 id.toNat) (.fundamental id)
  | user (offset : UInt32) : Indexes order true (order.bytes 4 offset.toNat) (.user offset)

/-- The bytes of a bound, which may be computed: then they are a location after its length. -/
inductive Bound.Spans (order : ByteOrder) : Bool → List UInt8 → Bound → Prop
  | constant (n : UInt32) : Spans order false (order.bytes 4 n.toNat) (.constant n)
  | location {block : List UInt8} {location : Location} (hlength : block.length < 2 ^ 16)
      (hblock : Location.decode order block = .ok location) :
      Spans order true (order.bytes 2 block.length ++ block) (.location location)

/-- The bytes behind the format byte of a bound item, whose low three bits tell how the index
type and the bounds are given. -/
def Subscript.Spans (order : ByteOrder) (format : UInt8) (p : List UInt8) (s : Subscript) : Prop :=
  ∃ index low high, p = index ++ (low ++ high) ∧
    TypeRef.Indexes order (format.toNat.testBit 2) index s.indexType ∧
    Bound.Spans order (format.toNat.testBit 1) low s.low ∧
    Bound.Spans order (format.toNat.testBit 0) high s.high

/-- The bytes of an item. -/
inductive SubscriptItem.Spans (order : ByteOrder) : List UInt8 → SubscriptItem → Prop
  | bounds {format : UInt8} {p : List UInt8} {s : Subscript} (hformat : format < 8)
      (hs : Subscript.Spans order format p s) : Spans order (format :: p) (.bounds s)
  | element {p : List UInt8} {a : Attribute} {ty : TypeRef} (ha : Attribute.Spans order 0 p a)
      (hty : TypeRef.decode order a = .ok ty) : Spans order (8 :: p) (.element ty)

/-! ## Reading -/

section Reading

variable {order : ByteOrder} {ε α : Type}

theorem Reader.accepts_get {k : Cursor → Reader ε α} {F : Format α}
    (hk : ∀ c : Cursor, c.order = order → (k c).Accepts order F) :
    (get >>= k : Reader ε α).Accepts order F := by
  intro c hc hw a c'
  exact hk c hc c hc hw a c'

theorem Reader.accepts_fail (e : ε) :
    (Reader.fail e : Reader ε α).Accepts order fun _ _ _ => False := by
  intro c _ _ a c'
  constructor
  · intro h
    cases h
  · rintro ⟨p, _, hfalse, _⟩
    exact hfalse.elim

theorem Reader.accepts_byte : byte.Accepts order fun _ p b => p = [b] := by
  refine (accepts_word 1 UInt8.ofNat).congr fun _ p b => ?_
  constructor
  · rintro ⟨hlength, rfl⟩
    obtain ⟨b, rfl⟩ := List.length_eq_one_iff.mp hlength
    rw [order.value_singleton, UInt8.ofNat_toNat]
  · rintro rfl
    exact ⟨rfl, by rw [order.value_singleton, UInt8.ofNat_toNat]⟩

theorem Reader.accepts_half : half.Accepts order fun _ p n => p = order.bytes 2 n.toNat := by
  refine (accepts_word 2 UInt16.ofNat).congr fun _ p n => ?_
  constructor
  · rintro ⟨hlength, rfl⟩
    rw [toNat_ofNat16 hlength, ← hlength, order.bytes_value]
  · rintro rfl
    exact ⟨order.length_bytes 2 _, by rw [order.value_bytes n.toNat_lt, UInt16.ofNat_toNat]⟩

theorem Reader.accepts_fourBytes : word.Accepts order fun _ p n => p = order.bytes 4 n.toNat := by
  refine (accepts_word 4 UInt32.ofNat).congr fun _ p n => ?_
  constructor
  · rintro ⟨hlength, rfl⟩
    rw [toNat_ofNat32 hlength, ← hlength, order.bytes_value]
  · rintro rfl
    exact ⟨order.length_bytes 4 _, by rw [order.value_bytes n.toNat_lt, UInt32.ofNat_toNat]⟩

theorem Bound.accepts_read (isLocation : Bool) :
    (Bound.read isLocation).Accepts order fun _ => Bound.Spans order isLocation := by
  cases isLocation with
  | false =>
      refine ((accepts_fourBytes.mapError PayloadError.truncated).bind fun n =>
        accepts_pure (Bound.constant n)).congr fun _ p b => ?_
      constructor
      · rintro ⟨_, _, n, rfl, rfl, rfl, rfl⟩
        rw [List.append_nil]
        exact .constant n
      · intro h
        cases h with
        | constant n => exact ⟨_, [], n, (List.append_nil _).symm, rfl, rfl, rfl⟩
  | true =>
      refine (accepts_get fun c hc =>
        ((accepts_half.mapError PayloadError.truncated).bind fun size =>
          ((accepts_block size.toNat).mapError PayloadError.truncated).bind fun block =>
            (accepts_lift (Location.decode c.order block)).bind fun location =>
              accepts_pure (Bound.location location)).congr fun _ p b => ?_)
      rw [hc]
      constructor
      · rintro ⟨_, _, size, rfl, rfl, _, _, block, rfl, ⟨hlength, rfl⟩, _, _, location, rfl,
          ⟨rfl, hlocation⟩, rfl, rfl⟩
        have hbound : block.length < 2 ^ 16 := by
          rw [hlength]
          exact size.toNat_lt
        rw [List.append_nil, List.append_nil, ← hlength]
        exact .location hbound hlocation
      · intro h
        cases h with
        | @location block location hlength hlocation =>
            refine ⟨_, block, UInt16.ofNat block.length, rfl, ?_, block, [], block,
              (List.append_nil _).symm, ⟨?_, rfl⟩, [], [], location, rfl, ⟨rfl, hlocation⟩, rfl,
              rfl⟩
            · rw [UInt16.toNat_ofNat_of_lt' hlength]
            · rw [UInt16.toNat_ofNat_of_lt' hlength]

theorem Subscript.accepts_indexType (isUser : Bool) :
    (if isUser then TypeRef.user <$> (liftM word : Reader PayloadError UInt32)
      else TypeRef.fundamental <$> (liftM half : Reader PayloadError UInt16)).Accepts order
        fun _ => TypeRef.Indexes order isUser := by
  cases isUser with
  | false =>
      refine ((accepts_half.mapError PayloadError.truncated).map TypeRef.fundamental).congr
        fun _ p ty => ?_
      constructor
      · rintro ⟨id, rfl, rfl⟩
        exact .fundamental id
      · intro h
        cases h with
        | fundamental id => exact ⟨id, rfl, rfl⟩
  | true =>
      refine ((accepts_fourBytes.mapError PayloadError.truncated).map TypeRef.user).congr
        fun _ p ty => ?_
      constructor
      · rintro ⟨offset, rfl, rfl⟩
        exact .user offset
      · intro h
        cases h with
        | user offset => exact ⟨offset, rfl, rfl⟩

/-- The three bits that matter. -/
theorem Subscript.bits_eq {format : UInt8} (h : format < 8) :
    (format &&& 4 != 0) = format.toNat.testBit 2 ∧
      (format &&& 2 != 0) = format.toNat.testBit 1 ∧
      (format &&& 1 != 0) = format.toNat.testBit 0 := by
  have hcases : format = 0 ∨ format = 1 ∨ format = 2 ∨ format = 3 ∨ format = 4 ∨ format = 5 ∨
      format = 6 ∨ format = 7 := by grind
  rcases hcases with rfl | rfl | rfl | rfl | rfl | rfl | rfl | rfl <;> decide

theorem Subscript.read_eq {format : UInt8} (h : format < 8) :
    Subscript.read format =
      (if format.toNat.testBit 2 then TypeRef.user <$> (liftM word : Reader PayloadError UInt32)
        else TypeRef.fundamental <$> (liftM half : Reader PayloadError UInt16)) >>= fun indexType =>
      Bound.read (format.toNat.testBit 1) >>= fun low =>
      Bound.read (format.toNat.testBit 0) >>= fun high =>
      pure { indexType, low, high } := by
  obtain ⟨hindex, hlow, hhigh⟩ := bits_eq h
  unfold Subscript.read
  rw [hindex, hlow, hhigh]
  cases format.toNat.testBit 2 with
  | false => rfl
  | true => rfl

theorem Subscript.accepts_read {format : UInt8} (h : format < 8) :
    (Subscript.read format).Accepts order fun _ => Subscript.Spans order format := by
  rw [read_eq h]
  refine ((accepts_indexType _).bind fun indexType => (Bound.accepts_read _).bind fun low =>
    (Bound.accepts_read _).bind fun high =>
      accepts_pure (Subscript.mk indexType low high)).congr fun _ p s => ?_
  constructor
  · rintro ⟨index, _, indexType, rfl, hindexType, low, _, _, rfl, hlow, high, _, _, rfl, hhigh,
      rfl, rfl⟩
    exact ⟨index, low, high, by rw [List.append_nil], hindexType, hlow, hhigh⟩
  · rintro ⟨index, low, high, rfl, hindexType, hlow, hhigh⟩
    exact ⟨index, _, s.indexType, rfl, hindexType, low, _, s.low, rfl, hlow, high, [], s.high,
      (List.append_nil _).symm, hhigh, rfl, rfl⟩

theorem SubscriptItem.accepts_readElement :
    SubscriptItem.readElement.Accepts order fun _ p ty => ∃ a, Attribute.Spans order 0 p a ∧
      TypeRef.decode order a = .ok ty := by
  refine accepts_get fun c hc => ?_
  rw [hc]
  -- a form that does not exist is no attribute, and a value that is no type no element
  refine ((accepts_half.mapError PayloadError.truncated).bind
    (G := fun rawName _ v ty => ∃ form value, Form.ofName? rawName = some form ∧
      AttributeValue.Holds order form v value ∧
      TypeRef.decode order ⟨0, rawName, value⟩ = .ok ty) fun rawName => ?_).congr
    fun _ p ty => ?_
  · cases hform : Form.ofName? rawName with
    | none =>
        refine (accepts_fail _).congr fun _ v ty => ?_
        constructor
        · intro h
          exact h.elim
        · rintro ⟨form, value, hsome, -⟩
          cases hsome
    | some form =>
        refine (((AttributeValue.accepts_read form).mapError PayloadError.truncated).bind
          fun value => accepts_lift (TypeRef.decode order ⟨_, rawName, value⟩)).congr
          fun _ v ty => ?_
        constructor
        · rintro ⟨v, _, value, rfl, hvalue, rfl, hty⟩
          rw [List.append_nil]
          exact ⟨form, value, rfl, hvalue, hty⟩
        · rintro ⟨_, value, hsome, hvalue, hty⟩
          cases hsome
          exact ⟨v, [], value, (List.append_nil v).symm, hvalue, rfl, hty⟩
  · constructor
    · rintro ⟨_, v, rawName, rfl, rfl, form, value, hform, hvalue, hty⟩
      refine ⟨⟨0, rawName, value⟩, ⟨_, v, form, rfl, order.length_bytes 2 _, rfl, ?_, hform,
        hvalue⟩, hty⟩
      rw [order.value_bytes rawName.toNat_lt, UInt16.ofNat_toNat]
    · rintro ⟨⟨offset, rawName, value⟩, ⟨n, v, form, rfl, hn, -, rfl, hform, hvalue⟩, hty⟩
      refine ⟨n, v, _, rfl, ?_, form, value, hform, hvalue, hty⟩
      rw [toNat_ofNat16 hn, ← hn, order.bytes_value]

theorem SubscriptItem.accepts_read :
    SubscriptItem.read.Accepts order fun _ => SubscriptItem.Spans order := by
  refine ((accepts_byte.mapError PayloadError.truncated).bind
    (G := fun format _ p item => SubscriptItem.Spans order (format :: p) item)
    fun format => ?_).congr fun _ p item => ?_
  · by_cases helement : format = 8
    · subst helement
      refine (accepts_readElement.bind fun ty => accepts_pure (SubscriptItem.element ty)).congr
        fun _ p item => ?_
      constructor
      · rintro ⟨p, _, ty, rfl, ⟨a, ha, hty⟩, rfl, rfl⟩
        rw [List.append_nil]
        exact .element ha hty
      · intro h
        cases h with
        | bounds hformat => exact absurd hformat (by decide)
        | @element p a ty ha hty =>
            exact ⟨p, [], ty, (List.append_nil p).symm, ⟨a, ha, hty⟩, rfl, rfl⟩
    · rw [if_neg helement]
      by_cases hformat : format < 8
      · rw [if_pos hformat]
        refine ((Subscript.accepts_read hformat).bind fun s =>
          accepts_pure (SubscriptItem.bounds s)).congr fun _ p item => ?_
        constructor
        · rintro ⟨p, _, s, rfl, hs, rfl, rfl⟩
          rw [List.append_nil]
          exact .bounds hformat hs
        · intro h
          cases h with
          | @bounds _ p s _ hs => exact ⟨p, [], s, (List.append_nil p).symm, hs, rfl, rfl⟩
          | element => exact absurd rfl helement
      · rw [if_neg hformat]
        refine (accepts_fail _).congr fun _ p item => ?_
        constructor
        · intro h
          exact h.elim
        · intro h
          cases h with
          | bounds hless => exact absurd hless hformat
          | element => exact absurd rfl helement
  · constructor
    · rintro ⟨_, p, format, rfl, rfl, h⟩
      exact h
    · intro h
      cases h with
      | @bounds format p s hformat hs => exact ⟨[format], p, format, rfl, rfl, .bounds hformat hs⟩
      | @element p a ty ha hty => exact ⟨[8], p, 8, rfl, rfl, .element ha hty⟩

end Reading

/-! ## What the items come to -/

namespace SubscriptItem

def bounds? : SubscriptItem → Option Subscript
  | .bounds s => some s
  | .element _ => none

def element? : SubscriptItem → Option TypeRef
  | .bounds _ => none
  | .element ty => some ty

theorem Spans.ne_nil {order : ByteOrder} {p : List UInt8} {item : SubscriptItem}
    (h : Spans order p item) : p ≠ [] := by
  cases h with
  | bounds => exact List.cons_ne_nil _ _
  | element => exact List.cons_ne_nil _ _

end SubscriptItem

namespace SubscriptData

variable {order : ByteOrder} {block : List UInt8} {data : SubscriptData}
  {items : List SubscriptItem}

/-- The bounds of the items in order, and the last of the element types. -/
structure Lists (data : SubscriptData) (items : List SubscriptItem) : Prop where
  subscripts : data.subscripts = items.filterMap SubscriptItem.bounds?
  element : data.element = (items.filterMap SubscriptItem.element?).getLast?

/-- An element type found later takes the place of the one before. -/
theorem foldl_element (items : List SubscriptItem) (found : Option TypeRef) :
    items.foldl (fun found item => item.element?.or found) found =
      (items.filterMap SubscriptItem.element?).getLast?.or found := by
  induction items generalizing found with
  | nil => rfl
  | cons item items ih =>
      rw [List.foldl_cons, ih]
      cases item with
      | bounds s => rfl
      | element ty =>
          have hcons : (SubscriptItem.element ty :: items).filterMap SubscriptItem.element? =
              ty :: items.filterMap SubscriptItem.element? := rfl
          rw [hcons, List.getLast?_cons]
          cases (items.filterMap SubscriptItem.element?).getLast? <;> rfl

theorem lists_ofItems (items : List SubscriptItem) : Lists (ofItems items) items where
  subscripts := by
    refine congrArg (items.filterMap ·) (funext fun item => ?_)
    cases item <;> rfl
  element := by
    have hstep : (ofItems items).element =
        items.foldl (fun found item => item.element?.or found) none := by
      refine congrArg (items.foldl · none) (funext fun found => funext fun item => ?_)
      cases item <;> rfl
    rw [hstep, foldl_element, Option.or_none]

theorem Lists.eq_ofItems (h : Lists data items) : data = ofItems items := by
  obtain ⟨element, subscripts⟩ := data
  have hitems := lists_ofItems items
  rw [mk.injEq]
  exact ⟨h.element.trans hitems.element.symm, h.subscripts.trans hitems.subscripts.symm⟩

theorem decode_eq_ok_iff : decode order block = .ok data ↔
    ∃ pieces items, block = pieces.flatten ∧
      List.Forall₂ (SubscriptItem.Spans order) pieces items ∧ data.Lists items := by
  have hread : ∀ items, (toEnd SubscriptItem.read).on (.ofBytes order block 0) = .ok items ↔
      ∃ pieces, block = pieces.flatten ∧
        List.Forall₂ (SubscriptItem.Spans order) pieces items := by
    intro items
    rw [SubscriptItem.accepts_read.toEnd_on_eq_ok_iff SubscriptItem.Spans.ne_nil rfl
      (Nat.zero_le _)]
    exact tiles_iff_forall₂
  rw [decode]
  cases hitems : (toEnd SubscriptItem.read).on (.ofBytes order block 0) with
  | error e =>
      constructor
      · intro h
        cases h
      · rintro ⟨pieces, items, hblock, hpieces, -⟩
        cases hitems.symm.trans ((hread items).mpr ⟨pieces, hblock, hpieces⟩)
  | ok items =>
      constructor
      · intro h
        cases h
        obtain ⟨pieces, hblock, hpieces⟩ := (hread items).mp hitems
        exact ⟨pieces, items, hblock, hpieces, lists_ofItems items⟩
      · rintro ⟨pieces, items', hblock, hpieces, hlists⟩
        have hsame := hitems.symm.trans ((hread items').mpr ⟨pieces, hblock, hpieces⟩)
        cases hsame
        rw [hlists.eq_ofItems]
        rfl

end SubscriptData

/-! ## Writing -/

namespace Bound

def isLocation : Bound → Bool
  | .constant _ => false
  | .location _ => true

def encode (order : ByteOrder) : Bound → List UInt8
  | .constant n => order.bytes 4 n.toNat
  | .location place => order.bytes 2 (place.encode order).length ++ place.encode order

/-- Whether a bound has a program short enough. -/
def Writable (order : ByteOrder) : Bound → Prop
  | .constant _ => True
  | .location place => place.Writable ∧ (place.encode order).length < 2 ^ 16

variable {order : ByteOrder} {b : Bound}

theorem spans_encode (h : b.Writable order) : Spans order b.isLocation (b.encode order) b := by
  cases b with
  | constant n => exact .constant n
  | location place =>
      obtain ⟨hplace, hlength⟩ := h
      exact .location hlength (Location.decode_encode order hplace)

theorem Spans.writable {isLocation : Bool} {p : List UInt8} (h : Spans order isLocation p b) :
    b.Writable order := by
  cases h with
  | constant n => trivial
  | location hlength hblock =>
      obtain ⟨hwritable, hle⟩ := Location.writable_of_decode hblock
      exact ⟨hwritable, Nat.lt_of_le_of_lt hle hlength⟩

end Bound

namespace Subscript

def format (s : Subscript) : UInt8 :=
  (if s.indexType.userOffset?.isSome then 4 else 0) + (if s.low.isLocation then 2 else 0) +
    if s.high.isLocation then 1 else 0

def encode (order : ByteOrder) (s : Subscript) : List UInt8 :=
  s.format :: (s.indexType.base.bytes order ++ (s.low.encode order ++ s.high.encode order))

/-- Whether the index type is a base alone and the bounds can be written. -/
structure Writable (order : ByteOrder) (s : Subscript) : Prop where
  indexType : s.indexType = .ofBase s.indexType.base
  low : s.low.Writable order
  high : s.high.Writable order

variable {order : ByteOrder} {s : Subscript}

theorem format_bits (s : Subscript) : s.format < 8 ∧
    s.format.toNat.testBit 2 = s.indexType.userOffset?.isSome ∧
    s.format.toNat.testBit 1 = s.low.isLocation ∧
    s.format.toNat.testBit 0 = s.high.isLocation := by
  unfold format
  generalize s.indexType.userOffset?.isSome = isUser
  generalize s.low.isLocation = low
  generalize s.high.isLocation = high
  cases isUser <;> cases low <;> cases high <;> decide

theorem Writable.indexes (h : s.Writable order) :
    TypeRef.Indexes order s.indexType.userOffset?.isSome (s.indexType.base.bytes order)
      s.indexType := by
  rw [h.indexType]
  cases s.indexType.base with
  | fundamental id => exact .fundamental id
  | user offset => exact .user offset

theorem spans_encode (h : s.Writable order) :
    SubscriptItem.Spans order (s.encode order) (.bounds s) := by
  obtain ⟨hformat, hindex, hlow, hhigh⟩ := s.format_bits
  refine .bounds hformat ⟨_, _, _, rfl, ?_, ?_, ?_⟩
  · rw [hindex]
    exact h.indexes
  · rw [hlow]
    exact Bound.spans_encode h.low
  · rw [hhigh]
    exact Bound.spans_encode h.high

theorem Spans.writable {format : UInt8} {p : List UInt8} (h : Spans order format p s) :
    s.Writable order := by
  obtain ⟨index, low, high, -, hindex, hlow, hhigh⟩ := h
  refine ⟨?_, hlow.writable, hhigh.writable⟩
  generalize s.indexType = ty at hindex ⊢
  generalize format.toNat.testBit 2 = isUser at hindex
  cases hindex with
  | fundamental id => rfl
  | user offset => rfl

/-- Bounds that no block gives cannot be written, and all others can. -/
theorem exists_spans_iff : (∃ p, SubscriptItem.Spans order p (.bounds s)) ↔ s.Writable order := by
  constructor
  · rintro ⟨p, h⟩
    cases h with
    | bounds hformat hs => exact hs.writable
  · intro h
    exact ⟨_, spans_encode h⟩

end Subscript

/-- A type whose base is not both constant and volatile is what some attribute gives. -/
theorem TypeRef.exists_namedValue {order : ByteOrder} {ty : TypeRef} {q block : List UInt8}
    (hty : ¬ (ty.isConst = true ∧ ty.isVolatile = true)) (hwrites : ty.Writes order q block)
    (hlength : block.length < 2 ^ 16) :
    ∃ a : NamedValue, TypeRef.decode order (a.place 0) = .ok ty := by
  have hnamed : ∃ a : NamedValue, (a.place 0).name = ty.base.attributeName ∧
      (a.place 0).value = .block block := by
    cases ty.base with
    | fundamental id => exact ⟨⟨0x63, .block2, .block block, rfl, hlength⟩, rfl, rfl⟩
    | user offset => exact ⟨⟨0x83, .block2, .block block, rfl, hlength⟩, rfl, rfl⟩
  obtain ⟨a, hname, hvalue⟩ := hnamed
  refine ⟨a, (decode_of_writes hwrites hname hvalue).trans ?_⟩
  obtain ⟨base, isConst, isVolatile, modifiers⟩ := ty
  have hqualifies : QualifierBytes isConst isVolatile q := hwrites.qualifies
  cases hqualifies <;> simp_all

namespace SubscriptData

/-- Bounds with an element type behind them come back. -/
theorem decode_encode (order : ByteOrder) {subscripts : List Subscript} {ty : TypeRef}
    {a : NamedValue} (hsubscripts : ∀ s ∈ subscripts, s.Writable order)
    (hty : TypeRef.decode order (a.place 0) = .ok ty) :
    decode order (subscripts.flatMap (Subscript.encode order) ++ 8 :: a.encode order) =
      .ok ⟨some ty, subscripts⟩ := by
  have hbounds : List.Forall₂ (SubscriptItem.Spans order)
      (subscripts.map (Subscript.encode order)) (subscripts.map .bounds) := by
    rw [List.forall₂_map_left_iff, List.forall₂_map_right_iff, List.forall₂_same]
    intro s hs
    exact Subscript.spans_encode (hsubscripts s hs)
  have helement : List.Forall₂ (SubscriptItem.Spans order) [8 :: a.encode order] [.element ty] :=
    .cons (.element (a.spans_encode 0) hty) .nil
  refine decode_eq_ok_iff.mpr ⟨_, _, ?_, List.rel_append hbounds helement, ?_, ?_⟩
  · rw [List.flatten_append, List.flatMap, List.flatten_singleton]
  · simp [List.filterMap_map, Function.comp_def, SubscriptItem.bounds?]
  · simp [List.filterMap_map, Function.comp_def, SubscriptItem.element?]

/-- A block is subscript data exactly if it is items one after another, and then gives their
bounds in order and the last of their element types.  So bounds that can be written come back
from what they are written as, with an element type behind them that any attribute gives.  The
bounds that can be written are all that a block can hold. -/
theorem decode_items (order : ByteOrder) :
    (∀ block data, decode order block = .ok data ↔
      ∃ pieces items, block = pieces.flatten ∧
        List.Forall₂ (SubscriptItem.Spans order) pieces items ∧ data.Lists items) ∧
    (∀ (subscripts : List Subscript) (ty : TypeRef) (a : NamedValue),
      (∀ s ∈ subscripts, s.Writable order) → TypeRef.decode order (a.place 0) = .ok ty →
        decode order (subscripts.flatMap (Subscript.encode order) ++ 8 :: a.encode order) =
          .ok ⟨some ty, subscripts⟩) ∧
    (∀ s : Subscript, s.Writable order ↔ ∃ p, SubscriptItem.Spans order p (.bounds s)) ∧
    (∀ (ty : TypeRef) (q block : List UInt8), ¬ (ty.isConst = true ∧ ty.isVolatile = true) →
      ty.Writes order q block → block.length < 2 ^ 16 →
        ∃ a : NamedValue, TypeRef.decode order (a.place 0) = .ok ty) := by
  refine ⟨fun block data => decode_eq_ok_iff, ?_, ?_, ?_⟩
  · intro subscripts ty a hsubscripts hty
    exact decode_encode order hsubscripts hty
  · intro s
    exact Subscript.exists_spans_iff.symm
  · intro ty q block hty hwrites hlength
    exact TypeRef.exists_namedValue hty hwrites hlength

/-- Two dimensions.  The length of the first is in a variable. -/
def tableBounds : List Subscript :=
  [⟨.integer, .constant 0, .location (.baseOffset 1 (-8))⟩,
    ⟨.user 0x40, .constant 1, .constant 3⟩]

/-- A pointer to a constant. -/
def tableElement : TypeRef :=
  { base := .fundamental 2, isConst := true, isVolatile := false
    modifiers := [⟨.pointer, false, false⟩] }

theorem decode_items_table : (∀ s ∈ tableBounds, s.Writable .big) ∧
    tableElement.Writes .big [3] [1, 3, 0, 2] ∧ ∃ a : NamedValue,
      TypeRef.decode .big (a.place 0) = .ok tableElement ∧
      decode .big (tableBounds.flatMap (Subscript.encode .big) ++ 8 :: a.encode .big) =
        .ok ⟨some tableElement, tableBounds⟩ := by
  obtain ⟨-, hdecode, -, hnamed⟩ := decode_items .big
  have hframe : (Location.baseOffset 1 (-8)).Writable := by
    refine ⟨.inl (.baseOffset _ _ (by decide)), _, [], [], (List.append_nil _).symm, ?_, .nothing⟩
    show ∀ op ∈ [LocationOp.baseReg 1, .const 0xfffffff8, .add], op.isKnown = true
    decide
  have hbounds : ∀ s ∈ tableBounds, s.Writable .big := by
    refine List.forall_mem_cons.mpr ⟨⟨rfl, trivial, hframe, by decide⟩, ?_⟩
    exact List.forall_mem_singleton.mpr ⟨rfl, trivial, trivial⟩
  have hwrites : tableElement.Writes .big [3] [1, 3, 0, 2] := by
    refine ⟨.const, [[1]], .cons ⟨[], .plain, rfl⟩ .nil, ?_⟩
    decide
  obtain ⟨a, ha⟩ := hnamed tableElement _ _ (by decide) hwrites (by decide)
  exact ⟨hbounds, hwrites, a, ha, hdecode tableBounds tableElement a hbounds ha⟩

/-- Of two element types the last counts, and it may stand before the bounds. -/
example : decode .big ([8, 0, 0x55, 0, 2] ++ [8, 0, 0x55, 0, 7] ++
    [1, 0, 7, 0, 0, 0, 0, 0, 5, 1, 0, 0, 0, 4]) =
      .ok ⟨some .integer, [⟨.integer, .constant 0, .location (.register 4)⟩]⟩ := by
  decide

end SubscriptData

end DwarfOne
