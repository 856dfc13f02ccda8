/-
# `Proofs.Bytes.Order` — numbers written as bytes

`ByteOrder.bytes` writes a number in a given width; `value_bytes` says that
`ByteOrder.value` reads it back, in either order, whenever it fits.  The other
way round, `value_lt` bounds what bytes can hold, so that a field read in its
own width is never cut, and `bytes_value` writes them anew.
-/
import DwarfOne.Bytes.Order
import Mathlib.Algebra.Ring.Nat

namespace DwarfOne
namespace ByteOrder

/-- The lowest `width` base 256 digits of a number, least significant first. -/
def littleBytes : Nat → Nat → List UInt8
  | 0, _ => []
  | width + 1, n => UInt8.ofNat n :: littleBytes width (n / 256)

/-- A number in `width` bytes. -/
def bytes : ByteOrder → Nat → Nat → List UInt8
  | .little, width, n => littleBytes width n
  | .big, width, n => (littleBytes width n).reverse

theorem length_littleBytes : ∀ width n : Nat, (littleBytes width n).length = width
  | 0, _ => rfl
  | width + 1, n => by simp [littleBytes, length_littleBytes width (n / 256)]

@[simp] theorem length_bytes (order : ByteOrder) (width n : Nat) :
    (order.bytes width n).length = width := by
  cases order with
  | little => exact length_littleBytes width n
  | big => rw [bytes, List.length_reverse, length_littleBytes]

theorem littleValue_lt : ∀ bytes : List UInt8, littleValue bytes < 256 ^ bytes.length
  | [] => Nat.one_pos
  | b :: bs => by
      have hb : b.toNat < 256 := b.toNat_lt
      have ih := littleValue_lt bs
      simp only [littleValue, List.length_cons, Nat.pow_succ]
      omega

theorem value_lt (order : ByteOrder) (bytes : List UInt8) :
    order.value bytes < 256 ^ bytes.length := by
  cases order with
  | little => exact littleValue_lt bytes
  | big =>
      have h := littleValue_lt bytes.reverse
      rwa [List.length_reverse] at h

theorem littleValue_littleBytes :
    ∀ width n : Nat, n < 256 ^ width → littleValue (littleBytes width n) = n
  | 0, n, h => by
      have h0 : n = 0 := by simpa using h
      rw [h0]; rfl
  | width + 1, n, h => by
      have hdiv : n / 256 < 256 ^ width := by
        rw [Nat.pow_succ] at h
        exact Nat.div_lt_of_lt_mul (by omega)
      have hmod : (UInt8.ofNat n).toNat = n % 256 := by simp
      simp only [littleBytes, littleValue, littleValue_littleBytes width _ hdiv, hmod]
      omega

theorem value_singleton (order : ByteOrder) (b : UInt8) : order.value [b] = b.toNat := by
  cases order <;> simp [value, littleValue]

/-- A number that fits its width is read back. -/
theorem value_bytes (order : ByteOrder) {width n : Nat} (h : n < 256 ^ width) :
    order.value (order.bytes width n) = n := by
  cases order with
  | little => exact littleValue_littleBytes width n h
  | big =>
      show littleValue (littleBytes width n).reverse.reverse = n
      rw [List.reverse_reverse]
      exact littleValue_littleBytes width n h

theorem littleBytes_littleValue : ∀ bytes : List UInt8,
    littleBytes bytes.length (littleValue bytes) = bytes
  | [] => rfl
  | b :: bs => by
      have hb : b.toNat < 256 := b.toNat_lt
      have hfirst : UInt8.ofNat (b.toNat + 256 * littleValue bs) = b := by
        rw [← UInt8.toNat_inj, UInt8.toNat_ofNat']
        omega
      have hrest : (b.toNat + 256 * littleValue bs) / 256 = littleValue bs := by omega
      rw [littleValue, List.length_cons, littleBytes, hfirst, hrest, littleBytes_littleValue bs]

/-- Bytes are those of the number they stand for. -/
theorem bytes_value (order : ByteOrder) (p : List UInt8) :
    order.bytes p.length (order.value p) = p := by
  cases order with
  | little => exact littleBytes_littleValue p
  | big =>
      have h := littleBytes_littleValue p.reverse
      rw [List.length_reverse] at h
      rw [bytes, value, h, List.reverse_reverse]

end ByteOrder
end DwarfOne
