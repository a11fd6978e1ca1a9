import Mathlib.Data.Nat.Digits.Defs
import Mathlib.Algebra.Order.Ring.Nat

/-! Little-endian numbers of a fixed width in byte sequences. -/

namespace Bytes

instance lawfulBEq : LawfulBEq (List UInt8) := inferInstance

/-- The number whose bytes are given, the lowest first. -/
def value (bytes : List UInt8) : ℕ := Nat.ofDigits 256 (bytes.map UInt8.toNat)

/-- The lowest `width` bytes of a number. -/
def encode : (width n : ℕ) → List UInt8
  | 0, _ => []
  | width + 1, n => n.toUInt8 :: encode width (n / 256)

@[simp] theorem length_encode (width n : ℕ) : (encode width n).length = width := by
  induction width generalizing n with
  | zero => rfl
  | succ width ih => rw [encode, List.length_cons, ih]

theorem value_cons (b : UInt8) (bytes : List UInt8) :
    value (b :: bytes) = b.toNat + 256 * value bytes :=
  Nat.ofDigits_cons

theorem value_lt (bytes : List UInt8) : value bytes < 256 ^ bytes.length := by
  induction bytes with
  | nil => exact Nat.one_pos
  | cons b bytes ih =>
    have hb := b.toNat_lt
    rw [value_cons, List.length_cons, pow_succ]
    omega

theorem value_encode (width n : ℕ) : value (encode width n) = n % 256 ^ width := by
  induction width generalizing n with
  | zero => simp [value, encode, Nat.mod_one]
  | succ width ih =>
    have hlow : n.toUInt8.toNat = n % 256 := by simp
    rw [encode, value_cons, ih, hlow, pow_succ', Nat.mod_mul]

theorem value_encode_of_lt {width n : ℕ} (h : n < 256 ^ width) : value (encode width n) = n := by
  rw [value_encode, Nat.mod_eq_of_lt h]

theorem value_inj {xs ys : List UInt8} (hlen : xs.length = ys.length) :
    value xs = value ys ↔ xs = ys := by
  refine ⟨fun h => ?_, fun h => h ▸ rfl⟩
  induction xs generalizing ys with
  | nil => exact (List.length_eq_zero_iff.mp hlen.symm).symm
  | cons x xs ih =>
    obtain ⟨y, ys, rfl⟩ := List.exists_cons_of_length_eq_add_one hlen.symm
    have hx := x.toNat_lt
    have hy := y.toNat_lt
    rw [value_cons, value_cons] at h
    have hfirst : x = y := UInt8.toNat_inj.mp (by omega)
    have hrest : xs = ys := ih (Nat.succ.inj hlen) (by omega)
    rw [hfirst, hrest]

theorem encode_mod (width n : ℕ) : encode width (n % 256 ^ width) = encode width n := by
  have hlen : (encode width (n % 256 ^ width)).length = (encode width n).length := by
    rw [length_encode, length_encode]
  rw [← value_inj hlen, value_encode, value_encode, Nat.mod_mod]

end Bytes
