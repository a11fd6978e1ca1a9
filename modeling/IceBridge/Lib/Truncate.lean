import Mathlib.Algebra.Order.Floor.Ring

/-! A number is made an integer by dropping what is behind the point, as a cast to `int` does. -/

namespace Truncate
variable {α : Type*} [Ring α] [LinearOrder α] [IsStrictOrderedRing α] [FloorRing α]

def trunc (x : α) : ℤ := if 0 ≤ x then ⌊x⌋ else ⌈x⌉

theorem trunc_intCast (n : ℤ) : trunc (n : α) = n := by
  rw [trunc, Int.floor_intCast, Int.ceil_intCast, ite_self]

theorem floor_eq_ceil_iff {x : α} : ⌊x⌋ = ⌈x⌉ ↔ ∃ n : ℤ, x = n := by
  constructor
  · intro heq
    refine ⟨⌊x⌋, le_antisymm ?_ (Int.floor_le x)⟩
    rw [heq]
    exact Int.le_ceil x
  · rintro ⟨n, rfl⟩
    rw [Int.floor_intCast, Int.ceil_intCast]

theorem trunc_of_nonpos {x : α} (hx : x ≤ 0) : trunc x = ⌈x⌉ := by
  unfold trunc
  split_ifs with hnonneg
  · rw [le_antisymm hx hnonneg, Int.floor_zero, Int.ceil_zero]
  · rfl

omit [IsStrictOrderedRing α] in
theorem trunc_le {x : α} (hx : 0 ≤ x) : (trunc x : α) ≤ x := by
  rw [trunc, if_pos hx]
  exact Int.floor_le x

theorem trunc_nonpos {x : α} (hx : x ≤ 0) : trunc x ≤ 0 := by
  rw [trunc_of_nonpos hx, Int.ceil_le, Int.cast_zero]
  exact hx

theorem trunc_intCast_add_iff (n : ℤ) (x : α) : trunc (n + x) = n + trunc x ↔
    (∃ m : ℤ, x = m) ∨ 0 ≤ x ∧ 0 ≤ n + x ∨ x ≤ 0 ∧ n + x ≤ 0 := by
  have hother : ¬ (0 ≤ x ∧ 0 ≤ n + x ∨ x ≤ 0 ∧ n + x ≤ 0) →
      (trunc (n + x) = n + trunc x ↔ ∃ m : ℤ, x = m) := by
    intro hsign
    rw [← floor_eq_ceil_iff]
    rcases le_total 0 x with hx | hx
    · have hsum : n + x ≤ 0 := (le_total _ _).resolve_left fun hle => hsign (.inl ⟨hx, hle⟩)
      rw [trunc_of_nonpos hsum, trunc, if_pos hx, Int.ceil_intCast_add, add_right_inj, eq_comm]
    · have hsum : 0 ≤ n + x := (le_total _ _).resolve_right fun hle => hsign (.inr ⟨hx, hle⟩)
      rw [trunc, if_pos hsum, trunc_of_nonpos hx, Int.floor_intCast_add, add_right_inj]
  by_cases hsign : 0 ≤ x ∧ 0 ≤ n + x ∨ x ≤ 0 ∧ n + x ≤ 0
  · refine iff_of_true ?_ (.inr hsign)
    rcases hsign with ⟨hx, hsum⟩ | ⟨hx, hsum⟩
    · rw [trunc, trunc, if_pos hx, if_pos hsum, Int.floor_intCast_add]
    · rw [trunc_of_nonpos hx, trunc_of_nonpos hsum, Int.ceil_intCast_add]
  · rw [hother hsign, or_iff_left hsign]

end Truncate
