import IceBridge.Lib.Truncate

/-! What accrues at a rate since some time, and is found from the time only when it is collected. -/

namespace Accrual
variable {α : Type*} [Ring α]

def accrued (rate : α) (since now : ℤ) : α := rate * (max 0 (now - since) : ℤ)

variable {rate : α} {since now : ℤ}

theorem accrued_self : accrued rate now now = 0 := by
  rw [accrued, sub_self, max_self, Int.cast_zero, mul_zero]

variable [LinearOrder α] [IsStrictOrderedRing α]

theorem accrued_nonneg (hrate : 0 ≤ rate) : 0 ≤ accrued rate since now :=
  mul_nonneg hrate (Int.cast_nonneg (le_max_left 0 _))

theorem accrued_le_wait (hrate : 0 ≤ rate) (elapsed : ℕ) :
    accrued rate since (now + elapsed) ≤ accrued rate since now + rate * elapsed := by
  have hle : max 0 (now + elapsed - since) ≤ max 0 (now - since) + elapsed := by omega
  calc accrued rate since (now + elapsed)
      ≤ rate * ((max 0 (now - since) + elapsed : ℤ) : α) :=
        mul_le_mul_of_nonneg_left (Int.cast_le.mpr hle) hrate
    _ = accrued rate since now + rate * elapsed := by
        rw [Int.cast_add, mul_add, Int.cast_natCast, accrued]

/-- A collection that drops the fraction takes no more than has accrued. -/
theorem trunc_le_accrued [FloorRing α] (hrate : 0 ≤ rate) :
    (Truncate.trunc (rate * (now - since : ℤ)) : α) ≤ accrued rate since now := by
  rcases le_total 0 (now - since) with hpos | hneg
  · have hprod : 0 ≤ rate * ((now - since : ℤ) : α) := mul_nonneg hrate (Int.cast_nonneg hpos)
    rw [accrued, max_eq_right hpos]
    exact Truncate.trunc_le hprod
  · have hprod : rate * ((now - since : ℤ) : α) ≤ 0 :=
      mul_nonpos_of_nonneg_of_nonpos hrate (Int.cast_nonpos.mpr hneg)
    exact (Int.cast_nonpos.mpr (Truncate.trunc_nonpos hprod)).trans (accrued_nonneg hrate)

end Accrual
