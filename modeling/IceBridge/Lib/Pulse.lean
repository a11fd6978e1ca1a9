import Mathlib.Data.Nat.Basic
import Mathlib.Tactic.Common

/-! Whole intervals of a clock, counted piecemeal: each look at the clock counts those that have
passed and leaves the rest to the next. -/

namespace Pulse
variable {interval start count last now later : ℕ}

def elapsed (interval last now : ℕ) : ℕ := (now - last) / interval

def next (interval last now : ℕ) : ℕ := last + interval * elapsed interval last now

/-- `count` intervals have passed from `start` to `last`, and not one more until now. -/
structure Counted (interval start count last now : ℕ) : Prop where
  last_eq : last = start + interval * count
  le : last ≤ now
  lt : now < last + interval

theorem next_le (h : last ≤ now) : next interval last now ≤ now := by
  have hmul : interval * elapsed interval last now ≤ now - last := Nat.mul_div_le _ _
  calc next interval last now ≤ last + (now - last) := Nat.add_le_add_left hmul last
    _ = now := Nat.add_sub_of_le h

theorem lt_next (hpos : 0 < interval) : now < next interval last now + interval := by
  have hlt : now - last < interval * elapsed interval last now + interval :=
    Nat.lt_mul_div_succ (now - last) hpos
  unfold next
  omega

theorem counted_next (hpos : 0 < interval) (hlast : last = start + interval * count)
    (h : last ≤ now) :
    Counted interval start (count + elapsed interval last now) (next interval last now) now := by
  refine ⟨?_, next_le h, lt_next hpos⟩
  rw [next, Nat.mul_add, ← Nat.add_assoc, ← hlast]

theorem Counted.count_eq (h : Counted interval start count last now) :
    count = (now - start) / interval := by
  have hlast := h.last_eq
  have hle := h.le
  have hlt := h.lt
  have hpos : 0 < interval := by omega
  symm
  rw [Nat.div_eq_iff hpos, Nat.mul_comm count interval]
  omega

end Pulse
