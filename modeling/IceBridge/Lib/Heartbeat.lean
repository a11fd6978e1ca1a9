import Mathlib.Data.Int.Order.Basic
import Mathlib.Tactic.Linarith

/-! A peer that sends something every now and then, and another that gives it up when nothing
comes for a while. What is under way is listed by the times it was sent at, the oldest first. -/

namespace Heartbeat
variable {gap limit last now deadline : Int} {pending : List Int}

/-- No two of the messages under way were sent more than `gap` apart; the last is from `last`. -/
def Paced (gap last : Int) : List Int → Prop
  | [] => True
  | [t] => t = last
  | t :: t' :: rest => t' ≤ t + gap ∧ Paced gap last (t' :: rest)

/-- The deadline covers the time until the next message: the oldest one under way, or the one that
follows the last. -/
structure Covered (gap limit deadline last : Int) (pending : List Int) : Prop where
  paced : Paced gap last pending
  le : (pending.head?.elim last (· - gap)) + limit ≤ deadline

theorem Paced.tail {t : Int} (h : Paced gap last (t :: pending)) : Paced gap last pending := by
  cases pending with
  | nil => trivial
  | cons t' rest => exact h.2

theorem Paced.send (h : Paced gap last pending) (hnow : now ≤ last + gap) :
    Paced gap now (pending ++ [now]) := by
  induction pending with
  | nil => rfl
  | cons t pending ih =>
    cases pending with
    | nil =>
      obtain rfl : t = last := h
      exact ⟨hnow, rfl⟩
    | cons t' rest => exact ⟨h.1, ih h.2⟩

namespace Covered

theorem send (h : Covered gap limit deadline last pending) (hnow : now ≤ last + gap) :
    Covered gap limit deadline now (pending ++ [now]) := by
  refine ⟨h.paced.send hnow, ?_⟩
  have hle := h.le
  cases pending with
  | nil =>
    show now - gap + limit ≤ deadline
    change last + limit ≤ deadline at hle
    linarith
  | cons t pending => exact hle

theorem receive {t : Int} (h : Covered gap limit deadline last (t :: pending)) (ht : t ≤ now) :
    Covered gap limit (now + limit) last pending := by
  refine ⟨h.paced.tail, ?_⟩
  have hpaced := h.paced
  cases pending with
  | nil =>
    change t = last at hpaced
    show last + limit ≤ now + limit
    linarith
  | cons t' rest =>
    have hnext : t' ≤ t + gap := hpaced.1
    show t' - gap + limit ≤ now + limit
    linarith

theorem mono {deadline' : Int} (h : Covered gap limit deadline last pending)
    (hle : deadline ≤ deadline') : Covered gap limit deadline' last pending :=
  ⟨h.paced, le_trans h.le hle⟩

/-- Nothing is given up while the sender is no later than `gap` and nothing under way is later than
`delay`. -/
theorem in_time (h : Covered gap limit deadline last pending) {delay : Int}
    (hlast : now ≤ last + gap) (hdelay : ∀ t ∈ pending, now ≤ t + delay)
    (hlimit : gap + delay ≤ limit) (hpos : 0 ≤ delay) : now ≤ deadline := by
  have hle := h.le
  cases pending with
  | nil =>
    change last + limit ≤ deadline at hle
    linarith
  | cons t pending =>
    have ht := hdelay t List.mem_cons_self
    change t - gap + limit ≤ deadline at hle
    linarith

end Covered
end Heartbeat
