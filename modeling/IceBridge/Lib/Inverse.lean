import Mathlib.Logic.Function.Basic

/-! Two tables that are kept each other's inverse by hand. -/

namespace Table
variable {α β : Type*} {f : α → Option β} {g g' : β → Option α} {a : α} {b : β}

def Inverse (f : α → Option β) (g : β → Option α) : Prop :=
  ∀ a b, f a = some b ↔ g b = some a

theorem Inverse.right_unique (h : Inverse f g) (h' : Inverse f g') : g' = g := by
  funext b
  ext a
  rw [← h' a b, h a b]

theorem Inverse.update_iff [DecidableEq α] [DecidableEq β] (h : Inverse f g) (hb : g b = none) :
    Inverse (Function.update f a (some b)) (Function.update g b (some a)) ↔ f a = none := by
  constructor
  · intro hnew
    cases hold : f a with
    | none => rfl
    | some b' =>
      have hne : b' ≠ b := by
        rintro rfl
        have hback := (h a b').mp hold
        rw [hb] at hback
        exact absurd hback (by simp)
      have hstill : Function.update g b (some a) b' = some a := by
        rw [Function.update_of_ne hne]
        exact (h a b').mp hold
      have hlost := (hnew a b').mpr hstill
      rw [Function.update_self] at hlost
      exact absurd (Option.some.inj hlost).symm hne
  · intro ha x y
    by_cases hx : x = a
    · subst hx
      by_cases hy : y = b
      · simp [hy]
      · rw [Function.update_self, Function.update_of_ne hy, ← h x y, ha]
        simp [Ne.symm hy]
    · rw [Function.update_of_ne hx]
      by_cases hy : y = b
      · subst hy
        rw [Function.update_self, h x y, hb]
        simp [Ne.symm hx]
      · rw [Function.update_of_ne hy, h x y]

end Table
