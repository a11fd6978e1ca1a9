import Mathlib.Data.Set.Card
import Mathlib.Logic.Function.Basic

/-! Counting the keys of a map by kind. A counter kept by hand is right when it goes up by one
each time a new key of its kind is added. -/

namespace Tally
variable {κ τ : Type*}

def keys (f : κ → Option τ) (t : τ) : Set κ := {k | f k = some t}

noncomputable def number (f : κ → Option τ) (t : τ) : ℕ := (keys f t).ncard

theorem keys_none (t : τ) : keys (fun _ : κ => none) t = ∅ := by
  ext k
  simp [keys]

theorem number_none (t : τ) : number (fun _ : κ => none) t = 0 := by
  rw [number, keys_none, Set.ncard_empty]

variable [DecidableEq κ] {f : κ → Option τ} {k : κ}

theorem keys_update_self (t : τ) : keys (Function.update f k (some t)) t = insert k (keys f t) := by
  ext l
  rw [Set.mem_insert_iff, keys, Set.mem_ofPred_eq, Function.update_apply]
  split_ifs with hl
  · simp [hl]
  · simp [hl, keys]

theorem keys_update_of_ne {t u : τ} (hk : f k = none) (hne : u ≠ t) :
    keys (Function.update f k (some t)) u = keys f u := by
  ext l
  rw [keys, keys, Set.mem_ofPred_eq, Set.mem_ofPred_eq, Function.update_apply]
  split_ifs with hl
  · simp [hl, hk, hne.symm]
  · rfl

theorem finite_update {t : τ} (hk : f k = none) (hf : ∀ u, (keys f u).Finite) (u : τ) :
    (keys (Function.update f k (some t)) u).Finite := by
  by_cases hu : u = t
  · rw [hu, keys_update_self]
    exact (hf t).insert k
  · rw [keys_update_of_ne hk hu]
    exact hf u

theorem number_update_self {t : τ} (hk : f k = none) (hf : (keys f t).Finite) :
    number (Function.update f k (some t)) t = number f t + 1 := by
  rw [number, keys_update_self]
  apply Set.ncard_insert_of_notMem _ hf
  intro hmem
  exact Option.some_ne_none t (hmem.symm.trans hk)

theorem number_update_of_ne {t u : τ} (hk : f k = none) (hne : u ≠ t) :
    number (Function.update f k (some t)) u = number f u := by
  rw [number, number, keys_update_of_ne hk hne]

end Tally
