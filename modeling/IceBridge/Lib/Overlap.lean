import Mathlib.Data.List.Basic
import Mathlib.Order.Basic

/-! Copying within an array, from the front to the back. When the place copied to begins inside the
place copied from, what is copied in the end has been written on the way. -/

namespace Overlap
variable {α : Type*}

def copy : (xs : List α) → (source dest count : ℕ) → List α
  | xs, _, _, 0 => xs
  | xs, source, dest, count + 1 =>
    match xs[source]? with
    | none => xs
    | some x => copy (xs.set dest x) (source + 1) (dest + 1) count

theorem length_copy (xs : List α) (source dest count : ℕ) :
    (copy xs source dest count).length = xs.length := by
  induction count generalizing xs source dest with
  | zero => rfl
  | succ count ih =>
    unfold copy
    split
    · rfl
    · rw [ih, List.length_set]

theorem getElem?_copy_of_lt (xs : List α) (source dest count : ℕ) {i : ℕ} (hi : i < dest) :
    (copy xs source dest count)[i]? = xs[i]? := by
  induction count generalizing xs source dest with
  | zero => rfl
  | succ count ih =>
    unfold copy
    split
    · rfl
    · rw [ih _ _ _ (Nat.lt_succ_of_lt hi), List.getElem?_set_ne (Nat.ne_of_gt hi)]

theorem take_copy_of_le (xs : List α) (source dest count : ℕ) {i : ℕ} (hi : i ≤ dest) :
    (copy xs source dest count).take i = xs.take i := by
  apply List.ext_getElem?
  intro k
  rw [List.getElem?_take, List.getElem?_take]
  split_ifs with hk
  · exact getElem?_copy_of_lt xs source dest count (Nat.lt_of_lt_of_le hk hi)
  · rfl

theorem copy_self (xs : List α) (source count : ℕ) : copy xs source source count = xs := by
  induction count generalizing source with
  | zero => rfl
  | succ count ih =>
    unfold copy
    split
    · rfl
    · next x hx =>
      obtain ⟨hsource, rfl⟩ := List.getElem?_eq_some_iff.mp hx
      rw [List.set_getElem_self, ih]

theorem getElem?_copy (xs : List α) (source n count : ℕ) {k : ℕ} (hk : k < count)
    (hin : source + n + count ≤ xs.length) :
    (copy xs source (source + n) count)[source + n + k]? =
      (copy xs source (source + n) count)[source + k]? := by
  induction count generalizing xs source k with
  | zero => exact absurd hk (Nat.not_lt_zero k)
  | succ count ih =>
    have hsource : source < xs.length := by omega
    have hcopy : copy xs source (source + n) (count + 1) =
        copy (xs.set (source + n) xs[source]) (source + 1) (source + 1 + n) count := by
      rw [copy, List.getElem?_eq_getElem hsource, Nat.add_right_comm]
    rw [hcopy]
    cases k with
    | zero =>
      show (copy _ _ _ _)[source + n]? = (copy _ _ _ _)[source]?
      rw [getElem?_copy_of_lt _ _ _ _ (by omega), getElem?_copy_of_lt _ _ _ _ (by omega),
        List.getElem?_set_self (by omega)]
      by_cases hn : n = 0
      · rw [hn, Nat.add_zero, List.getElem?_set_self hsource]
      · rw [List.getElem?_set_ne (by omega), List.getElem?_eq_getElem hsource]
    | succ k =>
      have hnext := @ih (xs.set (source + n) xs[source]) (source + 1) k (by omega)
        (by rw [List.length_set]; omega)
      have hdest : source + n + (k + 1) = source + 1 + n + k := by omega
      have hfrom : source + (k + 1) = source + 1 + k := by omega
      rw [hdest, hfrom]
      exact hnext

/-- The elements are moved as they are exactly when each is the one `n` places before it. -/
theorem moved_iff (xs : List α) (source n count : ℕ) (hin : source + n + count ≤ xs.length) :
    (∀ k < count, (copy xs source (source + n) count)[source + n + k]? = xs[source + k]?) ↔
      ∀ k, k + n < count → xs[source + k + n]? = xs[source + k]? := by
  have hlast := fun k hk => @getElem?_copy α xs source n count k hk hin
  constructor
  · intro h k hk
    have hnext : source + n + (k + n) = source + n + k + n := by omega
    have hhere : source + (k + n) = source + n + k := by omega
    calc xs[source + k + n]?
        = (copy xs source (source + n) count)[source + n + (k + n)]? := by
          rw [h (k + n) hk, ← Nat.add_assoc]
      _ = (copy xs source (source + n) count)[source + n + k]? := by rw [hlast (k + n) hk, hhere]
      _ = xs[source + k]? := h k (by omega)
  · intro h k hk
    by_cases hn : n = 0
    · rw [hn, Nat.add_zero, copy_self]
    -- what lies `n` places before is either not written or moved as it is
    induction k using Nat.strongRecOn with
    | ind k ih =>
      rw [hlast k hk]
      by_cases hfirst : k < n
      · exact getElem?_copy_of_lt xs source _ count (by omega)
      · have hback : source + k = source + n + (k - n) := by omega
        have hstep := h (k - n) (by omega)
        rw [hback, ih (k - n) (by omega) (by omega), ← hstep]
        congr 1
        omega

/-- The section of an array that is moved by `n` places arrives as it was exactly when it repeats
itself every `n` places, as it does when it is not longer than `n`. -/
theorem section_iff (xs : List α) (source n count : ℕ) (hin : source + n + count ≤ xs.length) :
    ((copy xs source (source + n) count).drop (source + n)).take count =
        (xs.drop source).take count ↔
      ((xs.drop source).take count).drop n <+: (xs.drop source).take count := by
  have hmoved : ((copy xs source (source + n) count).drop (source + n)).take count =
      (xs.drop source).take count ↔
        ∀ k < count, (copy xs source (source + n) count)[source + n + k]? = xs[source + k]? := by
    rw [List.ext_getElem?_iff]
    refine forall_congr' fun k => ?_
    rw [List.getElem?_take, List.getElem?_take, List.getElem?_drop, List.getElem?_drop]
    split_ifs with hk
    · exact (imp_iff_right hk).symm
    · exact iff_of_true rfl fun h => absurd h hk
  have hprefix : ((xs.drop source).take count).drop n <+: (xs.drop source).take count ↔
      ∀ k, k + n < count → xs[source + k + n]? = xs[source + k]? := by
    have hlength : (((xs.drop source).take count).drop n).length = count - n := by
      rw [List.length_drop, List.length_take, List.length_drop]
      omega
    have hat : ∀ k < count, ((xs.drop source).take count)[k]? = xs[source + k]? := by
      intro k hk
      rw [List.getElem?_take, if_pos hk, List.getElem?_drop]
    rw [List.prefix_iff_getElem?]
    refine forall_congr' fun k => ⟨fun h hk => ?_, fun h hk => ?_⟩
    · have hk' : k < (((xs.drop source).take count).drop n).length := by omega
      rw [← hat k (by omega), h hk', ← List.getElem?_eq_getElem, List.getElem?_drop,
        hat (n + k) (by omega), Nat.add_comm n k, Nat.add_assoc]
    · rw [hat k (by omega), ← h (by omega), ← List.getElem?_eq_getElem, List.getElem?_drop,
        hat (n + k) (by omega), Nat.add_comm n k, Nat.add_assoc]
  rw [hmoved, hprefix]
  exact moved_iff xs source n count hin

end Overlap
