import Mathlib.Data.Int.CardIntervalMod
import Mathlib.Data.List.Nodup

/-! Going round a list: one element after the other is taken, and after the last one the first
comes again. Over any number of turns two elements are taken equally often, up to one. -/

namespace Rotation
variable {α : Type*} {xs ys zs : List α} {s t : ℕ}

/-- `ys` is what is taken from `xs` in as many turns, from position `s` on. -/
def Round (xs : List α) (s : ℕ) (ys : List α) : Prop :=
  ∀ k < ys.length, ys[k]? = xs[(s + k) % xs.length]?

theorem round_nil : Round xs s [] := fun _ hk => absurd hk (Nat.not_lt_zero _)

theorem round_cons {y : α} :
    Round xs s (y :: ys) ↔ xs[s % xs.length]? = some y ∧ Round xs (s + 1) ys := by
  constructor
  · intro h
    refine ⟨(h 0 (Nat.succ_pos _)).symm, fun k hk => ?_⟩
    have hnext := h (k + 1) (Nat.succ_lt_succ hk)
    rwa [List.getElem?_cons_succ, Nat.add_comm k 1, ← Nat.add_assoc] at hnext
  · rintro ⟨hfirst, hrest⟩ k hk
    cases k with
    | zero => exact hfirst.symm
    | succ k =>
      rw [List.getElem?_cons_succ, Nat.add_comm k 1, ← Nat.add_assoc]
      exact hrest k (Nat.lt_of_succ_lt_succ hk)

theorem Round.congr (hst : s % xs.length = t % xs.length) (h : Round xs s ys) : Round xs t ys := by
  intro k hk
  rw [h k hk, Nat.add_mod, hst, ← Nat.add_mod]

theorem Round.take (h : Round xs s ys) (n : ℕ) : Round xs s (ys.take n) := by
  intro k hk
  rw [List.length_take, lt_min_iff] at hk
  rw [List.getElem?_take_of_lt hk.1]
  exact h k hk.2

theorem Round.append (h : Round xs s ys) (hzs : Round xs (s + ys.length) zs) :
    Round xs s (ys ++ zs) := by
  induction ys generalizing s with
  | nil => exact hzs
  | cons y ys ih =>
    obtain ⟨hfirst, hrest⟩ := round_cons.mp h
    refine round_cons.mpr ⟨hfirst, ih hrest ?_⟩
    rwa [List.length_cons, Nat.add_comm ys.length 1, ← Nat.add_assoc] at hzs

/-! ## How often each element is taken -/

theorem countP_range (p : ℕ → Prop) [DecidablePred p] (n : ℕ) :
    (List.range n).countP (fun k => decide (p k)) = Nat.count p n := by
  induction n with
  | zero => rfl
  | succ n ih =>
    rw [List.range_succ, List.countP_append, ih, Nat.count_succ, List.countP_singleton]
    simp

variable [BEq α] [LawfulBEq α]

theorem Round.count_eq (h : Round xs s ys) (hnd : xs.Nodup) {i : ℕ} (hi : i < xs.length) :
    ys.count xs[i] = Nat.count (fun k => (s + k) % xs.length = i) ys.length := by
  have hpos : 0 < xs.length := Nat.zero_lt_of_lt hi
  have hmap : ys.map some = (List.range ys.length).map fun k => xs[(s + k) % xs.length]? := by
    apply List.ext_getElem?
    intro k
    by_cases hk : k < ys.length
    · have hturn := h k hk
      rw [List.getElem?_eq_getElem hk] at hturn
      simp [hk, ← hturn]
    · simp [hk]
  have hcount := List.count_map_of_injective ys some (Option.some_injective α) xs[i]
  rw [← hcount, hmap, List.count, List.countP_map, ← countP_range]
  apply List.countP_congr
  intro k _
  have hk : (s + k) % xs.length < xs.length := Nat.mod_lt _ hpos
  simp [List.getElem?_eq_getElem hk, hnd.getElem_inj_iff]

/-- From any start a residue occurs among `n` numbers in a row `n / m` times or once more. -/
theorem count_add_mod {m i : ℕ} (hi : i < m) (s n : ℕ) :
    n / m ≤ Nat.count (fun k => (s + k) % m = i) n ∧
      Nat.count (fun k => (s + k) % m = i) n ≤ n / m + 1 := by
  have hm : 0 < m := Nat.zero_lt_of_lt hi
  have hlt : s % m < m := Nat.mod_lt s hm
  have hiff : (fun k => (s + k) % m = i) = fun k => k ≡ i + (m - s % m) [MOD m] := by
    funext k
    apply propext
    have hshift : s + (i + (m - s % m)) ≡ i [MOD m] := calc
      s + (i + (m - s % m)) ≡ s % m + (i + (m - s % m)) [MOD m] :=
        (Nat.mod_modEq s m).symm.add_right _
      _ = i + m := by omega
      _ ≡ i [MOD m] := Nat.add_modEq_right
    constructor
    · intro hk
      apply Nat.ModEq.add_left_cancel' s
      exact (hk.trans (Nat.mod_eq_of_lt hi).symm : s + k ≡ i [MOD m]).trans hshift.symm
    · intro hk
      have hsum : s + k ≡ i [MOD m] := (hk.add_left s).trans hshift
      exact Eq.trans hsum (Nat.mod_eq_of_lt hi)
  have hcount : Nat.count (fun k => (s + k) % m = i) n =
      Nat.count (fun k => k ≡ i + (m - s % m) [MOD m]) n := by
    simp only [Nat.count_eq_card_filter_range, hiff]
  rw [hcount, Nat.count_modEq_card n hm]
  split_ifs
  · exact ⟨Nat.le_add_right _ _, le_rfl⟩
  · exact ⟨le_rfl, Nat.le_add_right _ _⟩

theorem Round.count_le (h : Round xs s ys) (hnd : xs.Nodup) {x y : α} (hx : x ∈ xs) (hy : y ∈ xs) :
    ys.count x ≤ ys.count y + 1 := by
  obtain ⟨i, hi, rfl⟩ := List.getElem_of_mem hx
  obtain ⟨j, hj, rfl⟩ := List.getElem_of_mem hy
  rw [h.count_eq hnd hi, h.count_eq hnd hj]
  apply (count_add_mod hi s ys.length).2.trans
  exact Nat.add_le_add_right (count_add_mod hj s ys.length).1 1

end Rotation
