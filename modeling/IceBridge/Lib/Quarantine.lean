import Mathlib.Data.List.Basic
import Mathlib.Data.List.Infix
import Mathlib.Order.MinMax

/-! A pool whose oldest element is taken only when it has more than `n` of them. What was returned
comes out again only after `n` others have been returned. -/

namespace Quarantine
variable {α : Type*} {n : ℕ} {pool returned : List α} {a : α}

structure Keeps (n : ℕ) (pool returned : List α) : Prop where
  suffix : pool <:+ returned
  least : min returned.length n ≤ pool.length

theorem keeps_nil (n : ℕ) : Keeps n ([] : List α) [] :=
  ⟨List.suffix_rfl, by simp⟩

theorem Keeps.put (h : Keeps n pool returned) (a : α) : Keeps n (pool ++ [a]) (returned ++ [a]) := by
  obtain ⟨before, rfl⟩ := h.suffix
  have hleast := h.least
  refine ⟨⟨before, (List.append_assoc ..).symm⟩, ?_⟩
  simp only [List.length_append, List.length_singleton] at hleast ⊢
  omega

theorem Keeps.take (h : Keeps n (a :: pool) returned) (hmany : n < (a :: pool).length) :
    Keeps n pool returned := by
  refine ⟨(List.suffix_cons a pool).trans h.suffix, ?_⟩
  exact (Nat.min_le_right _ _).trans (Nat.le_of_lt_succ hmany)

theorem Keeps.mem {before after : List α} (h : Keeps n pool (before ++ a :: after))
    (hfew : after.length < n) : a ∈ pool := by
  have hleast := h.least
  have hlong : (a :: after).length ≤ pool.length := by
    simp only [List.length_append, List.length_cons] at hleast ⊢
    omega
  have hwithin : a :: after <:+ pool :=
    List.suffix_of_suffix_length_le (List.suffix_append before (a :: after)) h.suffix hlong
  exact hwithin.subset List.mem_cons_self

end Quarantine
