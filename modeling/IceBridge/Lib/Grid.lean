import Mathlib.Data.Prod.Basic
import Mathlib.Logic.Function.Basic

/-! Arrays with two indices, and what becomes of them when cells are marked one after another. -/

abbrev Grid (ι κ α : Type*) := ι → κ → α

namespace Grid
variable {ι κ α : Type*} [DecidableEq ι] [DecidableEq κ]

def set (g : Grid ι κ α) (i : ι) (j : κ) (a : α) : Grid ι κ α :=
  Function.update g i (Function.update (g i) j a)

theorem set_apply (g : Grid ι κ α) (i k : ι) (j l : κ) (a : α) :
    g.set i j a k l = if k = i ∧ l = j then a else g k l := by
  unfold set
  rw [Function.update_apply]
  by_cases hk : k = i
  · subst hk
    rw [if_pos rfl, Function.update_apply]
    simp only [true_and]
  · rw [if_neg hk, if_neg fun h => hk h.1]

def mark (g : Grid ι κ α) (cells : List (ι × κ)) (a : α) : Grid ι κ α :=
  cells.foldl (fun g c => g.set c.1 c.2 a) g

theorem mark_append (g : Grid ι κ α) (cells cells' : List (ι × κ)) (a : α) :
    g.mark (cells ++ cells') a = (g.mark cells a).mark cells' a := List.foldl_append

theorem mark_apply (g : Grid ι κ α) (cells : List (ι × κ)) (a : α) (i : ι) (j : κ) :
    g.mark cells a i j = if (i, j) ∈ cells then a else g i j := by
  induction cells generalizing g with
  | nil => exact (if_neg List.not_mem_nil).symm
  | cons c cells ih =>
    show (g.set c.1 c.2 a).mark cells a i j = _
    rw [ih, set_apply]
    by_cases hcells : (i, j) ∈ cells
    · rw [if_pos hcells, if_pos (List.mem_cons_of_mem c hcells)]
    · have hmem : (i, j) ∈ c :: cells ↔ i = c.1 ∧ j = c.2 := by
        rw [List.mem_cons, or_iff_left hcells, Prod.ext_iff]
      rw [if_neg hcells]
      simp only [hmem]

end Grid

namespace Grid
variable {ι α : Type*} [DecidableEq ι]

/-- Marking with the indices the wrong way round goes unnoticed only where for each cell the
opposite one is marked too. -/
theorem mark_swap_iff {g : Grid ι ι α} {cells : List (ι × ι)} {a : α}
    (h : ∀ c ∈ cells, g c.1 c.2 ≠ a) :
    g.mark (cells.map Prod.swap) a = g.mark cells a ↔ ∀ c ∈ cells, c.swap ∈ cells := by
  have hswap : ∀ i j, (i, j) ∈ cells.map Prod.swap ↔ (j, i) ∈ cells := by
    intro i j
    refine List.mem_map.trans ⟨?_, fun hmem => ⟨(j, i), hmem, rfl⟩⟩
    rintro ⟨⟨k, l⟩, hc, hkl⟩
    obtain ⟨rfl, rfl⟩ := Prod.mk.inj hkl
    exact hc
  constructor
  · intro heq c hc
    have hcell := congrFun (congrFun heq c.1) c.2
    rw [mark_apply, mark_apply, if_pos hc] at hcell
    by_contra hnot
    rw [if_neg fun hmem => hnot ((hswap c.1 c.2).mp hmem)] at hcell
    exact h c hc hcell
  · intro hclosed
    funext i j
    rw [mark_apply, mark_apply]
    have hiff : (i, j) ∈ cells.map Prod.swap ↔ (i, j) ∈ cells :=
      (hswap i j).trans ⟨fun hc => hclosed (j, i) hc, fun hc => hclosed (i, j) hc⟩
    simp only [hiff]

end Grid
