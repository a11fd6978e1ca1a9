import Mathlib.Algebra.BigOperators.Group.List.Basic
import Mathlib.Data.Nat.Cast.Defs

/-! Lists of places, some of which are vacant. Something new goes to the first vacant place, or to
the end when there is none, and a place that is given up stays where it is. -/

namespace Vacancy
variable {α β M : Type*} {l : List (Option α)} {a : α} {i j : ℕ}

def first (l : List (Option α)) : ℕ := l.findIdx Option.isNone

def fill (l : List (Option α)) (a : α) : List (Option α) :=
  if first l = l.length then l ++ [some a] else l.set (first l) (some a)

def vacate (l : List (Option α)) (i : ℕ) : List (Option α) := l.set i none

theorem first_lt (h : first l ≠ l.length) : first l < l.length :=
  Nat.lt_of_le_of_ne List.findIdx_le_length h

theorem getElem?_first (h : first l ≠ l.length) : l[first l]? = some none := by
  have hnone := List.findIdx_getElem (w := first_lt h)
  rw [List.getElem?_eq_getElem (first_lt h)]
  exact congrArg some (Option.isNone_iff_eq_none.mp hnone)

theorem first_vacant (l : List (Option α)) : l[first l]? = some none ∨ first l = l.length := by
  by_cases h : first l = l.length
  · exact Or.inr h
  · exact Or.inl (getElem?_first h)

theorem ne_first (h : l[i]? = some (some a)) : i ≠ first l := by
  rintro rfl
  rcases first_vacant l with hnone | hlength
  · exact Option.some_ne_none a (Option.some.inj (h.symm.trans hnone))
  · rw [hlength, List.getElem?_eq_none (Nat.le_refl _)] at h
    exact Option.some_ne_none _ h.symm

theorem getElem?_fill_first (l : List (Option α)) (a : α) :
    (fill l a)[first l]? = some (some a) := by
  unfold fill
  split_ifs with h
  · rw [h, List.getElem?_append_right (Nat.le_refl _), Nat.sub_self]
    rfl
  · exact List.getElem?_set_self (first_lt h)

theorem getElem?_fill_of_ne (a : α) (h : j ≠ first l) : (fill l a)[j]? = l[j]? := by
  unfold fill
  split_ifs with hlength
  · rw [hlength] at h
    rcases Nat.lt_or_gt_of_ne h with hlt | hgt
    · exact List.getElem?_append_left hlt
    · rw [List.getElem?_eq_none (Nat.le_of_lt hgt), List.getElem?_eq_none]
      rw [List.length_append]
      exact hgt
  · exact List.getElem?_set_ne (Ne.symm h)

theorem first_map (f : α → β) (l : List (Option α)) : first (l.map (Option.map f)) = first l := by
  rw [first, List.findIdx_map]
  congr 1
  funext x
  cases x <;> rfl

theorem map_fill (f : α → β) (l : List (Option α)) (a : α) :
    (fill l a).map (Option.map f) = fill (l.map (Option.map f)) (f a) := by
  unfold fill
  rw [first_map, List.length_map]
  split_ifs
  · exact List.map_append
  · exact List.map_set

theorem map_vacate (f : α → β) (l : List (Option α)) (i : ℕ) :
    (vacate l i).map (Option.map f) = vacate (l.map (Option.map f)) i := List.map_set

/-! ## Sums over the places that are taken -/

section total
variable [AddCommMonoid M] (f : α → M)

def weight (x : Option α) : M := (x.map f).getD 0

def total (l : List (Option α)) : M := (l.map (weight f)).sum

@[simp] theorem total_nil : total f [] = 0 := rfl

theorem total_cons (x : Option α) (l : List (Option α)) :
    total f (x :: l) = weight f x + total f l := rfl

theorem total_append (l r : List (Option α)) : total f (l ++ r) = total f l + total f r := by
  rw [total, List.map_append, List.sum_append]
  rfl

theorem total_set {x : Option α} (y : Option α) (h : l[i]? = some x) :
    total f (l.set i y) + weight f x = total f l + weight f y := by
  induction l generalizing i with
  | nil => exact absurd h.symm (Option.some_ne_none x)
  | cons z l ih =>
    cases i with
    | zero =>
      obtain rfl := Option.some.inj h
      rw [List.set_cons_zero, total_cons, total_cons]
      rw [add_right_comm, add_comm (weight f y), add_right_comm]
    | succ i =>
      rw [List.set_cons_succ, total_cons, total_cons, add_assoc, add_assoc]
      exact congrArg (weight f z + ·) (ih h)

theorem total_fill (l : List (Option α)) (a : α) : total f (fill l a) = total f l + f a := by
  unfold fill
  split_ifs with h
  · rw [total_append, total_cons, total_nil, add_zero]
    rfl
  · have hset := total_set f (some a) (getElem?_first h)
    exact (add_zero _).symm.trans hset

theorem total_vacate {x : Option α} (h : l[i]? = some x) :
    total f (vacate l i) + weight f x = total f l :=
  (total_set f none h).trans (add_zero _)

end total

theorem count_eq_total [AddCommMonoidWithOne M] [DecidableEq α] (a : α) (l : List (Option α)) :
    (l.count (some a) : M) = total (fun b => if b = a then 1 else 0) l := by
  induction l with
  | nil => exact Nat.cast_zero
  | cons x l ih =>
    rw [List.count_cons, Nat.cast_add, ih, total_cons, add_comm]
    congr 1
    cases x with
    | none => exact Nat.cast_zero
    | some b => simp [weight]

end Vacancy
