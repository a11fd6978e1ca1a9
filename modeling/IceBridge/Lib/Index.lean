import Mathlib.Data.List.Basic
import Mathlib.Data.List.Nodup
import Mathlib.Data.List.Perm.Basic
import Mathlib.Logic.Function.Basic

/-! A list with an index of it: for each element the place where it stands. Elements are
appended, and taken out by moving the last one into the gap. -/

namespace Index
variable {α : Type*} {l : List α} {pos : α → Option ℕ}

/-- `pos` tells where each element of `l` stands, and knows of no others. -/
def Indexes (l : List α) (pos : α → Option ℕ) : Prop := ∀ k i, pos k = some i ↔ l[i]? = some k

theorem indexes_nil : Indexes ([] : List α) fun _ => none := by
  intro k i
  simp

theorem Indexes.nodup (h : Indexes l pos) : l.Nodup := by
  rw [List.nodup_iff_injective_get]
  intro i j hij
  have hi := (h (l.get i) i).mpr (List.getElem?_eq_getElem i.isLt)
  have hj := (h (l.get j) j).mpr (List.getElem?_eq_getElem j.isLt)
  rw [← hij] at hj
  exact Fin.ext (Option.some.inj (hi.symm.trans hj))

theorem Indexes.isSome_iff (h : Indexes l pos) (k : α) : (pos k).isSome ↔ k ∈ l := by
  rw [Option.isSome_iff_exists, List.mem_iff_getElem?]
  exact exists_congr fun i => h k i

def moveLast (l : List α) (i : ℕ) (last : α) : List α := (l.set i last).dropLast

theorem getElem?_moveLast {i : ℕ} {last : α} (j : ℕ) :
    (moveLast l i last)[j]? =
      if j + 1 < l.length then (if j = i then some last else l[j]?) else none := by
  rw [moveLast, List.getElem?_dropLast, List.length_set, List.getElem?_set]
  by_cases hj : j + 1 < l.length
  · have hlt : j < l.length - 1 := by omega
    have hlt' : i < l.length ∨ j ≠ i := by omega
    rw [if_pos hlt, if_pos hj]
    by_cases hij : i = j
    · have hi : j < l.length := by omega
      simp [hij, hi]
    · simp [hij, Ne.symm hij]
  · have hlt : ¬ j < l.length - 1 := by omega
    rw [if_neg hlt, if_neg hj]

theorem map_moveLast {β : Type*} (f : α → β) (i : ℕ) (last : α) :
    (moveLast l i last).map f = moveLast (l.map f) i (f last) := by
  simp [moveLast, List.map_set, List.map_dropLast]

theorem perm_moveLast {i : ℕ} {k last : α} (hk : l[i]? = some k)
    (hlast : l[l.length - 1]? = some last) : (k :: moveLast l i last).Perm l := by
  obtain ⟨hi, rfl⟩ := List.getElem?_eq_some_iff.mp hk
  obtain ⟨m, rfl⟩ : ∃ m, l = m ++ [last] := by
    have hmem : last ∈ l.getLast? := List.getLast?_eq_getElem? ▸ hlast
    exact ⟨_, (List.dropLast_append_getLast? last hmem).symm⟩
  unfold moveLast
  rcases Nat.lt_or_ge i m.length with hlt | hge
  · rw [List.set_append_left _ _ hlt, List.dropLast_concat, List.getElem_append_left hlt]
    have hset := List.set_perm_cons_eraseIdx hlt last
    have hback := List.getElem_cons_eraseIdx_perm hlt
    calc (m[i] :: m.set i last).Perm (m[i] :: last :: m.eraseIdx i) := hset.cons _
      _ |>.Perm (last :: m[i] :: m.eraseIdx i) := List.Perm.swap ..
      _ |>.Perm (last :: m) := hback.cons _
      _ |>.Perm (m ++ [last]) := (List.perm_append_singleton _ _).symm
  · obtain rfl : i = m.length := by
      rw [List.length_append, List.length_singleton] at hi
      omega
    simpa using (List.perm_append_singleton last m).symm

theorem perm_filter_moveLast {β : Type*} [DecidableEq β] {f : α → β} {i : ℕ} {k last : α}
    (hnodup : (l.map f).Nodup) (hk : l[i]? = some k) (hlast : l[l.length - 1]? = some last) :
    (moveLast l i last).Perm (l.filter fun a => f a ≠ f k) := by
  have hperm := perm_moveLast hk hlast
  have hfilter := hperm.filter fun a => f a ≠ f k
  rw [List.filter_cons_of_neg (by simp)] at hfilter
  refine List.Perm.trans (List.Perm.of_eq ?_) hfilter
  symm
  rw [List.filter_eq_self]
  intro a ha
  have hcons := (hperm.map f).nodup_iff.mpr hnodup
  rw [List.map_cons, List.nodup_cons] at hcons
  have hne : f a ≠ f k := fun heq => hcons.1 (heq ▸ List.mem_map_of_mem ha)
  simpa using hne

variable [DecidableEq α]

theorem Indexes.push (h : Indexes l pos) {k : α} (hk : k ∉ l) :
    Indexes (l ++ [k]) (Function.update pos k (some l.length)) := by
  intro x i
  rw [List.getElem?_append]
  by_cases hx : x = k
  · subst hx
    rw [Function.update_self]
    constructor
    · intro hi
      obtain rfl := Option.some.inj hi
      simp
    · intro hi
      split_ifs at hi with hlt
      · exact absurd (List.mem_of_getElem? hi) hk
      · have hzero : i - l.length = 0 := by
          by_contra hne
          simp [hne] at hi
        congr 1
        omega
  · rw [Function.update_of_ne hx, h x i]
    split_ifs with hlt
    · exact Iff.rfl
    · have hnone : l[i]? = none := List.getElem?_eq_none (by omega)
      simp [hnone, List.getElem?_singleton, Ne.symm hx]

theorem indexes_push_iff (h : Indexes l pos) (k : α) :
    Indexes (l ++ [k]) (Function.update pos k (some l.length)) ↔ k ∉ l := by
  constructor
  · intro hpush hk
    have hnodup := List.nodup_append.mp hpush.nodup
    exact hnodup.2.2 k hk k (List.mem_singleton_self k) rfl
  · exact h.push

variable {i : ℕ} {k last : α}

theorem Indexes.remove (h : Indexes l pos) (hk : l[i]? = some k)
    (hlast : l[l.length - 1]? = some last) :
    Indexes (moveLast l i last) (Function.update (Function.update pos last (some i)) k none) := by
  have hi : i < l.length := (List.getElem?_eq_some_iff.mp hk).1
  have hposk := (h k i).mpr hk
  have hposlast := (h last _).mpr hlast
  intro x j
  rw [getElem?_moveLast]
  by_cases hx : x = k
  · subst hx
    rw [Function.update_self]
    refine iff_of_false (by simp) fun hj => ?_
    split_ifs at hj with hlt hji
    · obtain rfl := Option.some.inj hj
      have heq := Option.some.inj (hposk.symm.trans hposlast)
      omega
    · have heq := Option.some.inj (hposk.symm.trans ((h x j).mpr hj))
      omega
  · rw [Function.update_of_ne hx]
    by_cases hxlast : x = last
    · subst hxlast
      rw [Function.update_self]
      constructor
      · intro hj
        obtain rfl := Option.some.inj hj
        have hne : i ≠ l.length - 1 := by
          rintro rfl
          exact hx (Option.some.inj (hlast.symm.trans hk))
        have hlt : i + 1 < l.length := by omega
        simp [hlt]
      · intro hj
        split_ifs at hj with hlt hji
        · rw [hji]
        · have heq := Option.some.inj (hposlast.symm.trans ((h x j).mpr hj))
          omega
    · rw [Function.update_of_ne hxlast, h x j]
      constructor
      · intro hj
        have hlt : j < l.length := (List.getElem?_eq_some_iff.mp hj).1
        have hne : j ≠ l.length - 1 := by
          rintro rfl
          exact hxlast (Option.some.inj (hj.symm.trans hlast))
        have hji : j ≠ i := by
          rintro rfl
          exact hx (Option.some.inj (hj.symm.trans hk))
        have hlt' : j + 1 < l.length := by omega
        rw [if_pos hlt', if_neg hji, hj]
      · intro hj
        split_ifs at hj with hlt hji
        · exact absurd (Option.some.inj hj).symm hxlast
        · exact hj

theorem Indexes.mem_moveLast (h : Indexes l pos) (hk : l[i]? = some k)
    (hlast : l[l.length - 1]? = some last) (x : α) :
    x ∈ moveLast l i last ↔ x ∈ l ∧ x ≠ k := by
  rw [← (h.remove hk hlast).isSome_iff, ← h.isSome_iff]
  by_cases hx : x = k
  · simp [hx]
  · rw [Function.update_of_ne hx]
    by_cases hxlast : x = last
    · subst hxlast
      have hpos := (h x _).mpr hlast
      simp [hx, hpos]
    · simp [hx, hxlast]

theorem exists_indexes (h : l.Nodup) : ∃ pos, Indexes l pos := by
  refine ⟨fun x => if x ∈ l then some (l.idxOf x) else none, fun x j => ?_⟩
  show (if x ∈ l then some (l.idxOf x) else none) = some j ↔ _
  by_cases hx : x ∈ l
  · rw [if_pos hx]
    constructor
    · intro hj
      obtain rfl := Option.some.inj hj
      exact List.getElem?_idxOf hx
    · intro hj
      obtain ⟨hlt, rfl⟩ := List.getElem?_eq_some_iff.mp hj
      rw [h.idxOf_getElem]
  · rw [if_neg hx]
    exact iff_of_false (by simp) fun hj => hx (List.mem_of_getElem? hj)

theorem nodup_moveLast (h : l.Nodup) (hk : l[i]? = some k)
    (hlast : l[l.length - 1]? = some last) : (moveLast l i last).Nodup := by
  obtain ⟨_, hpos⟩ := exists_indexes h
  exact (hpos.remove hk hlast).nodup

theorem mem_moveLast_iff (h : l.Nodup) (hk : l[i]? = some k)
    (hlast : l[l.length - 1]? = some last) (x : α) :
    x ∈ moveLast l i last ↔ x ∈ l ∧ x ≠ k := by
  obtain ⟨_, hpos⟩ := exists_indexes h
  exact hpos.mem_moveLast hk hlast x

/-- Deleted before the last one's entry is written, it comes back when it is the last itself. -/
theorem indexes_remove_before_iff (h : Indexes l pos) (hk : l[i]? = some k)
    (hlast : l[l.length - 1]? = some last) :
    Indexes (moveLast l i last) (Function.update (Function.update pos k none) last (some i)) ↔
      i + 1 ≠ l.length := by
  have hi : i < l.length := (List.getElem?_eq_some_iff.mp hk).1
  constructor
  · intro hindexes hlen
    have hstale := (hindexes last i).mp (Function.update_self ..)
    rw [getElem?_moveLast, if_neg (by omega)] at hstale
    exact absurd hstale (by simp)
  · intro hlen
    have hne : last ≠ k := by
      rintro rfl
      have heq := Option.some.inj (((h last i).mpr hk).symm.trans ((h last _).mpr hlast))
      omega
    rw [Function.update_comm hne.symm]
    exact h.remove hk hlast

end Index
