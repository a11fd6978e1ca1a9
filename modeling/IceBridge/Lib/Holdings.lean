import Mathlib.Data.Finset.Card
import Mathlib.Data.Fintype.Basic
import Mathlib.Logic.Equiv.Basic
import Mathlib.Logic.ExistsUnique

/-! Things in places. `f p` is the thing the place `p` holds; moving a thing to an empty place
and exchanging two things are both a permutation of the places. -/

namespace Holdings
variable {P I : Type*} {f g : P → Option I} {made : List I}

def InOnePlace (f : P → Option I) (made : List I) : Prop := ∀ i ∈ made, ∃! p, f p = some i

def Known (f : P → Option I) (made : List I) : Prop := ∀ p i, f p = some i → i ∈ made

theorem inOnePlace_perm (h : InOnePlace f made) (σ : Equiv.Perm P) : InOnePlace (f ∘ σ) made := by
  intro i hi
  obtain ⟨p, hp, huniq⟩ := h i hi
  refine ⟨σ.symm p, by simpa using hp, fun q hq => ?_⟩
  exact (Equiv.eq_symm_apply σ).mpr (huniq (σ q) hq)

theorem known_perm (h : Known f made) (σ : Equiv.Perm P) : Known (f ∘ σ) made :=
  fun p i hp => h (σ p) i hp

variable [DecidableEq P]

theorem eq_comp_swap {a b : P} (ha : g a = f b) (hb : g b = f a)
    (hrest : ∀ p, p ≠ a → p ≠ b → g p = f p) : g = f ∘ Equiv.swap a b := by
  funext p
  by_cases hpa : p = a
  · rw [hpa, Function.comp_apply, Equiv.swap_apply_left, ha]
  · by_cases hpb : p = b
    · rw [hpb, Function.comp_apply, Equiv.swap_apply_right, hb]
    · rw [Function.comp_apply, Equiv.swap_apply_of_ne_of_ne hpa hpb, hrest p hpa hpb]

/-- The thing at `i` goes to the empty place `d`, and the one at `l` fills the gap it leaves. -/
theorem eq_comp_swap_swap {d i l : P} (hdl : d ≠ l) (hempty : f d = none)
    (hd : g d = f i) (hl : g l = none) (hi : i ≠ l → g i = f l)
    (hrest : ∀ p, p ≠ d → p ≠ i → p ≠ l → g p = f p) :
    g = f ∘ (Equiv.swap i l).trans (Equiv.swap d i) := by
  rw [Equiv.coe_trans, ← Function.comp_assoc]
  apply eq_comp_swap
  · by_cases hil : i = l
    · rw [hil, hl, Function.comp_apply, Equiv.swap_apply_right, hempty]
    · rw [hi hil, Function.comp_apply, Equiv.swap_apply_of_ne_of_ne hdl.symm (Ne.symm hil)]
  · rw [hl, Function.comp_apply, Equiv.swap_apply_right, hempty]
  · intro p hpi hpl
    by_cases hpd : p = d
    · rw [hpd, hd, Function.comp_apply, Equiv.swap_apply_left]
    · rw [hrest p hpd hpi hpl, Function.comp_apply, Equiv.swap_apply_of_ne_of_ne hpd hpi]

theorem inOnePlace_put {p : P} {i : I} (h : InOnePlace f made) (hknown : Known f made)
    (hempty : f p = none) (hnew : i ∉ made) :
    InOnePlace (Function.update f p (some i)) (i :: made) := by
  intro j hj
  rcases List.mem_cons.mp hj with rfl | hj
  · refine ⟨p, Function.update_self .., fun q hq => ?_⟩
    change Function.update f p (some j) q = some j at hq
    by_contra hqp
    rw [Function.update_of_ne hqp] at hq
    exact hnew (hknown q j hq)
  · have hij : i ≠ j := by
      rintro rfl
      exact hnew hj
    obtain ⟨q, hq, huniq⟩ := h j hj
    have hqp : q ≠ p := by
      rintro rfl
      exact Option.some_ne_none j (hq.symm.trans hempty)
    refine ⟨q, (Function.update_of_ne hqp ..).trans hq, fun r hr => huniq r ?_⟩
    change Function.update f p (some i) r = some j at hr
    have hrp : r ≠ p := by
      rintro rfl
      rw [Function.update_self] at hr
      exact hij (Option.some.inj hr)
    exact (Function.update_of_ne hrp ..).symm.trans hr

theorem known_put {p : P} {i : I} (h : Known f made) :
    Known (Function.update f p (some i)) (i :: made) := by
  intro q j hq
  by_cases hqp : q = p
  · rw [hqp, Function.update_self] at hq
    exact List.mem_cons.mpr (.inl (Option.some.inj hq).symm)
  · rw [Function.update_of_ne hqp] at hq
    exact List.mem_cons.mpr (.inr (h q j hq))

theorem not_inOnePlace_drop {p : P} {i : I} (h : InOnePlace f made) (hknown : Known f made)
    (hp : f p = some i) : ¬ InOnePlace (Function.update f p none) made := by
  intro hdrop
  have hi := hknown p i hp
  obtain ⟨q, hq, -⟩ := hdrop i hi
  have hqp : q ≠ p := by
    rintro rfl
    rw [Function.update_self] at hq
    exact Option.some_ne_none i hq.symm
  rw [Function.update_of_ne hqp] at hq
  exact hqp ((h i hi).unique hq hp)

/-! ## How many places hold a thing -/

section Count
variable [Fintype P] [DecidableEq I]

def count (f : P → Option I) (i : I) : ℕ := (Finset.univ.filter fun p => f p = some i).card

omit [DecidableEq P] in
theorem count_eq_zero_iff {i : I} : count f i = 0 ↔ ∀ p, f p ≠ some i := by
  simp [count, Finset.filter_eq_empty_iff]

theorem count_update (f : P → Option I) (p : P) (x : Option I) (i : I) :
    count (Function.update f p x) i + (if f p = some i then 1 else 0) =
      count f i + if x = some i then 1 else 0 := by
  have hrest : (Finset.univ.erase p).filter (fun q => Function.update f p x q = some i) =
      (Finset.univ.erase p).filter fun q => f q = some i :=
    Finset.filter_congr fun q hq => by rw [Function.update_of_ne (Finset.ne_of_mem_erase hq)]
  have hsplit : ∀ g : P → Option I, count g i =
      ((Finset.univ.erase p).filter fun q => g q = some i).card + if g p = some i then 1 else 0 := by
    intro g
    rw [count, ← Finset.insert_erase (Finset.mem_univ p), Finset.filter_insert]
    split
    · rw [Finset.card_insert_of_notMem (by simp), Finset.erase_insert (Finset.notMem_erase p _)]
    · rw [Finset.erase_insert (Finset.notMem_erase p _), Nat.add_zero]
  rw [hsplit (Function.update f p x), hsplit f, hrest, Function.update_self]
  omega

omit [DecidableEq P] in
theorem count_perm (f : P → Option I) (σ : Equiv.Perm P) (i : I) :
    count (f ∘ σ) i = count f i := by
  refine Finset.card_bij (fun p _ => σ p) (fun p hp => ?_) (fun p _ q _ => ?_) fun p hp => ?_
  · simpa using hp
  · exact fun heq => σ.injective heq
  · exact ⟨σ.symm p, by simpa using hp, σ.apply_symm_apply p⟩

omit [DecidableEq P] in
theorem eq_of_count_eq_one {f : P → Option I} {i : I} (h : count f i = 1) {p q : P}
    (hp : f p = some i) (hq : f q = some i) : p = q := by
  obtain ⟨r, hr⟩ := Finset.card_eq_one.mp h
  have hpr : p ∈ ({r} : Finset P) := by simp [← hr, hp]
  have hqr : q ∈ ({r} : Finset P) := by simp [← hr, hq]
  exact (Finset.mem_singleton.mp hpr).trans (Finset.mem_singleton.mp hqr).symm

end Count

end Holdings
