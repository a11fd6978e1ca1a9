import Mathlib.Data.List.Perm.Basic
import Mathlib.Logic.Function.Basic

/-! A fixed supply of slots that are lent out and given back: the free ones, those in use, and
which one each borrower has. -/

namespace Slots
variable {σ κ : Type*} {all free used : List σ} {slot : κ → Option σ}

/-- Every slot is free or in use, no slot is both or twice either, and those in use are had by one
borrower each. -/
structure Allots (all free used : List σ) (slot : κ → Option σ) : Prop where
  nodup : all.Nodup
  perm : (free ++ used).Perm all
  used_iff : ∀ i, i ∈ used ↔ ∃ k, slot k = some i
  inj : ∀ k l i, slot k = some i → slot l = some i → k = l

theorem allots_all (h : all.Nodup) : Allots all all [] fun _ : κ => none := by
  constructor
  · exact h
  · rw [List.append_nil]
  · intro i
    simp
  · intro k l i hk
    cases hk

theorem Allots.nodup_append (h : Allots all free used slot) : (free ++ used).Nodup :=
  h.perm.nodup_iff.mpr h.nodup

theorem Allots.not_free {k : κ} {i : σ} (h : Allots all free used slot) (hk : slot k = some i) :
    i ∉ free := by
  intro hfree
  have hused : i ∈ used := (h.used_iff i).mpr ⟨k, hk⟩
  exact (List.nodup_append.mp h.nodup_append).2.2 i hfree i hused rfl

variable [DecidableEq κ]

theorem Allots.take {rest : List σ} {k : κ} {i : σ} (h : Allots all (rest ++ [i]) used slot)
    (hk : slot k = none) : Allots all rest (used ++ [i]) (Function.update slot k (some i)) := by
  have hi : ∀ l, slot l ≠ some i := by
    intro l hl
    exact h.not_free hl (List.mem_append_right _ (List.mem_singleton_self i))
  constructor
  · exact h.nodup
  · have hswap : (rest ++ (used ++ [i])).Perm (rest ++ ([i] ++ used)) :=
      List.perm_append_comm.append_left rest
    rw [← List.append_assoc rest [i] used] at hswap
    exact hswap.trans h.perm
  · intro j
    rw [List.mem_append, List.mem_singleton, h.used_iff]
    constructor
    · rintro (⟨l, hl⟩ | rfl)
      · have hlk : l ≠ k := by
          rintro rfl
          exact Option.some_ne_none j (hl.symm.trans hk)
        exact ⟨l, by rw [Function.update_of_ne hlk, hl]⟩
      · exact ⟨k, Function.update_self _ _ _⟩
    · rintro ⟨l, hl⟩
      rw [Function.update_apply] at hl
      split_ifs at hl
      · exact Or.inr (Option.some.inj hl).symm
      · exact Or.inl ⟨l, hl⟩
  · intro l m j hl hm
    rw [Function.update_apply] at hl hm
    split_ifs at hl hm with hlk hmk hmk
    · exact hlk.trans hmk.symm
    · exact absurd (hm.trans hl.symm) (Option.some.inj hl ▸ hi m)
    · exact absurd (hl.trans hm.symm) (Option.some.inj hm ▸ hi l)
    · exact h.inj l m j hl hm

theorem Allots.give [DecidableEq σ] {k : κ} {i : σ} (h : Allots all free used slot)
    (hk : slot k = some i) :
    Allots all (free ++ [i]) (used.filter (· != i)) (Function.update slot k none) := by
  have hused : i ∈ used := (h.used_iff i).mpr ⟨k, hk⟩
  have hnodup : used.Nodup := (List.nodup_append.mp h.nodup_append).2.1
  constructor
  · exact h.nodup
  · have herase : ([i] ++ used.filter (· != i)).Perm used := by
      rw [← hnodup.erase_eq_filter i]
      exact (List.perm_cons_erase hused).symm
    rw [List.append_assoc]
    exact (herase.append_left free).trans h.perm
  · intro j
    rw [List.mem_filter, h.used_iff, bne_iff_ne]
    constructor
    · rintro ⟨⟨l, hl⟩, hji⟩
      have hlk : l ≠ k := by
        rintro rfl
        exact hji (Option.some.inj (hl.symm.trans hk))
      exact ⟨l, by rw [Function.update_of_ne hlk, hl]⟩
    · rintro ⟨l, hl⟩
      rw [Function.update_apply] at hl
      split_ifs at hl with hlk
      refine ⟨⟨l, hl⟩, ?_⟩
      rintro rfl
      exact hlk (h.inj l k j hl hk)
  · intro l m j hl hm
    rw [Function.update_apply] at hl hm
    split_ifs at hl hm
    exact h.inj l m j hl hm

end Slots
