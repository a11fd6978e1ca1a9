import IceBridge.Gateway.AESSBox
import Mathlib.Data.Fintype.EquivFin
import Mathlib.Tactic.FinCases

/-! The client's table is the inverse of the server's: the two start as inverses, and a swap of
two positions on one side is the swap of the same two values on the other. -/

namespace IceBridge.Gateway

theorem Table.swapEntries_coe (σ : Equiv.Perm UInt8) (i j : UInt8) :
    Table.swapEntries σ i j = ((Equiv.swap i j).trans σ : Equiv.Perm UInt8) := by
  funext x
  unfold Table.swapEntries
  rw [Equiv.trans_apply]
  by_cases hj : x = j
  · rw [hj, Function.update_self, Equiv.swap_apply_right]
  · rw [Function.update_of_ne hj]
    by_cases hi : x = i
    · rw [hi, Function.update_self, Equiv.swap_apply_left]
    · rw [Function.update_of_ne hi, Equiv.swap_apply_of_ne_of_ne hi hj]

theorem AESSBox.exchange_coe (σ : Equiv.Perm UInt8) (pRandoms : List UInt8) :
    AESSBox.exchange σ pRandoms = Gateway.formNewBoxes σ pRandoms := by
  induction σ, pRandoms using Gateway.formNewBoxes.induct with
  | case1 σ i j pRandoms ih =>
    rw [AESSBox.exchange, Table.swapEntries_coe, ih, Gateway.formNewBoxes]
  | case2 pRandoms σ h =>
    match pRandoms with
    | [] => rfl
    | [_] => rfl
    | i :: j :: rest => exact absurd rfl (h i j rest)

namespace EncryptionBox
variable {table : Table} {value k : UInt8}

theorem foldl_index (hk : ∀ i : UInt8, value = table i → i = k) (is : List ℕ) :
    is.foldl (fun index i => if value = table i.toUInt8 then i.toUInt8 else index) k = k := by
  induction is with
  | nil => rfl
  | cons i is ih =>
    rw [List.foldl_cons]
    split_ifs with hi
    · rwa [hk _ hi]
    · exact ih

theorem indexOf_eq (hk : ∀ i : UInt8, value = table i ↔ i = k) : indexOf table value = k := by
  have hmem : k.toNat ∈ List.range 256 := List.mem_range.mpr k.toNat_lt
  have hback : k.toNat.toUInt8 = k := UInt8.ofNat_toNat
  obtain ⟨before, after, hsplit⟩ := List.append_of_mem hmem
  have hfound : value = table k.toNat.toUInt8 := (hk _).mpr hback
  unfold indexOf
  rw [hsplit, List.foldl_append, List.foldl_cons, if_pos hfound, hback]
  exact foldl_index (fun i hi => (hk i).mp hi) after

theorem switchSbox_coe (τ : Equiv.Perm UInt8) (s t : UInt8) :
    switchSbox τ s t = (τ.trans (Equiv.swap s t) : Equiv.Perm UInt8) := by
  have hindex : ∀ value, indexOf τ value = τ.symm value := fun value =>
    indexOf_eq fun i => eq_comm.trans (Equiv.eq_symm_apply τ).symm
  unfold switchSbox
  split_ifs with hst
  · rw [hst, Equiv.swap_self, Equiv.trans_refl]
  · rw [hindex, hindex, Table.swapEntries_coe]
    have hconj : (Equiv.swap (τ.symm s) (τ.symm t)).trans τ = τ.trans (Equiv.swap s t) := by
      rw [← Equiv.trans_swap_trans_symm, Equiv.trans_assoc, Equiv.trans_assoc,
        Equiv.symm_trans_self, Equiv.trans_refl]
    rw [hconj]

theorem interchange_coe (σ : Equiv.Perm UInt8) (interChanges : List UInt8) :
    interchange σ.symm interChanges = (formNewBoxes σ interChanges).symm := by
  induction σ, interChanges using formNewBoxes.induct with
  | case1 σ s t interChanges ih =>
    rw [interchange, switchSbox_coe, formNewBoxes, ← ih]
    rfl
  | case2 interChanges σ h =>
    match interChanges with
    | [] => rfl
    | [_] => rfl
    | s :: t :: rest => exact absurd rfl (h s t rest)

end EncryptionBox

/-! ## The tables at the start -/

theorem entry_stable_fin (k : Fin 4) (i : Fin 64) :
    AESSBox.entry 0x0102 (EncryptionBox.stable (64 * k.val + i.val).toUInt8) =
      some (64 * k.val + i.val).toUInt8 := by
  revert i
  fin_cases k
  · decide +kernel
  · decide +kernel
  · decide +kernel
  · decide +kernel

/-- The list of the client undoes the arithmetic of the server. -/
theorem entry_stable (i : UInt8) : AESSBox.entry 0x0102 (EncryptionBox.stable i) = some i := by
  have hlt := i.toNat_lt
  have hi := entry_stable_fin ⟨i.toNat / 64, by omega⟩ ⟨i.toNat % 64, by omega⟩
  have hback : (64 * (i.toNat / 64) + i.toNat % 64).toUInt8 = i := by
    rw [Nat.div_add_mod]
    exact UInt8.ofNat_toNat
  rwa [hback] at hi

theorem stable_bijective : Function.Bijective EncryptionBox.stable := by
  have hinjective : Function.Injective EncryptionBox.stable := fun i j h => by
    have hi := entry_stable i
    rw [h, entry_stable j] at hi
    exact (Option.some.inj hi).symm
  have : Finite UInt8 := Finite.of_injective UInt8.toFin fun _ _ => UInt8.toFin_inj.mp
  exact Finite.injective_iff_bijective.mp hinjective

def globalBox : Equiv.Perm UInt8 where
  toFun value := (AESSBox.entry 0x0102 value).getD 0
  invFun := EncryptionBox.stable
  left_inv value := by
    obtain ⟨i, rfl⟩ := stable_bijective.surjective value
    simp [entry_stable]
  right_inv i := by simp [entry_stable]

theorem generateBox_eq : AESSBox.generateBox 0x0102 = some globalBox := by
  have hentry : ∀ value : UInt8, AESSBox.entry 0x0102 value = some (globalBox value) := by
    intro value
    obtain ⟨i, rfl⟩ := stable_bijective.surjective value
    rw [entry_stable]
    exact congrArg some (globalBox.apply_symm_apply i).symm
  have hbox : ((List.range 256).mapM fun valuecount => AESSBox.entry 0x0102 valuecount.toUInt8) =
      some ((List.range 256).map fun valuecount => globalBox valuecount.toUInt8) := by
    simp only [hentry]
    exact List.mapM_pure
  unfold AESSBox.generateBox
  rw [hbox, Option.map_some]
  refine congrArg some (funext fun value => ?_)
  have hlt : value.toNat < (List.range 256).length := by
    rw [List.length_range]
    exact value.toNat_lt
  have hback : value.toNat.toUInt8 = value := UInt8.ofNat_toNat
  rw [List.getD_eq_getElem?_getD, List.getElem?_map, List.getElem?_eq_getElem hlt,
    List.getElem_range, Option.map_some, Option.getD_some, hback]

/-! ## The key exchange -/

namespace AESSBox

theorem formNewBoxes_coe (σ : Equiv.Perm UInt8) {pRandoms : List UInt8}
    (hlen : pRandoms.length = exchangeTimes * 2) :
    formNewBoxes σ pRandoms = some ⇑(Gateway.formNewBoxes σ pRandoms) := by
  unfold formNewBoxes
  rw [if_neg (by omega), ← hlen, List.take_length, exchange_coe]

theorem swithTable_stable {interChanges : List UInt8}
    (hlen : interChanges.length = exchangeTimes * 2) :
    EncryptionBox.swithTable EncryptionBox.stable interChanges =
      (Gateway.formNewBoxes globalBox interChanges).symm := by
  have hlen : interChanges.length = 128 := hlen
  unfold EncryptionBox.swithTable
  rw [if_neg (not_not.mpr hlen)]
  exact EncryptionBox.interchange_coe globalBox interChanges

/-- After an exchange of 64 pairs the table of the client is the inverse of the server's, so each
side reads what the other has written. -/
theorem tables_inverse (r : List UInt8) (hlen : r.length = exchangeTimes * 2) :
    ∃ box pBox, generateBox 0x0102 = some box ∧ formNewBoxes box r = some pBox ∧
      (∀ x, EncryptionBox.swithTable EncryptionBox.stable r (pBox x) = x) ∧
      (∀ x, pBox (EncryptionBox.swithTable EncryptionBox.stable r x) = x) ∧
      ∀ p : List UInt8,
        EncryptionBox.edcrpt (EncryptionBox.swithTable EncryptionBox.stable r)
          (TeaAlgorithm.encrypt p pBox) = p ∧
        TeaAlgorithm.decrypt
          (EncryptionBox.edcrpt (EncryptionBox.swithTable EncryptionBox.stable r) p) pBox = p := by
  set σ := Gateway.formNewBoxes globalBox r with hσ
  refine ⟨globalBox, σ, generateBox_eq, formNewBoxes_coe globalBox hlen, ?_⟩
  rw [swithTable_stable hlen, ← hσ]
  refine ⟨σ.symm_apply_apply, σ.apply_symm_apply, fun p => ⟨?_, ?_⟩⟩
  · simp [EncryptionBox.edcrpt, TeaAlgorithm.encrypt]
  · simp [EncryptionBox.edcrpt, TeaAlgorithm.decrypt]

def neighbours : List UInt8 := (List.range 128).map Nat.toUInt8

theorem length_neighbours : neighbours.length = exchangeTimes * 2 := by
  rw [neighbours, List.length_map, List.length_range]
  rfl

theorem tables_inverse_neighbours :
    ∃ box pBox, generateBox 0x0102 = some box ∧ formNewBoxes box neighbours = some pBox ∧
      (∀ x, EncryptionBox.swithTable EncryptionBox.stable neighbours (pBox x) = x) ∧
      (∀ x, pBox (EncryptionBox.swithTable EncryptionBox.stable neighbours x) = x) ∧
      ∀ p : List UInt8,
        EncryptionBox.edcrpt (EncryptionBox.swithTable EncryptionBox.stable neighbours)
          (TeaAlgorithm.encrypt p pBox) = p ∧
        TeaAlgorithm.decrypt
          (EncryptionBox.edcrpt (EncryptionBox.swithTable EncryptionBox.stable neighbours) p) pBox =
          p :=
  tables_inverse neighbours length_neighbours

theorem formNewBoxes_zeros (n : ℕ) (σ : Equiv.Perm UInt8) :
    Gateway.formNewBoxes σ (List.replicate (2 * n) 0) = σ := by
  induction n with
  | zero => rfl
  | succ n ih =>
    have hsplit : List.replicate (2 * (n + 1)) (0 : UInt8) = 0 :: 0 :: List.replicate (2 * n) 0 :=
      rfl
    rw [hsplit, Gateway.formNewBoxes, Equiv.swap_self, Equiv.refl_trans, ih]

/-- The client ignores an exchange of 65 pairs, of which the server makes the first 64. -/
theorem not_inverse_longer : ¬ ∀ r : List UInt8, Even r.length → ∀ box pBox,
    generateBox 0x0102 = some box → formNewBoxes box r = some pBox →
      ∀ x, EncryptionBox.swithTable EncryptionBox.stable r (pBox x) = x := by
  intro hall
  set r : List UInt8 := 0 :: 1 :: List.replicate 128 0 with hr
  have hlen : r.length = 130 := by
    rw [hr, List.length_cons, List.length_cons, List.length_replicate]
  have htake : r.take (exchangeTimes * 2) = 0 :: 1 :: List.replicate (2 * 63) 0 := by
    have hcount : exchangeTimes * 2 = 126 + 1 + 1 := rfl
    rw [hr, hcount, List.take_succ_cons, List.take_succ_cons, List.take_replicate]
    rfl
  have hserver : formNewBoxes globalBox r = some ⇑((Equiv.swap 0 1).trans globalBox) := by
    unfold formNewBoxes
    rw [hlen, if_neg (by decide), htake, exchange_coe, Gateway.formNewBoxes, formNewBoxes_zeros]
  have hclient : EncryptionBox.swithTable EncryptionBox.stable r = globalBox.symm := by
    unfold EncryptionBox.swithTable
    rw [hlen, if_pos (by decide)]
    rfl
  have hsame := hall r (by rw [hlen]; decide) _ _ generateBox_eq hserver 0
  rw [hclient, Equiv.trans_apply, Equiv.swap_apply_left, Equiv.symm_apply_apply] at hsame
  exact absurd hsame (by decide)

end AESSBox

end IceBridge.Gateway
