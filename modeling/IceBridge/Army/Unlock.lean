import IceBridge.Army.Requests

/-! Which soldiers may be ordered. `combat_union_limit` has the highest level of each kind for every
level of the combat union, and `addSoldiers` goes on when `soldier_is_unlock` says no. What it looks
up in the table is the record `combat_union_uid`, whatever the level of the building is. -/

namespace IceBridge.Army
open Text

/-! ## The table -/

structure CombatLimitRow where
  armsType : Int
  limit : ℕ → Int

/-- The second loop of `ReadCombatLimit`; level 0 has no column. -/
def readCombatRows (size : ℕ) : List CombatLimitRow → List (List Int) → List (List Int)
  | [], table => table
  | row :: rows, table =>
    if row.armsType < 0 ∨ size ≤ row.armsType then table
    else readCombatRows size rows (table.mapIdx fun level limits =>
      if level = 0 then limits else limits.set row.armsType.toNat (row.limit level))

/-- `ReadCombatLimit`; `temp` is what happens to be in memory. -/
def readCombatLimit (maxType : Int) (temp : ℕ → ℕ → Int) (rows : List CombatLimitRow) :
    List (List Int) :=
  let size := (maxType + 1).toNat
  readCombatRows size rows
    ((List.range 6).map fun level => (List.range size).map fun type => temp level type)

theorem readCombatRows_length {size : ℕ} (rows : List CombatLimitRow) {table : List (List Int)}
    (hsize : ∀ limits ∈ table, limits.length = size) :
    (readCombatRows size rows table).length = table.length ∧
      ∀ limits ∈ readCombatRows size rows table, limits.length = size := by
  induction rows generalizing table with
  | nil => exact ⟨rfl, hsize⟩
  | cons row rows ih =>
    rw [readCombatRows]
    split_ifs
    · exact ⟨rfl, hsize⟩
    · have hset : ∀ limits ∈ table.mapIdx fun level limits =>
          if level = 0 then limits else limits.set row.armsType.toNat (row.limit level),
          limits.length = size := by
        intro limits hlimits
        obtain ⟨level, hlevel, rfl⟩ := List.mem_mapIdx.mp hlimits
        split_ifs
        · exact hsize _ (List.getElem_mem hlevel)
        · rw [List.length_set]
          exact hsize _ (List.getElem_mem hlevel)
      obtain ⟨hlength, hall⟩ := ih hset
      exact ⟨hlength.trans List.length_mapIdx, hall⟩

theorem readCombatLimit_isSome {maxType : Int} (temp : ℕ → ℕ → Int) (rows : List CombatLimitRow)
    {level type : ℕ} (hlevel : level < 6) (htype : (type : Int) ≤ maxType) :
    (((readCombatLimit maxType temp rows)[level]?).bind fun limits => limits[type]?).isSome := by
  have hsize : ∀ limits ∈ (List.range 6).map fun level =>
      (List.range (maxType + 1).toNat).map fun type => temp level type,
      limits.length = (maxType + 1).toNat := by
    intro limits hlimits
    obtain ⟨level, -, rfl⟩ := List.mem_map.mp hlimits
    rw [List.length_map, List.length_range]
  obtain ⟨hlength, hall⟩ := readCombatRows_length rows hsize
  have hrow : level < (readCombatLimit maxType temp rows).length := hlength.symm ▸ hlevel
  have hkind : type < (readCombatLimit maxType temp rows)[level].length := by
    rw [hall _ (List.getElem_mem hrow)]
    omega
  rw [List.getElem?_eq_getElem hrow, Option.bind_some, List.getElem?_eq_getElem hkind]
  rfl

/-! ## The check -/

def SmallMap.Unlocked (sm : SmallMap) (unionLevel : ℕ) (e : SoldierInfo) : Prop :=
  0 ≤ e.soldierType ∧ ∃ limit,
    ((sm.combatUnionLimit[unionLevel]?).bind fun limits => limits[e.soldierType.toNat]?) =
      some limit ∧ e.soldierLevel ≤ limit

instance (sm : SmallMap) (unionLevel : ℕ) (e : SoldierInfo) :
    Decidable (sm.Unlocked unionLevel e) :=
  inferInstanceAs (Decidable (_ ∧ ∃ limit ∈ ((sm.combatUnionLimit[unionLevel]?).bind fun limits =>
    limits[e.soldierType.toNat]?), e.soldierLevel ≤ limit))

/-- What is looked up is the level of the combat union only when that is what is in the record. -/
theorem SmallMap.soldierIsUnlock_level {sm : SmallMap} {unionLevel : ℕ} {e : SoldierInfo}
    (hlevel : unionLevel < 6) (htype : 0 ≤ e.soldierType)
    (hsome : (((sm.combatUnionLimit[unionLevel]?).bind fun limits =>
      limits[e.soldierType.toNat]?)).isSome) :
    sm.soldierIsUnlock (some unionLevel) e.soldierType e.soldierLevel =
      some (decide (sm.Unlocked unionLevel e)) := by
  obtain ⟨limit, hlimit⟩ := Option.isSome_iff_exists.mp hsome
  have hunlocked : sm.Unlocked unionLevel e ↔ e.soldierLevel ≤ limit := by
    constructor
    · rintro ⟨-, limit', hlimit', hle⟩
      exact Option.some.inj (hlimit'.symm.trans hlimit) ▸ hle
    · exact fun hle => ⟨htype, limit, hlimit, hle⟩
  have hsix : ¬ (6 : Int) ≤ unionLevel := by omega
  have hrange : ¬ ((unionLevel : Int) < 0 ∨ e.soldierType < 0) := by omega
  rw [soldierIsUnlock, if_neg hsix, if_neg hrange, Int.toNat_natCast, hlimit]
  exact congrArg some (decide_eq_decide.mpr hunlocked.symm)

namespace Barracks
variable {sm : SmallMap} {b : Barracks} {e : SoldierInfo}

def LockedOut (sm : SmallMap) (b : Barracks) (e : SoldierInfo) : Prop :=
  (sm.price e.soldierType e.soldierLevel).isSome ∧
    sm.soldierIsUnlock b.combatUnionUid e.soldierType e.soldierLevel = some true

/-- An order that `addSoldiers` takes, and has paid, is one that the combat union allows, and of
those none is turned away by the check. -/
def Guards (sm : SmallMap) (unionLevel : ℕ) (b : Barracks) (e : SoldierInfo) (whichCamp : Text) :
    Prop :=
  ∃ paid t, (b.createCamp whichCamp).payFor sm e = some (paid, t) ∧
    (paid = true → sm.Unlocked unionLevel e) ∧ (sm.Unlocked unionLevel e → ¬ b.LockedOut sm e)

/-- The check turns away whom the combat union does not allow, or lets through whom it allows, or
one who cannot pay. -/
def Checked (sm : SmallMap) (unionLevel : ℕ) (b : Barracks) (e : SoldierInfo) : Prop :=
  ∀ p, sm.price e.soldierType e.soldierLevel = some p →
    (sm.soldierIsUnlock b.combatUnionUid e.soldierType e.soldierLevel = some true ∧
        ¬ sm.Unlocked unionLevel e) ∨
      (sm.soldierIsUnlock b.combatUnionUid e.soldierType e.soldierLevel = some false ∧
        (∀ a, a ≠ Asset.diamond → FitsInt (p.cost e.soldierNum a)) ∧
        (sm.Unlocked unionLevel e ∨ b.asset .wood < p.cost e.soldierNum .wood))

theorem checked_iff_of_level {maxType : Int} {temp : ℕ → ℕ → Int} {rows : List CombatLimitRow}
    {unionLevel : ℕ} (htable : sm.combatUnionLimit = readCombatLimit maxType temp rows)
    (hlevel : unionLevel < 6) (htype : e.soldierType ≤ maxType)
    (huid : b.combatUnionUid = some (unionLevel : Int)) :
    b.Checked sm unionLevel e ↔ ∀ p, sm.price e.soldierType e.soldierLevel = some p →
      ¬ sm.Unlocked unionLevel e ∧ (∀ a, a ≠ Asset.diamond → FitsInt (p.cost e.soldierNum a)) ∧
        b.asset .wood < p.cost e.soldierNum .wood := by
  refine forall_congr' fun p => forall_congr' fun hp => ?_
  have hnonneg : 0 ≤ e.soldierType := by
    by_contra hneg
    rw [SmallMap.price, if_pos (.inl (Int.not_le.mp hneg))] at hp
    exact Option.some_ne_none p hp.symm
  have hsome : (((sm.combatUnionLimit[unionLevel]?).bind fun limits =>
      limits[e.soldierType.toNat]?)).isSome := by
    rw [htable]
    exact readCombatLimit_isSome temp rows hlevel (Int.toNat_of_nonneg hnonneg ▸ htype)
  rw [huid, SmallMap.soldierIsUnlock_level hlevel hnonneg hsome]
  by_cases hunlocked : sm.Unlocked unionLevel e
  · simp [hunlocked]
  · simp [hunlocked]

theorem payFor_of_undefined {p : ArmsPrice} (hp : sm.price e.soldierType e.soldierLevel = some p)
    (hunlock : sm.soldierIsUnlock b.combatUnionUid e.soldierType e.soldierLevel = none) :
    b.payFor sm e = none := by
  rw [payFor, hp]
  simp only [hunlock, Option.bind_eq_bind, Option.bind_none]

theorem payFor_of_overflow {p : ArmsPrice} (hp : sm.price e.soldierType e.soldierLevel = some p)
    (hunlock : sm.soldierIsUnlock b.combatUnionUid e.soldierType e.soldierLevel = some false)
    (hfits : ¬ ∀ a, a ≠ Asset.diamond → FitsInt (p.cost e.soldierNum a)) :
    b.payFor sm e = none := by
  have hints : ints (p.cost e.soldierNum) = none := if_neg hfits
  rw [payFor, hp]
  simp only [hunlock, hints, Option.bind_eq_bind, Option.bind_some, Option.bind_none,
    Bool.false_eq_true, if_false]

/-- The combat union decides who may be trained only where the check answers the opposite of what
it is asked, or nobody could pay. -/
theorem guards_iff (sm : SmallMap) (unionLevel : ℕ) (b : Barracks) (e : SoldierInfo)
    (whichCamp : Text) : b.Guards sm unionLevel e whichCamp ↔ b.Checked sm unionLevel e := by
  obtain ⟨-, hasset, huid⟩ := sameRecords_createCamp b whichCamp
  unfold Guards Checked LockedOut
  rw [← hasset, ← huid]
  generalize b.createCamp whichCamp = u
  cases hp : sm.price e.soldierType e.soldierLevel with
  | none =>
    refine iff_of_true ?_ fun p hp => absurd hp.symm (Option.some_ne_none p)
    refine ⟨false, _, payFor_of_none hp, fun h => Bool.noConfusion h, fun _ h => ?_⟩
    exact Bool.false_ne_true h.1
  | some p =>
    cases hunlock : sm.soldierIsUnlock u.combatUnionUid e.soldierType e.soldierLevel with
    | none =>
      refine iff_of_false ?_ fun h => ?_
      · rintro ⟨paid, t, hpay, -⟩
        rw [payFor_of_undefined hp hunlock] at hpay
        exact Option.some_ne_none _ hpay.symm
      · rcases h p rfl with ⟨hanswer, -⟩ | ⟨hanswer, -⟩
        · exact Option.some_ne_none true hanswer.symm
        · exact Option.some_ne_none false hanswer.symm
    | some unlock =>
      cases unlock with
      | true =>
        -- whoever is allowed is turned away
        rw [payFor_of_unlock hp hunlock]
        constructor
        · rintro ⟨paid, t, -, -, hopen⟩ p' -
          exact .inl ⟨rfl, fun hunlocked => hopen hunlocked ⟨rfl, rfl⟩⟩
        · intro h
          refine ⟨false, u, rfl, fun h => Bool.noConfusion h, fun hunlocked _ => ?_⟩
          rcases h p rfl with ⟨-, hlocked⟩ | ⟨hanswer, -⟩
          · exact hlocked hunlocked
          · exact Bool.false_ne_true (Option.some.inj hanswer).symm
      | false =>
        have hopen : ¬ ((some p).isSome = true ∧ some false = some true) := fun h =>
          Bool.false_ne_true (Option.some.inj h.2)
        by_cases hfits : ∀ a, a ≠ Asset.diamond → FitsInt (p.cost e.soldierNum a)
        · rw [payFor_of_price hp hunlock hfits]
          constructor
          · rintro ⟨paid, t, hpay, hallowed, -⟩ p' hp'
            obtain rfl := Option.some.inj hp'
            refine .inr ⟨rfl, hfits, ?_⟩
            split_ifs at hpay with hpoor
            · exact .inr hpoor
            · obtain ⟨rfl, -⟩ := Prod.mk.inj (Option.some.inj hpay)
              exact .inl (hallowed rfl)
          · intro h
            rcases h p rfl with ⟨hanswer, -⟩ | ⟨-, -, hallowed⟩
            · exact absurd (Option.some.inj hanswer) Bool.false_ne_true
            · split_ifs with hpoor
              · exact ⟨false, _, rfl, fun h => Bool.noConfusion h, fun _ => hopen⟩
              · exact ⟨true, _, rfl, fun _ => hallowed.resolve_right hpoor, fun _ => hopen⟩
        · rw [payFor_of_overflow hp hunlock hfits]
          refine iff_of_false ?_ fun h => ?_
          · rintro ⟨paid, t, hpay, -⟩
            exact Option.some_ne_none _ hpay.symm
          · rcases h p rfl with ⟨hanswer, -⟩ | ⟨-, hfits', -⟩
            · exact Bool.false_ne_true (Option.some.inj hanswer)
            · exact hfits hfits'

def union : SmallMap where
  table := [[], List.replicate 4 ⟨⟨1, 60⟩, fun _ => 5⟩]
  combatUnionLimit := [[0, 0], [0, 2]]

/-- The soldier of level 2 is turned away, and the one of level 3 is trained. -/
theorem not_guards_union :
    ¬ ({ combatUnionUid := some 1, asset := fun _ => 100 } : Barracks).Guards union 1 ⟨1, 2, 1⟩ [] ∧
      ¬ ({ combatUnionUid := some 1, asset := fun _ => 100 } : Barracks).Guards union 1
        ⟨1, 3, 1⟩ [] := by
  constructor
  · rintro ⟨paid, t, -, -, hopen⟩
    exact hopen (by decide) ⟨rfl, rfl⟩
  · rintro ⟨paid, t, hpay, hallowed, -⟩
    have hpaid : paid = true := (Prod.mk.inj (Option.some.inj hpay)).1.symm
    exact absurd (hallowed hpaid) (by decide)

end Barracks

end IceBridge.Army
