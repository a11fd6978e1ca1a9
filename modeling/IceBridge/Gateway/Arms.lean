import IceBridge.Gateway.ConfigBuffer
import IceBridge.Gateway.Player
import IceBridge.Lib.Reads
import IceBridge.Lib.Run

/-! The levels up to which a player may train his arms. The types come in groups of three, of which
the first is opened by the combat union and the others by the first. What is configured is compared
as `size() - 1`, which is unsigned. -/

namespace IceBridge.Gateway
open Reads

structure Armory where
  armMaxLevel : Int → Int := fun _ => 0
  combatUuid : String := ""
  myBuild : String → Option Build := fun _ => none

def sizeMinusOne (size : ℕ) : ℕ := if size = 0 then 2 ^ 64 - 1 else size - 1

def firstType (armType : Int) : Int := (armType - 1) / 3 * 3 + 1

namespace Armory

def getCombatunionLevel (a : Armory) : Int :=
  match a.myBuild a.combatUuid with
  | some b => b.buildLevel
  | none => 0

def setArmMaxLevel (a : Armory) (armType armLevel : Int) : Armory :=
  { a with armMaxLevel := Function.update a.armMaxLevel armType armLevel }

/-- The result and what is stored then. Past the end of a table nothing is defined. -/
def upgradeArmType (globalArms : List (List ArmsResponse)) (a : Armory) (armType : Int) :
    Option (Int × Armory) :=
  if armType < 1 ∨ sizeMinusOne globalArms.length < toSizeT armType then some (-1, a)
  else do
    let levels ← globalArms[armType.toNat]?
    let maxLevel := a.armMaxLevel armType
    if sizeMinusOne levels.length ≤ toSizeT maxLevel then some (-1, a)
    else if maxLevel ≠ 0 then
      if maxLevel + 1 < 2 ^ 31 then some (0, a.setArmMaxLevel armType (maxLevel + 1)) else none
    else if armType % 3 = 1 then
      if armType / 3 < a.getCombatunionLevel then some (0, a.setArmMaxLevel armType 1)
      else some (-1, a)
    else do
      let preLevels ← globalArms[(firstType armType).toNat]?
      if toSizeT (a.armMaxLevel (firstType armType)) = sizeMinusOne preLevels.length then
        some (0, a.setArmMaxLevel armType 1)
      else some (-1, a)

end Armory

inductive ArmyEvent
  | upgradeArmType (armType : Int)
  /-- The buildings are what they are by now. -/
  | builds (combatUuid : String) (myBuild : String → Option Build)

namespace Armory

def step (globalArms : List (List ArmsResponse)) (a : Armory) : ArmyEvent → Option Armory
  | .upgradeArmType armType => (a.upgradeArmType globalArms armType).map Prod.snd
  | .builds combatUuid myBuild => some { a with combatUuid, myBuild }

end Armory

def highestLevel (globalArms : List (List ArmsResponse)) (armType : Int) : Int :=
  ((RowFormat.levels globalArms armType.toNat).length - 1 : ℕ)

theorem highestLevel_readArmsData {packed : ArmsResponse → ℕ} {maxType armType : Int}
    {rows : List ArmsResponse} {buffer packets : List (ListResponse ArmsResponse)}
    {globalArms : List (List ArmsResponse)}
    (hread : readArmsData packed (some maxType) rows buffer = some (globalArms, packets))
    (hfirst : 1 ≤ armType) (hlast : armType ≤ maxType) :
    (∀ row ∈ rows, row.type = armType → row.level ≤ highestLevel globalArms armType) ∧
      (0 < highestLevel globalArms armType →
        ∃ row ∈ rows, row.type = armType ∧ row.level = highestLevel globalArms armType) := by
  have hlevels := RowFormat.lt_length_levels_readData hread armType.toNat
  have hbound : ∀ row ∈ rows, row.type = armType → row.level ≤ highestLevel globalArms armType := by
    intro row hrow htype
    by_contra habove
    unfold highestLevel at habove
    have hvalid : (armsFormat packed).Valid maxType row :=
      ⟨show 0 < row.type by omega, show row.type ≤ maxType by omega⟩
    have hcast : (row.level.toNat : Int) ≤ row.level := by omega
    have hlt := (hlevels row.level.toNat).mpr
      ⟨row, hrow, hvalid, congrArg Int.toNat htype, hcast⟩
    omega
  refine ⟨hbound, fun hpos => ?_⟩
  have hmax : (highestLevel globalArms armType).toNat <
      (RowFormat.levels globalArms armType.toNat).length := by
    unfold highestLevel at hpos ⊢
    omega
  obtain ⟨row, hrow, hvalid, htype, hlevel⟩ := (hlevels _).mp hmax
  have hsame : row.type = armType := by
    have hrowpos : 0 < row.type := hvalid.1
    have hnat : row.type.toNat = armType.toNat := htype
    omega
  refine ⟨row, hrow, hsame, le_antisymm (hbound row hrow hsame) ?_⟩
  have hle : ((highestLevel globalArms armType).toNat : Int) ≤ row.level := hlevel
  omega

namespace Armory
variable {globalArms : List (List ArmsResponse)} {a b : Armory} {armType : Int}

structure Within (globalArms : List (List ArmsResponse)) (a : Armory) : Prop where
  le : ∀ t, 1 ≤ t → a.armMaxLevel t ≤ highestLevel globalArms t
  first : ∀ t, 1 ≤ t → t % 3 ≠ 1 → 1 ≤ a.armMaxLevel t →
    a.armMaxLevel (firstType t) = highestLevel globalArms (firstType t)

/-- What a type that is at level 0 waits for. -/
def Open (globalArms : List (List ArmsResponse)) (a : Armory) (armType : Int) : Prop :=
  if armType % 3 = 1 then armType / 3 < a.getCombatunionLevel
  else (∃ levels, globalArms[(firstType armType).toNat]? = some levels ∧ levels ≠ []) ∧
    a.armMaxLevel (firstType armType) = highestLevel globalArms (firstType armType)

def Shut (globalArms : List (List ArmsResponse)) (a : Armory) : ArmyEvent → Prop
  | .upgradeArmType armType =>
    1 ≤ armType → globalArms[armType.toNat]? = some [] → ¬ a.Open globalArms armType
  | .builds .. => True

def Ranged (a : Armory) : Prop := ∀ t, 0 ≤ a.armMaxLevel t ∧ a.armMaxLevel t < 2 ^ 31

@[simp] theorem armMaxLevel_setArmMaxLevel (armLevel t : Int) :
    (a.setArmMaxLevel armType armLevel).armMaxLevel t =
      if t = armType then armLevel else a.armMaxLevel t :=
  Function.update_apply _ _ _ _

theorem highestLevel_eq {levels : List ArmsResponse}
    (hlevels : globalArms[armType.toNat]? = some levels) :
    highestLevel globalArms armType = (levels.length - 1 : ℕ) := by
  rw [highestLevel, RowFormat.levels, hlevels, Option.getD_some]

theorem Ranged.toSizeT_eq (ha : a.Ranged) (t : Int) :
    (toSizeT (a.armMaxLevel t) : Int) = a.armMaxLevel t := by
  obtain ⟨hlow, hhigh⟩ := ha t
  exact toSizeT_eq_self_iff.mpr ⟨hlow, by omega⟩

theorem Ranged.first_iff {levels : List ArmsResponse} {t : Int} (ha : a.Ranged)
    (hlevels : globalArms[t.toNat]? = some levels) :
    toSizeT (a.armMaxLevel t) = sizeMinusOne levels.length ↔
      (∃ levels, globalArms[t.toNat]? = some levels ∧ levels ≠ []) ∧
        a.armMaxLevel t = highestLevel globalArms t := by
  have hcast := ha.toSizeT_eq t
  obtain ⟨-, hhigh⟩ := ha t
  have hconfigured : (∃ levels, globalArms[t.toNat]? = some levels ∧ levels ≠ []) ↔
      levels.length ≠ 0 := by
    rw [hlevels, Ne, List.length_eq_zero_iff]
    constructor
    · rintro ⟨_, hsame, hne⟩
      exact Option.some.inj hsame ▸ hne
    · exact fun hne => ⟨levels, rfl, hne⟩
  rw [hconfigured, highestLevel_eq hlevels]
  unfold sizeMinusOne
  split_ifs with hempty <;> omega

theorem upgradeArmType_cases {result : Int} (ha : a.Ranged)
    (hb : a.upgradeArmType globalArms armType = some (result, b)) :
    b = a ∧ a.Shut globalArms (.upgradeArmType armType) ∨
    1 ≤ armType ∧ ∃ levels, globalArms[armType.toNat]? = some levels ∧
      b = a.setArmMaxLevel armType (a.armMaxLevel armType + 1) ∧
      a.armMaxLevel armType + 1 < 2 ^ 31 ∧
      (levels = [] ∨ a.armMaxLevel armType < highestLevel globalArms armType) ∧
      (a.armMaxLevel armType = 0 → a.Open globalArms armType) := by
  have hsame : some ((-1 : Int), a) = some (result, b) → b = a :=
    fun h => (Prod.mk.inj (Option.some.inj h)).2.symm
  unfold upgradeArmType at hb
  split at hb
  · next hrange =>
    refine .inl ⟨hsame hb, fun hfirst hempty => ?_⟩
    have hlt := (List.getElem?_eq_some_iff.mp hempty).1
    unfold sizeMinusOne toSizeT at hrange
    split_ifs at hrange <;> omega
  next hrange =>
  obtain ⟨levels, hlevels, hb⟩ := Option.bind_eq_some_iff.mp hb
  dsimp only at hb
  have hfirst : 1 ≤ armType := by omega
  have hcast := ha.toSizeT_eq armType
  have hhigh := (ha armType).2
  have hraise : ¬ sizeMinusOne levels.length ≤ toSizeT (a.armMaxLevel armType) →
      levels = [] ∨ a.armMaxLevel armType < highestLevel globalArms armType := by
    intro hlt
    rw [highestLevel_eq hlevels]
    unfold sizeMinusOne at hlt
    split_ifs at hlt with hempty
    · exact .inl (List.length_eq_zero_iff.mp hempty)
    · exact .inr (by omega)
  split_ifs at hb with hfull hzero hfits hkind hunion
  · refine .inl ⟨hsame hb, fun _ hempty => ?_⟩
    obtain rfl := Option.some.inj (hlevels.symm.trans hempty)
    have hwrapped : sizeMinusOne ([] : List ArmsResponse).length = 2 ^ 64 - 1 := rfl
    omega
  · obtain ⟨-, rfl⟩ := Prod.mk.inj (Option.some.inj hb)
    exact .inr ⟨hfirst, levels, hlevels, rfl, hfits, hraise hfull, fun h => absurd h hzero⟩
  · obtain ⟨-, rfl⟩ := Prod.mk.inj (Option.some.inj hb)
    rw [not_not] at hzero
    refine .inr ⟨hfirst, levels, hlevels, by rw [hzero]; rfl, by omega, hraise hfull, fun _ => ?_⟩
    rwa [Open, if_pos hkind]
  · refine .inl ⟨hsame hb, fun _ _ => ?_⟩
    rwa [Open, if_pos hkind]
  · obtain ⟨preLevels, hpre, hb⟩ := Option.bind_eq_some_iff.mp hb
    split_ifs at hb with hmax
    · obtain ⟨-, rfl⟩ := Prod.mk.inj (Option.some.inj hb)
      rw [not_not] at hzero
      refine .inr ⟨hfirst, levels, hlevels, by rw [hzero]; rfl, by omega, hraise hfull, fun _ => ?_⟩
      rw [Open, if_neg hkind]
      exact (ha.first_iff hpre).mp hmax
    · refine .inl ⟨hsame hb, fun _ _ => ?_⟩
      rw [Open, if_neg hkind]
      exact fun hopen => hmax ((ha.first_iff hpre).mpr hopen)

theorem Ranged.step {e : ArmyEvent} (ha : a.Ranged) (hb : a.step globalArms e = some b) :
    b.Ranged := by
  cases e with
  | upgradeArmType armType =>
    obtain ⟨⟨result, b'⟩, hupgrade, rfl⟩ := Option.map_eq_some_iff.mp hb
    rcases upgradeArmType_cases ha hupgrade with ⟨rfl, -⟩ | ⟨-, levels, -, rfl, hfits, -, -⟩
    · exact ha
    · intro t
      rw [armMaxLevel_setArmMaxLevel]
      split_ifs
      · have hlow := (ha armType).1
        omega
      · exact ha t
  | builds combatUuid myBuild =>
    obtain rfl := Option.some.inj hb
    exact ha

/-- A type with levels above its own is raised, and none of its group has come before it. -/
theorem Within.raise (hw : a.Within globalArms)
    (hlt : a.armMaxLevel armType < highestLevel globalArms armType)
    (hopen : a.armMaxLevel armType = 0 → a.Open globalArms armType) (ha : a.Ranged) :
    (a.setArmMaxLevel armType (a.armMaxLevel armType + 1)).Within globalArms := by
  refine ⟨fun t ht => ?_, fun t ht hkind => ?_⟩
  · rw [armMaxLevel_setArmMaxLevel]
    split_ifs with hsame
    · rw [hsame]
      omega
    · exact hw.le t ht
  · rw [armMaxLevel_setArmMaxLevel, armMaxLevel_setArmMaxLevel]
    intro hone
    have hfirst : firstType t ≠ armType := by
      rintro rfl
      have hother : t ≠ firstType t := by
        unfold firstType
        omega
      rw [if_neg hother] at hone
      exact absurd (hw.first t ht hkind hone) hlt.ne
    rw [if_neg hfirst]
    split_ifs at hone with hsame
    · subst hsame
      have hlow := (ha t).1
      rcases hlow.eq_or_lt with hzero | hpos
      · have hmax := hopen hzero.symm
        rw [Open, if_neg hkind] at hmax
        exact hmax.2
      · exact hw.first t ht hkind hpos
    · exact hw.first t ht hkind hone

theorem within_step_iff {e : ArmyEvent} (ha : a.Ranged) (hw : a.Within globalArms)
    (hb : a.step globalArms e = some b) : b.Within globalArms ↔ a.Shut globalArms e := by
  cases e with
  | upgradeArmType armType =>
    obtain ⟨⟨result, b'⟩, hupgrade, rfl⟩ := Option.map_eq_some_iff.mp hb
    rcases upgradeArmType_cases ha hupgrade with
      ⟨rfl, hshut⟩ | ⟨hfirst, levels, hlevels, rfl, -, hlt, hopen⟩
    · exact iff_of_true hw hshut
    by_cases hempty : levels = []
    · subst hempty
      have hhighest : highestLevel globalArms armType = 0 := highestLevel_eq hlevels
      have hle := hw.le armType hfirst
      have hlow := (ha armType).1
      refine iff_of_false (fun hraised => ?_) fun hshut => ?_
      · have hone := hraised.le armType hfirst
        rw [armMaxLevel_setArmMaxLevel, if_pos rfl] at hone
        omega
      · exact hshut hfirst hlevels (hopen (by omega))
    · refine iff_of_true (hw.raise (hlt.resolve_left hempty) hopen ha) fun _ hnone => ?_
      exact absurd (Option.some.inj (hlevels.symm.trans hnone)) hempty
  | builds combatUuid myBuild =>
    obtain rfl := Option.some.inj hb
    exact iff_of_true ⟨hw.le, hw.first⟩ trivial

/-- Along a run from the level 0 of all types, the levels stay within those configured, if and only
if no type without levels is asked for when it is open. -/
theorem within_run_iff (hzero : ∀ t, a.armMaxLevel t = 0) (es : List ArmyEvent) :
    Run.Always (step globalArms) (Within globalArms) a es ↔
      Run.EachStep (step globalArms) (Shut globalArms) a es := by
  refine Run.always_iff_eachStep (I := Ranged) (fun _ _ _ ha hb => ha.step hb)
    (fun _ _ _ ha hw hb => within_step_iff ha hw hb) (fun t => ?_)
    ⟨fun t _ => ?_, fun t _ _ => ?_⟩ es
  · rw [hzero]
    decide
  · rw [hzero]
    exact Int.natCast_nonneg _
  · rw [hzero]
    exact fun hone => absurd hone (by decide)

def oneMissing : List (List ArmsResponse) := [[], [{}, {}], [], [{}, {}, {}]]

def withUnion : Armory where
  combatUuid := "c"
  myBuild := fun sn => if sn = "c" then some { buildLevel := 1 } else none

theorem within_run_two : Run.Always (step oneMissing) (Within oneMissing) withUnion
    [.upgradeArmType 1, .upgradeArmType 3, .upgradeArmType 3] := by
  refine (within_run_iff (fun _ => rfl) _).mpr (Run.eachStep_of_forall _ ?_)
  intro e he a
  have hcases : e = .upgradeArmType 1 ∨ e = .upgradeArmType 3 := by simpa using he
  rcases hcases with rfl | rfl
  · exact fun _ hnone => absurd (Option.some.inj hnone) (List.cons_ne_nil _ _)
  · exact fun _ hnone => absurd (Option.some.inj hnone) (List.cons_ne_nil _ _)

/-- The type without levels is raised when the first of its group is at its highest. -/
theorem not_within_unconfigured :
    ¬ ∀ (globalArms : List (List ArmsResponse)) (a : Armory) (es : List ArmyEvent),
      (∀ t, a.armMaxLevel t = 0) → Run.Always (step globalArms) (Within globalArms) a es := by
  intro hall
  have hrun := hall oneMissing withUnion [.upgradeArmType 1, .upgradeArmType 2] fun _ => rfl
  have hle := ((hrun.2 _ rfl).2 _ rfl).le 2 (by decide)
  exact absurd hle (by decide)

end Armory

end IceBridge.Gateway
