import IceBridge.Lib.Run
import Mathlib.Algebra.Ring.Int.Defs
import Mathlib.Data.Fintype.Defs
import Mathlib.Logic.Function.Basic

/-! The balances of a player in redis and in MySQL, and the two ways in which the army worker
changes them: the script `manUserResource` and `subDiamond`. -/

namespace IceBridge

/-- Redis calls iron `ore` and soil `concrete`; the diamonds are in MySQL. -/
inductive Asset
  | wood
  | stone
  | iron
  | soil
  | diamond
  deriving DecidableEq

instance : Fintype Asset where
  elems := { val := ↑[Asset.wood, .stone, .iron, .soil, .diamond], nodup := by decide }
  complete a := by cases a <;> decide

abbrev Balances := Asset → Int

namespace Balances

def hincrby (h : Balances) (field : Asset) (n : Int) : Int × Balances :=
  (h field + n, Function.update h field (h field + n))

def manUserResource (manType : Int) (amount : Balances) (h : Balances) : Bool × Balances :=
  if manType = 1 then
    let h := (hincrby h .wood (amount .wood)).2
    let h := (hincrby h .stone (amount .stone)).2
    let h := (hincrby h .iron (amount .iron)).2
    let h := (hincrby h .soil (amount .soil)).2
    (true, h)
  else if manType = 2 then
    -- the one place where `ret` is assigned
    let (ret, h) := hincrby h .wood (0 - amount .wood)
    if ret < 0 then
      let h := (hincrby h .wood (amount .wood)).2
      (false, h)
    else
      let h := (hincrby h .stone (0 - amount .stone)).2
      if ret < 0 then
        let h := (hincrby h .wood (amount .wood)).2
        let h := (hincrby h .stone (amount .stone)).2
        (false, h)
      else
        let h := (hincrby h .iron (0 - amount .iron)).2
        if ret < 0 then
          let h := (hincrby h .wood (amount .wood)).2
          let h := (hincrby h .stone (amount .stone)).2
          let h := (hincrby h .iron (amount .iron)).2
          (false, h)
        else
          let h := (hincrby h .soil (0 - amount .soil)).2
          if ret < 0 then
            let h := (hincrby h .wood (amount .wood)).2
            let h := (hincrby h .stone (amount .stone)).2
            let h := (hincrby h .iron (amount .iron)).2
            let h := (hincrby h .soil (amount .soil)).2
            (false, h)
          else (true, h)
  else (true, h)

def manPlayerResources (type : Int) (amount h : Balances) : Bool × Balances :=
  manUserResource type amount h

/-- `ArmysBuildQueue::subResource`: what the caller gets back in place of the cost are the
balances after the call. -/
def subResource (amount h : Balances) : Bool × Balances × Balances :=
  let (ret, h) := manPlayerResources 2 amount h
  (ret, h, h)

/-- `MysqlManager::subDiamond`. The statement returns 0; neither number is negative, so that
the unsigned comparison is that of the numbers. -/
def subDiamond (diamondToSub : Int) (h : Balances) : Bool × Balances :=
  if h .diamond < diamondToSub then (false, h)
  else (true, Function.update h .diamond (h .diamond - diamondToSub))

def less (h amount : Balances) : Balances := fun a =>
  if a = .diamond then h a else h a - amount a

def more (h amount : Balances) : Balances := fun a =>
  if a = .diamond then h a else h a + amount a

theorem manUserResource_one (amount h : Balances) :
    manUserResource 1 amount h = (true, more h amount) := by
  rw [manUserResource, if_pos rfl]
  simp only [hincrby]
  congr 1
  funext a
  cases a <;> simp [more]

/-- Only the wood is ever looked at. -/
theorem manUserResource_two (amount h : Balances) :
    manUserResource 2 amount h =
      if h .wood < amount .wood then (false, h) else (true, less h amount) := by
  have htwo : ¬ (2 : Int) = 1 := by decide
  rw [manUserResource, if_neg htwo, if_pos rfl]
  by_cases hw : h .wood < amount .wood
  · have hret : h .wood + (0 - amount .wood) < 0 := by omega
    simp only [hincrby, hret, hw, if_true]
    congr 1
    funext a
    cases a with
    | wood =>
      change h .wood + (0 - amount .wood) + amount .wood = h .wood
      omega
    | _ => rfl
  · have hret : ¬ h .wood + (0 - amount .wood) < 0 := by omega
    simp only [hincrby, hret, hw, if_false]
    congr 1
    funext a
    cases a <;> simp [less] <;> omega

structure TakesWhole (h amount : Balances) : Prop where
  succeeds : (manUserResource 2 amount h).1 = true ↔ ∀ a, a ≠ .diamond → amount a ≤ h a
  taken : (manUserResource 2 amount h).1 = true →
    ∀ a, a ≠ .diamond → (manUserResource 2 amount h).2 a = h a - amount a
  left : (manUserResource 2 amount h).1 = false →
    ∀ a, a ≠ .diamond → (manUserResource 2 amount h).2 a = h a

def WoodDecides (h amount : Balances) : Prop :=
  amount .wood ≤ h .wood → ∀ a, a ≠ .diamond → amount a ≤ h a

theorem takesWhole_iff (h amount : Balances) : TakesWhole h amount ↔ WoodDecides h amount := by
  by_cases hw : h .wood < amount .wood
  · have hcall : manUserResource 2 amount h = (false, h) := by
      rw [manUserResource_two, if_pos hw]
    refine iff_of_true ⟨?_, ?_, ?_⟩ fun hle => absurd hw (not_lt.mpr hle)
    · rw [hcall]
      refine iff_of_false Bool.false_ne_true fun hall => ?_
      exact absurd (hall .wood (by decide)) (not_le.mpr hw)
    · simp [hcall]
    · simp [hcall]
  · have hcall : manUserResource 2 amount h = (true, less h amount) := by
      rw [manUserResource_two, if_neg hw]
    constructor
    · intro hwhole _
      exact hwhole.succeeds.mp (by rw [hcall])
    · intro hdecides
      have hall := hdecides (not_lt.mp hw)
      refine ⟨?_, ?_, ?_⟩
      · rw [hcall]
        exact iff_of_true rfl hall
      · rw [hcall]
        intro _ a ha
        simp [less, ha]
      · simp [hcall]

def takeStep (h amount : Balances) : Option Balances := some (manUserResource 2 amount h).2

def Nonneg (h : Balances) : Prop := ∀ a, a ≠ .diamond → 0 ≤ h a

theorem nonneg_takeStep_iff {h t amount : Balances} (hh : Nonneg h)
    (ht : takeStep h amount = some t) : Nonneg t ↔ WoodDecides h amount := by
  obtain rfl := Option.some.inj ht
  rw [manUserResource_two]
  split_ifs with hw
  · exact iff_of_true hh fun hle => absurd hw (not_lt.mpr hle)
  · constructor
    · intro hleft _ a ha
      have hle := hleft a ha
      simp only [less, if_neg ha] at hle
      omega
    · intro hdecides a ha
      have hle := hdecides (not_lt.mp hw) a ha
      simp only [less, if_neg ha]
      omega

/-- Over any sequence of costs each call takes a whole cost or nothing exactly when the wood
decides every time, and it is then, too, that no balance becomes negative. -/
theorem takesWhole_run_iff (h : Balances) (costs : List Balances) :
    (Run.EachStep takeStep TakesWhole h costs ↔ Run.EachStep takeStep WoodDecides h costs) ∧
    (Nonneg h →
      (Run.Always takeStep Nonneg h costs ↔ Run.EachStep takeStep WoodDecides h costs)) := by
  constructor
  · rw [show TakesWhole = WoodDecides from funext₂ fun h amount => propext (takesWhole_iff h amount)]
  · intro hh
    exact Run.always_iff_eachStep (I := fun _ => True) (fun _ _ _ _ _ => trivial)
      (fun s e t _ hs ht => nonneg_takeStep_iff hs ht) trivial hh costs

def purse : Balances := fun a => if a = .wood then 10 else 20

def costs : List Balances :=
  [fun a => if a = .wood then 3 else 8, fun a => if a = .wood then 2 else 12,
    fun a => if a = .wood then 6 else 1]

theorem takesWhole_run_three : Run.Always takeStep Nonneg purse costs := by
  refine ((takesWhole_run_iff purse costs).2 ?_).mpr ?_
  · intro a ha
    cases a <;> decide
  refine Run.EachStep.cons rfl ?_ (Run.EachStep.cons rfl ?_ (Run.EachStep.cons rfl ?_ trivial))
  all_goals
    intro hle a ha
    cases a <;> revert ha hle <;> decide

theorem not_takesWhole_stone :
    ¬ ∀ h amount : Balances, (∀ a, 0 ≤ h a) → (∀ a, 0 ≤ amount a) → TakesWhole h amount := by
  intro hall
  have hwhole := hall (fun a => if a = .wood then 10 else 0) (fun a => if a = .stone then 5 else 0)
    (by decide) (by decide)
  exact absurd (hwhole.succeeds.mp (by decide) .stone (by decide)) (by decide)

end Balances

end IceBridge
