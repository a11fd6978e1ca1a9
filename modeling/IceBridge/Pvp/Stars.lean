import IceBridge.Pvp.Battle
import Mathlib.Data.List.Induction

/-! The stars of an attack, for any number of buildings. The quotient of the two counters is rounded
down before it is compared with a half, so that it is one at the very end and zero until then. -/

namespace IceBridge.Pvp

structure Score where
  diedBuildingNum : ℕ := 0
  townhallIsDied : Bool := false
  starNum : ℕ := 0

namespace Score

def setTownhallDied (s : Score) : Score := { s with townhallIsDied := true }

def plusDiedBuildingNum (buildingNum : ℕ) (s : Score) : Score :=
  let died := if s.diedBuildingNum < buildingNum then s.diedBuildingNum + 1 else s.diedBuildingNum
  -- both are unsigned, and only the quotient becomes a `double`
  let ratio := died / buildingNum
  { s with
    diedBuildingNum := died
    starNum :=
      if 1 ≤ 2 * ratio ∧ ratio < 1 then (if s.townhallIsDied then 2 else 1)
      else if 1 ≤ ratio then 3
      else s.starNum }

def report (buildingNum : ℕ) (s : Score) (body : ObjectDie) : Score :=
  (if body.isTownhall then s.setTownhallDied else s).plusDiedBuildingNum buildingNum

end Score

def expectedStars (buildingNum died : ℕ) (townhall : Bool) : ℕ :=
  if died = buildingNum then 3
  else if buildingNum ≤ 2 * died then (if townhall then 2 else 1)
  else 0

namespace Score
variable {buildingNum : ℕ}

theorem report_eq (s : Score) (body : ObjectDie) (hlt : s.diedBuildingNum < buildingNum) :
    s.report buildingNum body =
      ⟨s.diedBuildingNum + 1, body.isTownhall || s.townhallIsDied,
        if s.diedBuildingNum + 1 = buildingNum then 3 else s.starNum⟩ := by
  have hflag : (if body.isTownhall then s.setTownhallDied else s) =
      { s with townhallIsDied := body.isTownhall || s.townhallIsDied } := by
    cases body.isTownhall <;> rfl
  rw [report, hflag, plusDiedBuildingNum]
  dsimp only
  rw [if_pos hlt]
  by_cases hlast : s.diedBuildingNum + 1 = buildingNum
  · have hratio : (s.diedBuildingNum + 1) / buildingNum = 1 := by
      rw [hlast]
      exact Nat.div_self (Nat.lt_of_le_of_lt (Nat.zero_le _) hlt)
    rw [hratio, if_pos hlast]
    rfl
  · have hratio : (s.diedBuildingNum + 1) / buildingNum = 0 :=
      Nat.div_eq_of_lt (Nat.lt_of_le_of_ne hlt hlast)
    rw [hratio, if_neg hlast]
    rfl

theorem foldl_report (hpos : 1 ≤ buildingNum) (reports : List ObjectDie)
    (hle : reports.length ≤ buildingNum) :
    reports.foldl (report buildingNum) {} =
      ⟨reports.length, reports.any ObjectDie.isTownhall,
        if reports.length = buildingNum then 3 else 0⟩ := by
  induction reports using List.reverseRecOn with
  | nil =>
    have hne : ¬ ([] : List ObjectDie).length = buildingNum := fun h =>
      absurd (h ▸ hpos) (by decide)
    rw [if_neg hne]
    rfl
  | append_singleton reports body ih =>
    rw [List.length_append] at hle
    have hlt : reports.length < buildingNum := hle
    rw [List.foldl_append, ih (Nat.le_of_lt hlt), if_neg (Nat.ne_of_lt hlt), List.foldl_cons,
      List.foldl_nil, report_eq _ _ hlt, List.length_append, List.any_append, Bool.or_comm]
    simp

/-- The stars are the right ones as long as less than half of the buildings are destroyed, and when
all of them are. -/
theorem starNum_eq_iff (hpos : 1 ≤ buildingNum) {reports : List ObjectDie}
    (hle : reports.length ≤ buildingNum) :
    (reports.foldl (report buildingNum) {}).starNum =
        expectedStars buildingNum reports.length (reports.any ObjectDie.isTownhall) ↔
      reports.length = buildingNum ∨ 2 * reports.length < buildingNum := by
  rw [foldl_report hpos reports hle, expectedStars]
  dsimp only
  by_cases hall : reports.length = buildingNum
  · rw [if_pos hall, if_pos hall]
    exact iff_of_true rfl (.inl hall)
  · rw [if_neg hall, if_neg hall]
    by_cases hhalf : buildingNum ≤ 2 * reports.length
    · rw [if_pos hhalf]
      refine iff_of_false ?_ (not_or.mpr ⟨hall, Nat.not_lt.mpr hhalf⟩)
      cases reports.any ObjectDie.isTownhall <;> decide
    · rw [if_neg hhalf]
      exact iff_of_true rfl (.inr (Nat.not_le.mp hhalf))

theorem starNum_eq_iff_one :
    ([⟨true, true, none, none⟩].foldl (report 4) {}).starNum =
        expectedStars 4 [ObjectDie.mk true true none none].length
          ([ObjectDie.mk true true none none].any ObjectDie.isTownhall) ↔
      [ObjectDie.mk true true none none].length = 4 ∨
        2 * [ObjectDie.mk true true none none].length < 4 :=
  starNum_eq_iff (by decide) (by decide)

/-- With two of four buildings there should be a star, and a second one for the town hall. -/
theorem not_starNum_half :
    ([⟨true, false, none, none⟩, ⟨true, true, none, none⟩].foldl (report 4) {}).starNum ≠
      expectedStars 4 2 true := by
  decide

end Score

/-! ## In a battle -/

namespace BattleMap

def score (b : BattleMap) : Score := ⟨b.diedBuildingNum, b.townhallIsDied, b.starNum⟩

theorem score_buildingDied (b : BattleMap) (body : ObjectDie) :
    (b.buildingDied body).score = b.score.report buildingNum body := by
  have hflag :
      (if body.isTownhall then ({ b with townhallIsDied := true } : BattleMap) else b).score =
      if body.isTownhall then b.score.setTownhallDied else b.score := by
    cases body.isTownhall <;> rfl
  unfold buildingDied Score.report
  dsimp only
  rw [← hflag]
  split <;> rfl

theorem score_foldl (b : BattleMap) (reports : List ObjectDie) :
    (reports.foldl buildingDied b).score = reports.foldl (Score.report buildingNum) b.score := by
  induction reports generalizing b with
  | nil => rfl
  | cons body reports ih => rw [List.foldl_cons, ih, score_buildingDied, List.foldl_cons]

theorem starNum_of_lt (aID dID : UInt32) (point : UInt32 → Int) {reports : List ObjectDie}
    (hlt : reports.length < buildingNum) :
    (reports.foldl buildingDied (init aID dID point)).starNum = 0 := by
  have hscore := score_foldl (init aID dID point) reports
  have hfold := Score.foldl_report (by decide) reports (Nat.le_of_lt hlt)
  rw [if_neg (Nat.ne_of_lt hlt)] at hfold
  exact congrArg Score.starNum (hscore.trans hfold)

end BattleMap

end IceBridge.Pvp
