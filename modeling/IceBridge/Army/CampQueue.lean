import IceBridge.Lib.Text
import Mathlib.Logic.Function.Basic

/-! The build queue of a camp: soldiers trained one after another on a timer while the
player is online, and in one go from the stored queue when the player logs in. -/

namespace IceBridge.Army
open Text

structure ArmsResponse where
  population : Int
  buildTime : Int

abbrev Arms := List (List ArmsResponse)

namespace Arms

def find (arms : Arms) (type level : Int) : Option ArmsResponse :=
  if type < 0 ∨ level < 0 then none
  else (arms[type.toNat]?).bind fun levels => levels[level.toNat]?

def buildTime (arms : Arms) (type level : Int) : Int :=
  ((arms.find type level).map ArmsResponse.buildTime).getD 0

end Arms

structure Soldier where
  type : Int
  level : Int
  deriving DecidableEq, Repr

/-- An entry of `armys_queue`. Its camp is the camp whose queue it is in, and its
operation is `ADD`. -/
structure SoldierInfo where
  soldierType : Int
  soldierLevel : Int
  soldierNum : Int
  deriving DecidableEq, Repr

namespace SoldierInfo

def soldier (e : SoldierInfo) : Soldier := ⟨e.soldierType, e.soldierLevel⟩

def soldiers (e : SoldierInfo) : List Soldier := List.replicate e.soldierNum.toNat e.soldier

end SoldierInfo

/-! ## The player's army -/

structure BuildedArmy where
  popu : Option Int := none
  curPopu : Option Int := none
  /-- The counters `army#type`. -/
  count : Int → Int := fun _ => 0
  /-- The list `army#uid`; an empty place holds `#`. -/
  places : List (Option Int) := []
  inserted : List Soldier := []
  refused : List Soldier := []

namespace BuildedArmy

def finishCreateSoldier (army : BuildedArmy) (type population : Int) : Int × BuildedArmy :=
  let curPopu := army.curPopu.getD 0
  if army.popu.getD 50 - curPopu < population then (-1, army)
  else
    let index := army.places.findIdx (· = none)
    (index, { army with
      count := Function.update army.count type (army.count type + 1)
      curPopu := some (curPopu + population)
      places := if index = army.places.length then army.places ++ [some type]
        else army.places.set index (some type) })

def insertToBuildedArmyQueue (arms : Arms) (type level : Int) (army : BuildedArmy) :
    Bool × BuildedArmy :=
  match arms.find type level with
  | none => (false, { army with refused := army.refused ++ [⟨type, level⟩] })
  | some a =>
    let (soldierId, army) := army.finishCreateSoldier type (short a.population)
    if 0 ≤ soldierId then (true, { army with inserted := army.inserted ++ [⟨type, level⟩] })
    else (false, { army with refused := army.refused ++ [⟨type, level⟩] })

theorem finishCreateSoldier_log (army : BuildedArmy) (type population : Int) :
    (army.finishCreateSoldier type population).2.inserted = army.inserted ∧
      (army.finishCreateSoldier type population).2.refused = army.refused := by
  unfold finishCreateSoldier
  dsimp only
  split_ifs <;> exact ⟨rfl, rfl⟩

theorem insertToBuildedArmyQueue_cases (arms : Arms) (type level : Int) (army : BuildedArmy) :
    (∃ army', insertToBuildedArmyQueue arms type level army = (true, army') ∧
      army'.inserted = army.inserted ++ [⟨type, level⟩] ∧ army'.refused = army.refused) ∨
    ∃ army', insertToBuildedArmyQueue arms type level army = (false, army') ∧
      army'.inserted = army.inserted ∧ army'.refused = army.refused ++ [⟨type, level⟩] := by
  unfold insertToBuildedArmyQueue
  split
  · exact .inr ⟨_, rfl, rfl, rfl⟩
  · next a _ =>
    have hlog := finishCreateSoldier_log army type (short a.population)
    dsimp only
    split_ifs with hid
    · exact .inl ⟨_, rfl, by rw [hlog.1], hlog.2⟩
    · exact .inr ⟨_, rfl, hlog.1, by rw [hlog.2]⟩

end BuildedArmy

/-! ## The timer queue of a camp -/

/-- `TimerQueue`: times are in seconds, `none` is `not_a_date_time`, and `armed` says that
a wait on the timer is pending. -/
structure TimerQueue where
  armysQueue : List SoldierInfo := []
  isBlock : Bool := false
  beginBuildTime : Option Int := none
  expiresAt : Option Int := none
  armed : Bool := false
  deriving DecidableEq

namespace TimerQueue

def pushBack (tq : TimerQueue) (e : SoldierInfo) : TimerQueue :=
  { tq with armysQueue := tq.armysQueue ++ [e] }

def registerTime (arms : Arms) (tq : TimerQueue) (beginBuildTime : Option Int) (secs : Int) :
    TimerQueue :=
  match tq.armysQueue with
  | [] => tq
  | sir :: _ =>
    let beginBuildTime := beginBuildTime.or tq.expiresAt
    let wait := if secs = 0 then arms.buildTime sir.soldierType sir.soldierLevel else secs
    { tq with
      beginBuildTime := beginBuildTime
      expiresAt := beginBuildTime.map (· + wait)
      armed := true }

def timeIsUp (arms : Arms) (tq : TimerQueue) (army : BuildedArmy) : TimerQueue × BuildedArmy :=
  let tq := { tq with armed := false }
  match tq.armysQueue with
  | [] => (tq, army)
  | sir :: rest =>
    match army.insertToBuildedArmyQueue arms sir.soldierType sir.soldierLevel with
    | (true, army) =>
      let armysQueue := if sir.soldierNum = 1 then rest
        else { sir with soldierNum := sir.soldierNum - 1 } :: rest
      let tq := { tq with isBlock := false, armysQueue := armysQueue }
      if armysQueue = [] then (tq, army) else (tq.registerTime arms none 0, army)
    | (false, army) => ({ tq with isBlock := true }.registerTime arms none 30, army)

def due (now : Int) (tq : TimerQueue) : Prop := tq.armed ∧ ∃ t ∈ tq.expiresAt, t ≤ now

instance (now : Int) (tq : TimerQueue) : Decidable (tq.due now) :=
  inferInstanceAs (Decidable (_ ∧ ∃ t ∈ tq.expiresAt, t ≤ now))

def timerLoop (arms : Arms) (now : Int) : ℕ → TimerQueue × BuildedArmy → TimerQueue × BuildedArmy
  | 0, s => s
  | n + 1, s => if s.1.due now then timerLoop arms now n (s.1.timeIsUp arms s.2) else s

end TimerQueue

/-! ## The stored queue -/

def SoldierInfo.text (e : SoldierInfo) : Text :=
  formatInt e.soldierType ++ '#' :: (formatInt e.soldierLevel ++ '#' :: formatInt e.soldierNum)

/-- The list `writeIntoRedis` leaves in Redis, as LRANGE returns it: LPUSH puts every
element in front of those before it. -/
def writeIntoRedis (isoTime : Text) (isBlock : Bool) (armysQueue : List SoldierInfo) : List Text :=
  (isoTime :: formatInt isBlock.toInt :: armysQueue.map SoldierInfo.text).reverse

def campKey (uid : UInt32) (whichCamp : Text) : Text :=
  "camp#".toList ++ (formatInt uid.toInt32.toInt ++ '#' :: whichCamp)

def parseEntry (token : Text) : Option SoldierInfo :=
  match split '#' token with
  | [type, level, num] =>
    let e : SoldierInfo := ⟨short (atoi type), short (atoi level), short (atoi num)⟩
    if e.soldierType = 0 ∨ e.soldierLevel = 0 ∨ e.soldierNum = 0 then none else some e
  | _ => none

structure Loading where
  tq : TimerQueue
  army : BuildedArmy
  td : Int
  markInsertDirectly : Bool

def insertLoop (arms : Arms) (now type level : Int) : ℕ → Loading → Loading
  | 0, s => s
  | soldierNum + 1, s =>
    if s.td - arms.buildTime type level < 0 then
      { s with
        markInsertDirectly := true
        tq := (s.tq.pushBack ⟨type, level, soldierNum⟩).registerTime arms (some (now - s.td)) 0 }
    else
      let td := s.td - arms.buildTime type level
      match s.army.insertToBuildedArmyQueue arms type level with
      | (true, army) =>
        insertLoop arms now type level soldierNum
          { s with td := td, army := army, tq := { s.tq with isBlock := false } }
      | (false, army) =>
        { td := td, army := army, markInsertDirectly := true,
          tq := { s.tq with isBlock := true }.pushBack ⟨type, level, soldierNum⟩ }

def loadEntry (arms : Arms) (now : Int) (s : Loading) (token : Text) : Loading :=
  match parseEntry token with
  | none => s
  | some e =>
    if s.markInsertDirectly then { s with tq := s.tq.pushBack e }
    else insertLoop arms now e.soldierType e.soldierLevel (e.soldierNum + 1).toNat s

structure ArmysBuildQueue where
  campQueue : Text → Option TimerQueue := fun _ => none
  army : BuildedArmy

def newTimerQueueFromRedis (arms : Arms) (fromIsoString : Text → Int) (now : Int)
    (campString : Text) (campInfo : List Text) (q : ArmysBuildQueue) : ArmysBuildQueue :=
  let campId := afterLast '#' campString
  match campInfo.reverse with
  | last :: isBlock :: entry :: entries =>
    if campId = [] then q
    else
      let blocked : Bool := atoi isBlock ≠ 0
      let s := (entry :: entries).foldl (loadEntry arms now)
        { tq := { isBlock := blocked }, army := q.army, td := now - fromIsoString last,
          markInsertDirectly := blocked }
      let tq := if s.tq.isBlock then s.tq.registerTime arms (some now) 30 else s.tq
      { campQueue := Function.update q.campQueue campId (some tq), army := s.army }
  | _ => q

theorem afterLast_campKey {uid : UInt32} {whichCamp : Text} (h : '#' ∉ whichCamp) :
    afterLast '#' (campKey uid whichCamp) = whichCamp := by
  rw [campKey, ← List.append_assoc]
  exact afterLast_append h

end IceBridge.Army
