import IceBridge.Lib.Run
import Mathlib.Algebra.Group.Nat.Defs
import Mathlib.Data.List.AList
import Mathlib.Data.List.Sort

/-! The battles of the pvp worker: by defender in one table, and the defender of each attacker
in another. -/

namespace IceBridge.Pvp

/-- The number of buildings is read from redis and then set to 50. -/
def buildingNum : ℕ := 50

structure BattleMap where
  ticks : ℕ := 0
  attackerID : UInt32
  defenderID : UInt32
  diedBuildingNum : ℕ := 0
  townhallIsDied : Bool := false
  starNum : ℕ := 0
  atkerPoint : Int
  dfderPoint : Int
  isStart : Bool := true
  woodLoot : Int := 0
  stoneLoot : Int := 0
  oreLoot : Int := 0
  concreteLoot : Int := 0
  deriving DecidableEq

/-- What an attacker reports of a building or soldier, with what redis answers about it. -/
structure ObjectDie where
  isBuilding : Bool
  isTownhall : Bool
  buildingType : Option Int
  curRes : Option Int

namespace BattleMap

/-- Both points are those of the attacker. -/
def init (aID dID : UInt32) (point : UInt32 → Int) : BattleMap :=
  { attackerID := aID, defenderID := dID, atkerPoint := point aID, dfderPoint := point aID }

def update (b : BattleMap) : BattleMap := { b with ticks := b.ticks + 1 }

def getCurTick (b : BattleMap) : ℕ := b.ticks % 2 ^ 16

def plusDiedBuildingNum (b : BattleMap) : BattleMap :=
  let died := if b.diedBuildingNum < buildingNum then b.diedBuildingNum + 1 else b.diedBuildingNum
  -- the quotient is taken of integers and converted after that
  let ratio := died / buildingNum
  { b with
    diedBuildingNum := died
    starNum :=
      if 1 ≤ 2 * ratio ∧ ratio < 1 then (if b.townhallIsDied then 2 else 1)
      else if 1 ≤ ratio then 3
      else b.starNum }

def plusLoot (b : BattleMap) (buildingType resLoot : Int) : BattleMap :=
  { b with
    woodLoot := if buildingType = 1 then b.woodLoot + resLoot else b.woodLoot
    stoneLoot := if buildingType = 2 then b.stoneLoot + resLoot else b.stoneLoot
    oreLoot := if buildingType = 3 then b.oreLoot + resLoot else b.oreLoot
    concreteLoot := if buildingType = 4 then b.concreteLoot + resLoot else b.concreteLoot }

def buildingDied (b : BattleMap) (body : ObjectDie) : BattleMap :=
  let b : BattleMap := if body.isTownhall then { b with townhallIsDied := true } else b
  let b := b.plusDiedBuildingNum
  match body.buildingType, body.curRes with
  | some buildingType, some resLoot => b.plusLoot buildingType resLoot
  | _, _ => b

def gettedPoint (b : BattleMap) : Int × Int :=
  if 0 < b.starNum then
    let atker := (30 - (b.atkerPoint - b.dfderPoint).tdiv 10) * (b.starNum / 3 : ℕ)
    let atker := if b.starNum = 3 then atker + 6 else atker
    (atker, 0 - atker)
  else
    let dfder := 20 + (b.atkerPoint - b.dfderPoint).tdiv 20
    (0 - dfder, dfder)

end BattleMap

inductive Relay
  | heroCastSkill
  | heroMove
  | curBattleInfo
  | reportCurState
  | setRallypoint
  deriving DecidableEq

inductive Response
  | beingAtk (atkerUid : UInt32)
  | dfderLogin (dfderUid : UInt32)
  | dfderLogout
  | atkerLogout
  | startAtkToDfder
  | startAtkToAtker (dfderIsOnline : Bool)
  | relay (request : Relay)
  | ack
  | objectDie
  | dfderIsready
  | atkerStopBattle
  | askCurState
  /-- The loot is reported to those who have stopped a battle only. -/
  | battleResult (starNum : ℕ) (gettedPoint : Int) (loot : Option (List Int))
  deriving DecidableEq

structure PvpServer where
  /-- By the uid of the defender. -/
  battleMaps : AList fun _ : UInt32 => BattleMap := ∅
  /-- The defender of an attacker. -/
  playerPairs : UInt32 → Option UInt32 := fun _ => none
  onlinePlayers : UInt32 → Bool := fun _ => false
  /-- `abt#point` in redis. -/
  point : UInt32 → Int := fun _ => 0
  sent : List (UInt32 × Response) := []

namespace PvpServer

def getBattleMap (s : PvpServer) (uid : UInt32) : Option BattleMap := s.battleMaps.lookup uid

/-- 1 for a defender, 2 for an attacker. -/
def isAttackerOrDefender (s : PvpServer) (uid : UInt32) : ℕ :=
  match s.getBattleMap uid with
  | none => if (s.playerPairs uid).isSome then 2 else 0
  | some _ => 1

def getPeerUid (s : PvpServer) (uid : UInt32) : UInt32 :=
  match s.getBattleMap uid with
  | none => (s.playerPairs uid).getD 0
  | some b => b.attackerID

def setBattleMap (s : PvpServer) (uid : UInt32) (b : BattleMap) : PvpServer :=
  { s with battleMaps := s.battleMaps.insert uid b }

def deinitializeBattleMap (s : PvpServer) (uid : UInt32) : PvpServer :=
  { s with battleMaps := s.battleMaps.erase uid }

def insertBattleMap (s : PvpServer) (uid : UInt32) (item : BattleMap) : PvpServer :=
  match s.getBattleMap uid with
  | some _ => s
  | none =>
    { s.setBattleMap uid item with
      playerPairs := Function.update s.playerPairs item.attackerID (some uid) }

def sendToPlayer (s : PvpServer) (uid : UInt32) (msg : Response) : PvpServer :=
  { s with sent := s.sent ++ [(uid, msg)] }

def plusPlayerPoint (s : PvpServer) (uid : UInt32) (points : Int) : PvpServer :=
  { s with point := Function.update s.point uid (s.point uid + points) }

def sendResult (s : PvpServer) (b : BattleMap) (atkerUid dfderUid : UInt32)
    (loot : Option (List Int)) : PvpServer :=
  (s.sendToPlayer atkerUid (.battleResult b.starNum b.gettedPoint.1 loot)).sendToPlayer dfderUid
    (.battleResult b.starNum b.gettedPoint.2 loot)

def updateBattleMap (s : PvpServer) (uid : UInt32) : PvpServer :=
  match s.getBattleMap uid with
  | none => s
  | some b =>
    if b.isStart = false then s
    else
      let b := b.update
      let s :=
        if b.getCurTick % 20 = 0 then
          (s.sendToPlayer b.attackerID .askCurState).sendToPlayer b.defenderID .askCurState
        else s
      if 3000 ≤ b.getCurTick then
        let s := s.sendResult b b.attackerID b.defenderID none
        let s := s.plusPlayerPoint b.attackerID b.gettedPoint.1
        (s.plusPlayerPoint b.defenderID b.gettedPoint.2).deinitializeBattleMap uid
      else s.setBattleMap uid b

/-- The defenders, in the order of `std::map`. -/
def uids (s : PvpServer) : List UInt32 := s.battleMaps.keys.insertionSort (· ≤ ·)

def updateBattleMaps (s : PvpServer) : PvpServer := s.uids.foldl updateBattleMap s

/-- `peerUid` is what the variable holds that nothing has been assigned to. -/
def login (s : PvpServer) (uid peerUid : UInt32) : PvpServer :=
  let s := { s with onlinePlayers := Function.update s.onlinePlayers uid true }
  match s.getBattleMap uid with
  | none => s
  | some b =>
    ((s.setBattleMap uid { b with isStart := false }).sendToPlayer uid
      (.beingAtk peerUid)).sendToPlayer b.attackerID (.dfderLogin uid)

def retreat (s : PvpServer) (uid peerUid : UInt32) (withLoot : Bool) : PvpServer :=
  match s.getBattleMap peerUid with
  | none => s
  | some b =>
    let loot := [b.woodLoot, b.stoneLoot, b.oreLoot, b.concreteLoot]
    (s.sendResult b uid peerUid (if withLoot then some loot else none)).deinitializeBattleMap peerUid

def logout (s : PvpServer) (uid : UInt32) : PvpServer :=
  let s := { s with onlinePlayers := Function.update s.onlinePlayers uid false }
  let peerUid := s.getPeerUid uid
  if s.isAttackerOrDefender uid = 1 then s.sendToPlayer peerUid .dfderLogout
  else if s.isAttackerOrDefender uid = 2 then
    (s.sendToPlayer peerUid .atkerLogout).retreat uid peerUid false
  else s

/-- `peerUid` is whom redis has under the name, or anything when the name is unknown. -/
def startAttack (s : PvpServer) (uid peerUid : UInt32) : PvpServer :=
  match s.getBattleMap peerUid with
  | some _ => s
  | none =>
    let s := s.insertBattleMap peerUid (BattleMap.init uid peerUid s.point)
    (s.sendToPlayer peerUid .startAtkToDfder).sendToPlayer uid
      (.startAtkToAtker (s.onlinePlayers peerUid))

def objectDie (s : PvpServer) (uid : UInt32) (body : ObjectDie) : Option PvpServer :=
  let peerUid := s.getPeerUid uid
  if peerUid = 0 then some s
  else
    let s := (s.sendToPlayer peerUid .objectDie).sendToPlayer uid .ack
    if s.isAttackerOrDefender uid = 2 ∧ body.isBuilding then
      (s.getBattleMap peerUid).map fun b => s.setBattleMap peerUid (b.buildingDied body)
    else some s

def relayTo (s : PvpServer) (uid : UInt32) (request : Relay) (checksPeer acks : Bool) : PvpServer :=
  let peerUid := s.getPeerUid uid
  if checksPeer ∧ peerUid = 0 then s
  else
    let s := if acks then s.sendToPlayer uid .ack else s
    s.sendToPlayer peerUid (.relay request)

def relay (s : PvpServer) (uid : UInt32) : Relay → PvpServer
  | .heroCastSkill => s.relayTo uid .heroCastSkill false true
  | .heroMove => s.relayTo uid .heroMove true true
  | .curBattleInfo => s.relayTo uid .curBattleInfo true false
  | .reportCurState => s.relayTo uid .reportCurState true false
  | .setRallypoint => s.relayTo uid .setRallypoint false true

def dfderIsready (s : PvpServer) (uid : UInt32) : PvpServer :=
  let peerUid := s.getPeerUid uid
  if peerUid = 0 then s
  else
    match s.getBattleMap uid with
    | none => s
    | some b => (s.setBattleMap uid { b with isStart := true }).sendToPlayer peerUid .dfderIsready

def atkerStopBattle (s : PvpServer) (uid : UInt32) : PvpServer :=
  let peerUid := s.getPeerUid uid
  ((s.sendToPlayer peerUid .atkerStopBattle).sendToPlayer uid .ack).retreat uid peerUid true

end PvpServer

inductive PvpEvent
  | login (uid peerUid : UInt32)
  | logout (uid : UInt32)
  | startAttack (uid peerUid : UInt32)
  | objectDie (uid : UInt32) (body : ObjectDie)
  | relay (uid : UInt32) (request : Relay)
  | dfderIsready (uid : UInt32)
  | atkerStopBattle (uid : UInt32)
  | notUnpacked (uid : UInt32)
  | updateBattleMaps

namespace PvpServer

def step (s : PvpServer) : PvpEvent → Option PvpServer
  | .login uid peerUid => some (s.login uid peerUid)
  | .logout uid => some (s.logout uid)
  | .startAttack uid peerUid => some (s.startAttack uid peerUid)
  | .objectDie uid body => s.objectDie uid body
  | .relay uid request => some (s.relay uid request)
  | .dfderIsready uid => some (s.dfderIsready uid)
  | .atkerStopBattle uid => some (s.atkerStopBattle uid)
  | .notUnpacked _ => some s
  | .updateBattleMaps => some s.updateBattleMaps

end PvpServer

end IceBridge.Pvp
