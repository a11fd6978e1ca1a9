import IceBridge.Gateway.Player
import IceBridge.Lib.Run

/-! The buildings of a player: how a construction is ordered, and the four ways it ends. The
requests touch the session of the player and his records in the stores only. -/

namespace IceBridge.Gateway

structure BuildConfig where
  bigType : Int := 0
  need : Balances := fun _ => 0
  buildTime : Int := 0
  output : Int := 0
  space : Int := 0
  maxHp : Int := 0

structure CityLimit where
  maxLevel : Int := 0
  maxNum : Int := 0

structure Config where
  /-- By type and level. -/
  globalBuild : List (List BuildConfig) := []
  /-- By the level of the city hall and the type. -/
  cityLimit : List (List CityLimit) := []
  /-- The diamonds of each way to recruit. -/
  heroUpdateConfig : List Int := []
  /-- The output an hour and the seconds, multiplied as floats and cut to an `int`. -/
  produced : Int → Int → Int := fun output seconds => output * seconds / 3600

def Config.build? (cfg : Config) (type level : Int) : Option BuildConfig :=
  if type < 0 ∨ level < 0 then none
  else cfg.globalBuild[type.toNat]?.bind fun levels => levels[level.toNat]?

def Config.cityLimit? (cfg : Config) (level type : Int) : Option CityLimit :=
  if type < 0 ∨ level < 0 then none
  else cfg.cityLimit[level.toNat]?.bind fun types => types[type.toNat]?

namespace Player

/-- `en_timer`: the timer that the building had is forgotten, not cancelled. -/
def enTimer (p : Player) (sn : String) (now : Int) : Player :=
  match p.myBuild sn with
  | none => p
  | some b =>
    { p with
      buildingTimer := Function.update p.buildingTimer sn (some p.newTimer)
      -- the milliseconds are unsigned
      timers := { id := p.newTimer, buildSn := sn, due := now + b.time * 1000 % 2 ^ 32 / 1000 } ::
        p.timers
      newTimer := p.newTimer + 1 }

def deleteTimer (p : Player) (sn : String) : Player :=
  match p.buildingTimer sn with
  | none => p
  | some id =>
    { p with
      buildingTimer := Function.update p.buildingTimer sn none
      timers := p.timers.filter fun timer => timer.id ≠ id }

def setMyBuild (p : Player) (sn : String) (b : Build) : Player :=
  { p with myBuild := Function.update p.myBuild sn (some b) }

end Player

structure Estate where
  player : Player := {}
  store : Store := {}

structure Answer where
  estate : Estate
  result : Option Int := none

namespace Estate

def refuse (e : Estate) (result : Int) : Answer := { estate := e, result := some result }

def setBuild (e : Estate) (sn : String) (b : Build) : Estate :=
  { e with store := { e.store with build := Function.update e.store.build sn (some b) } }

def setBuildTimer (e : Estate) (sn : String) : Estate :=
  { e with store := { e.store with
      timer := if sn ∈ e.store.timer then e.store.timer else e.store.timer ++ [sn] } }

def setMaterial (e : Estate) : Estate :=
  { e with store := { e.store with
      asset := fun a => if a = .diamond then e.store.asset a else e.player.asset a } }

def updateDiamond (e : Estate) : Estate :=
  { e with store := { e.store with
      asset := Function.update e.store.asset .diamond (e.player.asset .diamond) } }

/-- A building one level higher, as all four ways to finish it make it. -/
def finished (cfg : Config) (b : Build) (now : Int) : Option Build := do
  let level ← cfg.build? b.buildType (b.buildLevel + 1)
  some { b with
    status := 0
    time := 0
    buildLevel := b.buildLevel + 1
    curHp := level.maxHp
    ctime := if b.bigType = 2 then now else b.ctime
    curResource := if b.bigType = 2 then 0 else b.curResource }

def buildTimerHandle (cfg : Config) (e : Estate) (sn : String) (now : Int) : Option Estate :=
  match e.player.myBuild sn with
  | none => some e
  | some b => do
    let b ← finished cfg b now
    let p := (e.player.setMyBuild sn b).deleteTimer sn
    some ({ e with player := { p with building := p.building.filter (· ≠ sn) } }.setBuild sn b)

def startBuild (e : Estate) (sn : String) (b : Build) (now : Int) : Estate :=
  let p := e.player.setMyBuild sn b
  let p := { p with building := p.building ++ [sn] }
  let p := if b.time ≤ 1100 then p.enTimer sn now else p
  ({ e with player := p }.setBuildTimer sn).setBuild sn b

def buildCreate (cfg : Config) (e : Estate) (type : Int) (sn : String) (now : Int) :
    Option Answer :=
  let p := e.player
  if 0 < type ∧ type < cfg.globalBuild.length then do
    let b ← cfg.build? type 0
    match p.myBuild p.cityHallUuid with
    | none => some (e.refuse (-1))
    | some hall =>
      if ∀ a, b.need a ≤ p.asset a then do
        let limit ← cfg.cityLimit? hall.buildLevel type
        if p.buildNum type < limit.maxNum then
          let count := p.buildNum type + 1
          let e := ({ e with player := p.addAsset (-b.need) }.updateDiamond).setMaterial
          let e := e.startBuild sn
            { bigType := b.bigType, status := 1, ctime := now, time := b.buildTime,
              buildType := type, curHp := b.maxHp } now
          some { estate :=
            { player := { e.player with buildNum := Function.update e.player.buildNum type count }
              store := { e.store with buildNum := Function.update e.store.buildNum type count } } }
        else some { estate := e }
      else some (e.refuse (-1))
  else some (e.refuse (-1))

def buildUpgrade (cfg : Config) (e : Estate) (sn : String) (now : Int) : Option Answer :=
  let p := e.player
  match p.myBuild p.cityHallUuid, p.myBuild sn with
  | some hall, some b => do
    let limit ← cfg.cityLimit? hall.buildLevel b.buildType
    if b.buildLevel < limit.maxLevel ∧ b.status ≠ 1 then do
      let res ← cfg.build? b.buildType b.buildLevel
      if ∀ a, a ≠ .diamond → res.need a ≤ p.asset a then
        let e := { e with
          player := p.addAsset fun a => if a = Asset.diamond then 0 else -res.need a }.setMaterial
        some { estate :=
          e.startBuild sn { b with status := 1, ctime := now, time := res.buildTime } now }
      else some (e.refuse (-1))
    else some (e.refuse (-1))
  | _, _ => some (e.refuse (-1))

def fastFinishCost (b : Build) (now : Int) : Int :=
  let remainTime := b.time - (now - b.ctime)
  let remainTime := if remainTime ≤ 0 then 1 else remainTime
  remainTime / 300 + 1

def fastFinish (cfg : Config) (e : Estate) (sn : String) (now : Int) : Option Answer :=
  let p := e.player
  match p.myBuild sn with
  | none => some (e.refuse (-1))
  | some b =>
    let diamond := fastFinishCost b now
    if diamond ≤ p.asset .diamond then
      let e' := { e with player := p.addAsset (Pi.single Asset.diamond (-diamond)) }
      if (p.buildingTimer sn).isSome then do
        let e ← e'.buildTimerHandle cfg sn now
        some { estate := e.updateDiamond }
      else if sn ∈ p.building then do
        let b ← finished cfg b now
        let p := e'.player.setMyBuild sn b
        let e := { e' with player := { p with building := p.building.erase sn } }
        some { estate := (e.setBuild sn b).updateDiamond }
      else some (e.refuse (-1))
    else some (e.refuse (-1))

def loaded (b : Build) (now : Int) : Build :=
  if b.bigType = 2 ∧ b.status = 0 then { b with time := now - b.ctime } else b

def getBuildMap (e : Estate) (now : Int) : Estate :=
  { e with player := { e.player with
      myBuild := fun sn => (e.store.build sn).map fun b => loaded b now } }

/-- The places of the buildings are not part of the model. -/
def buildStatusList (e : Estate) (sns : List String) (now : Int) : Answer :=
  { estate := sns.foldl (fun e sn =>
      match e.player.myBuild sn with
      | none => e
      | some b => e.setBuild sn b) (e.getBuildMap now) }

def resume (cfg : Config) (now : Int) (e : Estate) (sn : String) : Option Estate :=
  match e.player.myBuild sn with
  | none => some e
  | some b =>
    if b.status = 1 then
      let b : Build := { b with time := b.time - (now - b.ctime), ctime := now }
      let e : Estate := { e with player := e.player.setMyBuild sn b }
      if b.time ≤ 0 then e.buildTimerHandle cfg sn now
      else if b.time ≤ 1100 then
        let e := e.setBuild sn b
        some { e with player := e.player.enTimer sn now }
      else some (e.setBuild sn b)
    else some e

def login (cfg : Config) (e : Estate) (now : Int) : Option Estate :=
  let p : Player :=
    { asset := e.store.asset, cityHallUuid := e.store.cityHallUuid, buildNum := e.store.buildNum,
      building := e.store.timer }
  e.store.timer.foldlM (resume cfg now) (getBuildMap { e with player := p } now)

/-- `OnClose` deletes the timers in `building_timer`. One that has been forgotten would go off for
a handler that is gone, and is left out. -/
def logout (e : Estate) : Estate := { e with player := {} }

def tick (cfg : Config) (now : Int) (e : Estate) (sn : String) : Option Estate :=
  match e.player.myBuild sn with
  | none => some e
  | some b =>
    if b.status = 1 then
      let b : Build := { b with time := b.time - 1100 }
      let e : Estate := { e with player := e.player.setMyBuild sn b }
      if b.time ≤ 0 then e.buildTimerHandle cfg sn now
      else if b.time ≤ 1100 then some { e with player := e.player.enTimer sn now }
      else some e
    else some e

def heartCheck (cfg : Config) (e : Estate) (now : Int) : Option Estate :=
  e.player.building.foldlM (tick cfg now) e

def timeout (cfg : Config) (e : Estate) (id : ℕ) (now : Int) : Option Estate := do
  let timer ← e.player.timers.find? fun timer => timer.id = id ∧ timer.due ≤ now
  let p := { e.player with timers := e.player.timers.filter fun timer => timer.id ≠ id }
  { e with player := p }.buildTimerHandle cfg timer.buildSn now

end Estate

end IceBridge.Gateway
