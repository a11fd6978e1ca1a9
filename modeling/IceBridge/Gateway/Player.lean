import IceBridge.Store.Balances
import Mathlib.Algebra.Group.Pi.Basic

/-! What the gateway keeps of its players: the session's copy of the balances, buildings and
goods, the market that all sessions share, and what is written to the stores. -/

namespace IceBridge.Gateway

structure EquipAttr where
  part : Int := 0
  quality : Int := 0
  level : Int := 0
  attr1Type : Int := 0
  attr1Value : Int := 0
  attr2Type : Int := 0
  attr2Value : Int := 0
  extral1Type : Int := 0
  extral1Value : Int := 0
  extral2Type : Int := 0
  extral2Value : Int := 0
  deriving DecidableEq

/-- `witchPannle` is 0 in the backpack, 1 on a hero, 2 in an email and -1 for an empty slot. -/
structure Equip where
  witchPannle : Int := 0
  whereUuid : String := ""
  position : Int := 0
  equipSn : String := ""
  attr : EquipAttr := {}
  diamondCost : Int := 0
  deriving DecidableEq

structure Hero where
  heroUuid : String
  curGoodsSpace : Int
  /-- The place among the heroes, or among those to choose from, counted from 1. -/
  heroSn : Int := 0
  whereIs : Int := 0
  deriving DecidableEq

structure MarketGoods where
  player : String
  diamondCost : Int
  equipSn : String
  attr : EquipAttr
  /-- In seconds; a day for a new listing. -/
  remainTime : Int := 86400

/-- An email of diamonds, or of an equip when there are none. -/
structure EmailSale where
  diamond : Int
  otherName : String
  equip : Equip := {}

structure Build where
  bigType : Int := 0
  status : Int := 0
  ctime : Int := 0
  time : Int := 0
  buildType : Int := 0
  buildLevel : Int := 0
  curHp : Int := 0
  curResource : Int := 0
  deriving DecidableEq

structure Timer where
  id : ℕ
  buildSn : String
  due : Int
  deriving DecidableEq

/-- A player's session. The slots of a hero are found by the hero's uuid. -/
structure Player where
  asset : Balances := fun _ => 0
  name : String := ""
  cityHallUuid : String := ""
  myBuild : String → Option Build := fun _ => none
  buildNum : Int → Int := fun _ => 0
  building : List String := []
  buildingTimer : String → Option ℕ := fun _ => none
  /-- The timers that wait, those that `buildingTimer` has forgotten too. -/
  timers : List Timer := []
  newTimer : ℕ := 0
  backpackNum : Int := 12
  backpackStatus : ℕ → Bool := fun _ => false
  myBackpack : ℕ → Equip := fun _ => {}
  myHero : ℕ → Option Hero := fun _ => none
  heroEquip : String → List Equip := fun _ => []
  emailSaleList : String → Option EmailSale := fun _ => none

structure Store where
  asset : Balances := fun _ => 0
  cityHallUuid : String := ""
  build : String → Option Build := fun _ => none
  buildNum : Int → Int := fun _ => 0
  /-- The fields of `timer#`. -/
  timer : List String := []

structure World where
  player : UInt32 → Player := fun _ => {}
  online : UInt32 → Bool := fun _ => true
  store : UInt32 → Store := fun _ => {}
  emailSale : UInt32 → String → Option EmailSale := fun _ _ => none
  gloabalMarket : List MarketGoods := []
  marketIndex : String → Option ℕ := fun _ => none
  findUserUuid : String → UInt32 := fun _ => 0
  /-- The serial numbers that `createRandom` has returned for equips. -/
  created : List String := []

structure Outcome where
  world : World
  result : Option Int := none

def spaceNotEnough : Int := -6

def moneyNotEnough : Int := -7

namespace Player

def getBackpack (p : Player) : Option ℕ :=
  if p.backpackNum < 12 ∨ 64 < p.backpackNum then none
  else (List.range p.backpackNum.toNat).find? fun i => !p.backpackStatus i

def put (p : Player) (i : ℕ) (e : Equip) : Player :=
  { p with
    backpackStatus := Function.update p.backpackStatus i true
    myBackpack := Function.update p.myBackpack i e }

def take (p : Player) (i : ℕ) : Player :=
  { p with backpackStatus := Function.update p.backpackStatus i false }

def setSlot (p : Player) (heroUuid : String) (i : ℕ) (e : Equip) : Player :=
  { p with
    heroEquip := Function.update p.heroEquip heroUuid ((p.heroEquip heroUuid).set i e) }

def addAsset (p : Player) (amount : Balances) : Player :=
  { p with asset := p.asset + amount }

end Player

namespace World

def setPlayer (w : World) (u : UInt32) (p : Player) : World :=
  { w with player := Function.update w.player u p }

def refuse (w : World) (result : Int) : Outcome := { world := w, result := some result }

def updateDiamond (w : World) (u : UInt32) : World :=
  { w with
    store := Function.update w.store u { w.store u with
      asset := Function.update (w.store u).asset .diamond ((w.player u).asset .diamond) } }

end World

end IceBridge.Gateway
