import IceBridge.Gateway.Building
import IceBridge.Gateway.Goods
import Mathlib.Algebra.Group.Int.Defs

/-! Who writes the balances. The gateway goes by the copy of its session and writes the result
over what is stored; the army worker counts the stored balances up and down. -/

namespace IceBridge.Gateway

namespace Estate

def harvest (type amount : Int) : Balances :=
  if type = 8 then Pi.single .wood amount
  else if type = 9 then Pi.single .stone amount
  else if type = 10 then Pi.single .iron amount
  else if type = 11 then Pi.single .soil amount
  else 0

/-- The answer is -1 also when the yield has been added. -/
def getMyAsset (cfg : Config) (e : Estate) (sn : String) (now : Int) : Option Answer :=
  match e.player.myBuild sn with
  | none => some (e.refuse (-1))
  | some b =>
    if b.bigType = 2 ∧ b.status = 0 then do
      let level ← cfg.build? b.buildType b.buildLevel
      let b' := { b with ctime := now }
      let curOutput := min (cfg.produced level.output (now - b.ctime)) level.space
      let p := (e.player.setMyBuild sn b').addAsset (harvest b.buildType curOutput)
      some ((({ e with player := p } : Estate).setBuild sn b').setMaterial.refuse (-1))
    else some (e.refuse (-1))

/-- The heroes to choose from are not part of the model. -/
def recruit (cfg : Config) (e : Estate) (randomType : Int) : Option Answer :=
  if 0 < randomType ∧ randomType < cfg.heroUpdateConfig.length then do
    let diamond ← cfg.heroUpdateConfig[(randomType - 1).toNat]?
    if diamond ≤ e.player.asset .diamond then
      let p := e.player.addAsset (Pi.single .diamond (-diamond))
      some { estate := ({ e with player := p } : Estate).updateDiamond }
    else some (e.refuse (-1))
  else some (e.refuse (-1))

end Estate

namespace World

def estate (w : World) (u : UInt32) : Estate := { player := w.player u, store := w.store u }

def setEstate (w : World) (u : UInt32) (e : Estate) : World :=
  { w with
    player := Function.update w.player u e.player
    store := Function.update w.store u e.store }

def onEstate (w : World) (u : UInt32) (handler : Estate → Option Answer) : Option Outcome :=
  (handler (w.estate u)).map fun answer =>
    { world := w.setEstate u answer.estate, result := answer.result }

def soldierCost (need : Balances) (num : Int) : Balances := fun a => need a * num

def soldierRefund (need : Balances) (num : Int) : Balances := fun a => (need a).tdiv 2 * num

def completeCost (buildTotalSecond seconds : Int) : Int :=
  (buildTotalSecond - seconds).tdiv (60 * 5) + 1

def setStored (w : World) (u : UInt32) (asset : Balances) : World :=
  { w with store := Function.update w.store u { w.store u with asset } }

end World

inductive AssetEvent
  | buildCreate (u : UInt32) (type : Int) (sn : String) (now : Int)
  | buildUpgrade (u : UInt32) (sn : String) (now : Int)
  | getMyAsset (u : UInt32) (sn : String) (now : Int)
  | buyMarketGoods (u : UInt32) (goodsSn emailUuid : String)
  | fastFinish (u : UInt32) (sn : String) (now : Int)
  | recruit (u : UInt32) (randomType : Int)
  | getEmailGoods (u : UInt32) (emailUuid : String)
  /-- `addSoldiers`, from `subResource` on. -/
  | addSoldiers (u : UInt32) (need : Balances) (num : Int)
  | delSoliders (u : UInt32) (need : Balances) (num : Int)
  | completeAtOnce (u : UInt32) (buildTotalSecond seconds : Int)

/-- The world, and for each balance the accepted credits less the accepted debits. -/
structure Books where
  world : World
  booked : UInt32 → Balances := fun _ _ => 0

namespace Books

def request (b : Books) (u : UInt32) (handler : Option Outcome) : Option Books := do
  let w ← b.world.request u handler
  let change := (w.player u).asset - (b.world.player u).asset
  some { world := w, booked := Function.update b.booked u (b.booked u + change) }

def call (b : Books) (u : UInt32) (result : Bool × Balances) (change : Balances) : Books :=
  { world := b.world.setStored u result.2
    booked := if result.1 then Function.update b.booked u (b.booked u + change) else b.booked }

/-- The script does not touch the diamonds. -/
def material (amount : Balances) : Balances := fun a => if a = .diamond then 0 else amount a

def step (cfg : Config) (b : Books) : AssetEvent → Option Books
  | .buildCreate u type sn now =>
    b.request u (b.world.onEstate u fun e => e.buildCreate cfg type sn now)
  | .buildUpgrade u sn now => b.request u (b.world.onEstate u fun e => e.buildUpgrade cfg sn now)
  | .getMyAsset u sn now => b.request u (b.world.onEstate u fun e => e.getMyAsset cfg sn now)
  | .buyMarketGoods u goodsSn emailUuid =>
    b.request u (b.world.buyMarketGoods u goodsSn emailUuid)
  | .fastFinish u sn now => b.request u (b.world.onEstate u fun e => e.fastFinish cfg sn now)
  | .recruit u randomType => b.request u (b.world.onEstate u fun e => e.recruit cfg randomType)
  | .getEmailGoods u emailUuid => b.request u (b.world.getEmailGoods u emailUuid)
  | .addSoldiers u need num =>
    let cost := World.soldierCost need num
    let (ret, h, _) := Balances.subResource cost (b.world.store u).asset
    some (b.call u (ret, h) (material (-cost)))
  | .delSoliders u need num =>
    let refund := World.soldierRefund need num
    some (b.call u (Balances.manPlayerResources 1 refund (b.world.store u).asset)
      (material refund))
  | .completeAtOnce u buildTotalSecond seconds =>
    let diamondToSub := World.completeCost buildTotalSecond seconds
    some (b.call u (Balances.subDiamond diamondToSub (b.world.store u).asset)
      (Pi.single .diamond (-diamondToSub)))

end Books

end IceBridge.Gateway
