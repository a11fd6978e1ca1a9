import IceBridge.Gateway.Player
import IceBridge.Lib.Run

/-! The requests that move equips between backpacks, heroes, the market and emails. An index
past the end of an array makes a request undefined. -/

namespace IceBridge.Gateway

def setEquip (e : Equip) : Equip :=
  if e.whereUuid = "" ∨ e.whereUuid = "  " then { e with whereUuid := "NoUUID" } else e

def EmailSale.written (email : EmailSale) : EmailSale :=
  { email with
    otherName :=
      if email.otherName = "" ∨ email.otherName = " " then "NoName" else email.otherName
    equip := if email.diamond ≤ 0 then setEquip email.equip else email.equip }

namespace World

/-- `createRandom` does not return a serial number twice. -/
def createSn (w : World) (sn : String) : Option String :=
  if sn ∈ w.created then none else some sn

def createEmailUuid (w : World) (uuid : UInt32) (key : String) : Option String :=
  if (w.emailSale uuid key).isSome then none else some key

def setMarket (w : World) (res : MarketGoods) : World :=
  { w with
    gloabalMarket := w.gloabalMarket ++ [res]
    marketIndex := Function.update w.marketIndex res.equipSn (some w.gloabalMarket.length) }

/-- The last listing takes the place of the one deleted. -/
def delMarket (w : World) (sn : String) : World :=
  match w.marketIndex sn with
  | none => w
  | some i =>
    match w.gloabalMarket.getLast?, decide (i < w.gloabalMarket.length) with
    | some last, true =>
      if w.gloabalMarket.length = 1 then
        { w with gloabalMarket := [], marketIndex := fun _ => none }
      else
        { w with
          gloabalMarket := (w.gloabalMarket.set i last).dropLast
          marketIndex :=
            Function.update (Function.update w.marketIndex last.equipSn (some i)) sn none }
    | _, _ => w

def setEmailSale (w : World) (uuid : UInt32) (key : String) (email : EmailSale) : World :=
  let w' := { w with
    emailSale := Function.update w.emailSale uuid
      (Function.update (w.emailSale uuid) key (some email.written)) }
  if w.online uuid then
    w'.setPlayer uuid { w.player uuid with
      emailSaleList := Function.update (w.player uuid).emailSaleList key (some email.written) }
  else w'

def delEmailSale (w : World) (u : UInt32) (key : String) : World :=
  { w with
    emailSale := Function.update w.emailSale u (Function.update (w.emailSale u) key none)
    player := Function.update w.player u { w.player u with
      emailSaleList := Function.update (w.player u).emailSaleList key none } }

def openBox (w : World) (u : UInt32) (sn : String) (attr : EquipAttr) : Option Outcome :=
  match (w.player u).getBackpack with
  | none => some (w.refuse spaceNotEnough)
  | some b => do
    let sn ← w.createSn sn
    let res : Equip := { whereUuid := "NoEquipUUID", position := b, equipSn := sn, attr, diamondCost := 10 }
    some { world := { w.setPlayer u ((w.player u).put b res) with created := sn :: w.created } }

/-- The end of `DressEquipRequestService`: slot `i` of hero `h` gets the equip at `b`, and
`b` gets what was in the slot. -/
def dressAt (w : World) (u : UInt32) (h : Hero) (b i : ℕ) : Option Outcome := do
  let p := w.player u
  let e1 ← (p.heroEquip h.heroUuid)[i]?
  let e := p.myBackpack b
  let dressed := setEquip { e with whereUuid := h.heroUuid, witchPannle := 1, position := i }
  let p' := p.setSlot h.heroUuid i dressed
  if e1.witchPannle = 1 then
    let temp := setEquip { e1 with witchPannle := 0, position := b }
    some { world := w.setPlayer u (p'.put b temp) }
  else some { world := w.setPlayer u (p'.take b) }

def dressEquip (w : World) (u : UInt32) (whichHero backpackPosition heroPosition : Int) :
    Option Outcome :=
  let p := w.player u
  if backpackPosition < 0 ∨ p.backpackNum ≤ backpackPosition ∨ whichHero < 1 ∨ 5 < whichHero then
    some (w.refuse (-1))
  else if 64 ≤ backpackPosition then none
  else
    match p.backpackStatus backpackPosition.toNat, p.myHero (whichHero - 1).toNat with
    | true, some h =>
      if h.curGoodsSpace ≤ heroPosition then some (w.refuse (-3))
      else if heroPosition = -1 then
        -- `find_hero_equip_sn`
        match (p.heroEquip h.heroUuid).findIdx? fun e => e.witchPannle ≠ 1 with
        | none => some (w.refuse (-4))
        | some i => w.dressAt u h backpackPosition.toNat i
      else if heroPosition < 0 then none
      else w.dressAt u h backpackPosition.toNat heroPosition.toNat
    | _, _ => some (w.refuse (-2))

def unloadEquip (w : World) (u : UInt32) (whichHero position : Int) : Option Outcome :=
  let p := w.player u
  if whichHero < 1 ∨ 5 < whichHero ∨ position < 0 ∨ 5 < position then some (w.refuse (-1))
  else
    match p.myHero (whichHero - 1).toNat with
    | none => some (w.refuse (-2))
    | some h => do
      let e ← (p.heroEquip h.heroUuid)[position.toNat]?
      if e.witchPannle ≠ 1 then some (w.refuse (-3))
      else
        match p.getBackpack with
        | none => some (w.refuse (-4))
        | some b =>
          let p' := p.put b (setEquip { e with witchPannle := 0, position := b })
          some {
            world := w.setPlayer u
              (p'.setSlot h.heroUuid position.toNat { e with witchPannle := -1 })
            result := some 0 }

def saleGoods (w : World) (u : UInt32) (position diamondCost : Int) : Option Outcome :=
  let p := w.player u
  if 0 ≤ position ∨ p.backpackNum < 64 then
    if position < 0 ∨ 64 ≤ position then none
    else if p.backpackStatus position.toNat then
      let e := p.myBackpack position.toNat
      let res : MarketGoods :=
        { player := p.name
          diamondCost := if diamondCost ≤ 0 then 1 else diamondCost
          equipSn := e.equipSn
          attr := e.attr }
      some { world := (w.setPlayer u (p.take position.toNat)).setMarket res, result := some 0 }
    else some (w.refuse (-1))
  else some (w.refuse (-1))

def buyMarketGoods (w : World) (u : UInt32) (goodsSn key : String) : Option Outcome :=
  let p := w.player u
  match w.marketIndex goodsSn with
  | none => some (w.refuse (-1))
  | some i =>
    match w.gloabalMarket[i]?, p.getBackpack with
    | none, _ => some (w.refuse (-1))
    | some _, none => some (w.refuse spaceNotEnough)
    | some e, some b =>
      if e.diamondCost ≤ p.asset .diamond then do
        let p' := p.addAsset (Pi.single .diamond (-e.diamondCost))
        let uuid := w.findUserUuid e.player
        let res : Equip :=
          { position := b, equipSn := e.equipSn, diamondCost := 10,
            attr := { e.attr with extral1Value := e.attr.extral2Value } }
        let w := (((w.setPlayer u p').updateDiamond u).setPlayer u (p'.put b res)).delMarket e.equipSn
        -- `e` refers to position `i`, where the last listing is by now; past the end the
        -- memory of the removed one is read
        let diamond := (w.gloabalMarket[i]?.getD e).diamondCost
        let key ← w.createEmailUuid uuid key
        some { world := w.setEmailSale uuid key { diamond, otherName := p.name }, result := some 0 }
      else some (w.refuse moneyNotEnough)

def getEmailGoods (w : World) (u : UInt32) (key : String) : Outcome :=
  let p := w.player u
  match p.emailSaleList key with
  | none => w.refuse (-1)
  | some email =>
    let w :=
      if email.diamond ≤ 0 then
        match p.getBackpack with
        | none => w
        | some b =>
          w.setPlayer u (p.put b (setEquip { email.equip with witchPannle := 0, position := b }))
      else (w.setPlayer u (p.addAsset (Pi.single .diamond email.diamond))).updateDiamond u
    { world := w.delEmailSale u key, result := some 0 }

def pushNotify (w : World) (value : MarketGoods) (key : String) : Option World := do
  let uuid := w.findUserUuid value.player
  let key ← w.createEmailUuid uuid key
  let res : Equip :=
    { witchPannle := 2, whereUuid := key, equipSn := value.equipSn, diamondCost := 10,
      attr := { value.attr with extral1Value := value.attr.extral2Value } }
  some ((w.delMarket value.equipSn).setEmailSale uuid key
    { diamond := 0, otherName := "MySelf", equip := res })

end World

inductive GoodsEvent
  | openBox (u : UInt32) (sn : String) (attr : EquipAttr)
  | dressEquip (u : UInt32) (whichHero backpackPosition heroPosition : Int)
  | unloadEquip (u : UInt32) (whichHero position : Int)
  | saleGoods (u : UInt32) (position diamondCost : Int)
  | buyMarketGoods (u : UInt32) (goodsSn emailUuid : String)
  | getEmailGoods (u : UInt32) (emailUuid : String)
  /-- The listing at `i` has been on the market for too long. -/
  | pushNotify (i : ℕ) (emailUuid : String)

namespace World

def request (w : World) (u : UInt32) (handler : Option Outcome) : Option World :=
  if w.online u then handler.map Outcome.world else none

def goodsStep (w : World) : GoodsEvent → Option World
  | .openBox u sn attr => w.request u (w.openBox u sn attr)
  | .dressEquip u whichHero backpackPosition heroPosition =>
    w.request u (w.dressEquip u whichHero backpackPosition heroPosition)
  | .unloadEquip u whichHero position => w.request u (w.unloadEquip u whichHero position)
  | .saleGoods u position diamondCost => w.request u (w.saleGoods u position diamondCost)
  | .buyMarketGoods u goodsSn emailUuid => w.request u (w.buyMarketGoods u goodsSn emailUuid)
  | .getEmailGoods u emailUuid => w.request u (w.getEmailGoods u emailUuid)
  | .pushNotify i emailUuid => w.gloabalMarket[i]?.bind fun value => w.pushNotify value emailUuid

variable {w t : World} {u : UInt32}

@[simp] theorem setPlayer_player (p : Player) (v : UInt32) :
    (w.setPlayer u p).player v = if v = u then p else w.player v :=
  Function.update_apply _ _ _ _

@[simp] theorem setPlayer_emailSale (p : Player) : (w.setPlayer u p).emailSale = w.emailSale := rfl

@[simp] theorem setPlayer_gloabalMarket (p : Player) :
    (w.setPlayer u p).gloabalMarket = w.gloabalMarket := rfl

theorem setEmailSale_player (uuid : UInt32) (key : String) (email : EmailSale) (v : UInt32) :
    (w.setEmailSale uuid key email).player v = { w.player v with
      emailSaleList := if v = uuid ∧ w.online uuid then
        Function.update (w.player v).emailSaleList key (some email.written)
        else (w.player v).emailSaleList } := by
  unfold setEmailSale
  by_cases honline : w.online uuid = true
  · by_cases hv : v = uuid <;> simp [honline, hv]
  · simp [honline]

theorem setEmailSale_emailSale (uuid : UInt32) (key : String) (email : EmailSale) :
    (w.setEmailSale uuid key email).emailSale = Function.update w.emailSale uuid
      (Function.update (w.emailSale uuid) key (some email.written)) := by
  unfold setEmailSale
  split_ifs <;> rfl

theorem setEmailSale_fields (uuid : UInt32) (key : String) (email : EmailSale) :
    (w.setEmailSale uuid key email).gloabalMarket = w.gloabalMarket ∧
    (w.setEmailSale uuid key email).marketIndex = w.marketIndex ∧
    (w.setEmailSale uuid key email).created = w.created ∧
    (w.setEmailSale uuid key email).online = w.online := by
  unfold setEmailSale
  split_ifs <;> exact ⟨rfl, rfl, rfl, rfl⟩

theorem createEmailUuid_eq {uuid : UInt32} {key key' : String}
    (h : w.createEmailUuid uuid key = some key') : key' = key ∧ w.emailSale uuid key = none := by
  unfold createEmailUuid at h
  split_ifs at h with hused
  exact ⟨(Option.some.inj h).symm, by simpa using hused⟩

theorem delEmailSale_player (key : String) (v : UInt32) :
    (w.delEmailSale u key).player v = { w.player v with
      emailSaleList := if v = u then Function.update (w.player v).emailSaleList key none
        else (w.player v).emailSaleList } := by
  unfold delEmailSale
  by_cases hv : v = u <;> simp [hv]

theorem request_eq_some {handler : Option Outcome} (h : w.request u handler = some t) :
    w.online u = true ∧ ∃ o, handler = some o ∧ o.world = t := by
  unfold request at h
  split_ifs at h with honline
  exact ⟨honline, Option.map_eq_some_iff.mp h⟩

theorem setEmailSale_store (uuid : UInt32) (key : String) (email : EmailSale) :
    (w.setEmailSale uuid key email).store = w.store := by
  unfold setEmailSale
  split_ifs <;> rfl

theorem delMarket_frame (sn : String) : (w.delMarket sn).player = w.player ∧
    (w.delMarket sn).online = w.online ∧ (w.delMarket sn).store = w.store ∧
    (w.delMarket sn).emailSale = w.emailSale ∧ (w.delMarket sn).findUserUuid = w.findUserUuid ∧
    (w.delMarket sn).created = w.created := by
  unfold delMarket
  split
  · exact ⟨rfl, rfl, rfl, rfl, rfl, rfl⟩
  · split
    · split_ifs <;> exact ⟨rfl, rfl, rfl, rfl, rfl, rfl⟩
    · exact ⟨rfl, rfl, rfl, rfl, rfl, rfl⟩

end World

def Outcome.Refused (w : World) (o : Outcome) : Prop := ∃ result, result < 0 ∧ o = w.refuse result

namespace World
variable {w : World} {u : UInt32} {o : Outcome}

/-! What each request leads to: a refusal, or the one way it is carried out. -/

theorem refused {result : Int} (hneg : result < 0) (ho : some (w.refuse result) = some o) :
    o.Refused w :=
  ⟨result, hneg, (Option.some.inj ho).symm⟩

theorem openBox_cases {sn : String} {attr : EquipAttr} (ho : w.openBox u sn attr = some o) :
    o.Refused w ∨ ∃ b sn', (w.player u).getBackpack = some b ∧ w.createSn sn = some sn' ∧
      o = { world := { w.setPlayer u ((w.player u).put b
        { whereUuid := "NoEquipUUID", position := b, equipSn := sn', attr, diamondCost := 10 }) with
          created := sn' :: w.created } } := by
  unfold openBox at ho
  split at ho
  · exact .inl (refused (by decide) ho)
  · next b hb =>
    obtain ⟨sn', hsn, ho⟩ := Option.bind_eq_some_iff.mp ho
    exact .inr ⟨b, sn', hb, hsn, (Option.some.inj ho).symm⟩

theorem dressAt_writes {h : Hero} {b i : ℕ} (ho : w.dressAt u h b i = some o) :
    i < ((w.player u).heroEquip h.heroUuid).length ∧ ∃ p : Player,
      o = { world := w.setPlayer u p } ∧ p.myHero = (w.player u).myHero ∧
      p.backpackNum = (w.player u).backpackNum ∧
      p.heroEquip = ((w.player u).setSlot h.heroUuid i (setEquip { (w.player u).myBackpack b with
        whereUuid := h.heroUuid, witchPannle := 1, position := i })).heroEquip := by
  obtain ⟨e1, he1, ho⟩ := Option.bind_eq_some_iff.mp ho
  refine ⟨(List.getElem?_eq_some_iff.mp he1).1, ?_⟩
  dsimp only at ho
  split_ifs at ho
  · exact ⟨_, (Option.some.inj ho).symm, rfl, rfl, rfl⟩
  · exact ⟨_, (Option.some.inj ho).symm, rfl, rfl, rfl⟩

theorem dressEquip_cases {whichHero backpackPosition heroPosition : Int}
    (ho : w.dressEquip u whichHero backpackPosition heroPosition = some o) :
    o.Refused w ∨ ∃ h i, (w.player u).backpackStatus backpackPosition.toNat = true ∧
      (w.player u).myHero (whichHero - 1).toNat = some h ∧
      w.dressAt u h backpackPosition.toNat i = some o := by
  unfold dressEquip at ho
  dsimp only at ho
  split at ho
  · exact .inl (refused (by decide) ho)
  split at ho
  · exact absurd ho (by simp)
  split at ho
  · next h hb hh =>
    split at ho
    · exact .inl (refused (by decide) ho)
    split at ho
    · split at ho
      · exact .inl (refused (by decide) ho)
      · next i _ => exact .inr ⟨h, i, hb, hh, ho⟩
    split at ho
    · exact absurd ho (by simp)
    · exact .inr ⟨h, heroPosition.toNat, hb, hh, ho⟩
  · exact .inl (refused (by decide) ho)

theorem unloadEquip_cases {whichHero position : Int}
    (ho : w.unloadEquip u whichHero position = some o) :
    o.Refused w ∨ ∃ h e b, (w.player u).myHero (whichHero - 1).toNat = some h ∧
      ((w.player u).heroEquip h.heroUuid)[position.toNat]? = some e ∧ e.witchPannle = 1 ∧
      (w.player u).getBackpack = some b ∧
      o = { world := w.setPlayer u (((w.player u).put b
          (setEquip { e with witchPannle := 0, position := b })).setSlot h.heroUuid position.toNat
            { e with witchPannle := -1 })
            result := some 0 } := by
  unfold unloadEquip at ho
  dsimp only at ho
  split_ifs at ho
  · exact .inl (refused (by decide) ho)
  split at ho
  · exact .inl (refused (by decide) ho)
  · next h hh =>
    obtain ⟨e, he, ho⟩ := Option.bind_eq_some_iff.mp ho
    split_ifs at ho with hworn
    · exact .inl (refused (by decide) ho)
    · split at ho
      · exact .inl (refused (by decide) ho)
      · next b hb =>
        exact .inr ⟨h, e, b, hh, he, not_not.mp hworn, hb, (Option.some.inj ho).symm⟩

theorem saleGoods_cases {position diamondCost : Int}
    (ho : w.saleGoods u position diamondCost = some o) :
    o.Refused w ∨ (w.player u).backpackStatus position.toNat = true ∧
      o = { world := (w.setPlayer u ((w.player u).take position.toNat)).setMarket
              { player := (w.player u).name
                diamondCost := if diamondCost ≤ 0 then 1 else diamondCost
                equipSn := ((w.player u).myBackpack position.toNat).equipSn
                attr := ((w.player u).myBackpack position.toNat).attr }
            result := some 0 } := by
  unfold saleGoods at ho
  dsimp only at ho
  split at ho
  · split at ho
    · exact absurd ho (by simp)
    split at ho
    · next hb => exact .inr ⟨hb, (Option.some.inj ho).symm⟩
    · exact .inl (refused (by decide) ho)
  · exact .inl (refused (by decide) ho)

end World

end IceBridge.Gateway
