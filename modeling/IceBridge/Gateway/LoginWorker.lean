import IceBridge.Gateway.Assets
import IceBridge.Gateway.BuildNum
import IceBridge.Lib.Keyspace

/-! The session of a client as the dispatcher sees it, before and after the login: the services
of the player with all the answers they send, and what they keep besides the works and goods.
An index outside its array makes a request undefined. -/

namespace IceBridge.Gateway

structure Records where
  equip : Keyspace String Equip := .empty
  hero : Keyspace String Hero := .empty
  backpackNum : Int := 12
  recuriteType : Int := 0
  chanceNum : Int := 0

structure Registry where
  nickname : String → Option UInt32 := fun _ => none
  userName : UInt32 → Option String := fun _ => none
  userInfo : Keyspace UInt32 (String × String) := .empty
  boyName : List String := []
  girlName : List String := []

structure LoginWorker where
  world : World := {}
  playerUuid : UInt32 := 0
  loginStatus : Bool := false
  randHero : ℕ → Option Hero := fun _ => none
  recuiteType : Int := 0
  chanceNum : Int := 0
  isMan : Bool := false
  isGetRandomName : Bool := false
  lastRandName : String := ""
  records : UInt32 → Records := fun _ => {}
  registry : Registry := {}

/-- The next state and the results of the `SimpleResponse`s in their order. -/
structure ServiceReply where
  worker : LoginWorker
  results : List Int := []

def uuidPasswdError : Int := -1

def emailIsExsit : Int := -3

def checkString (s : String) : Bool := !s.isEmpty && s.toList.all (· ≠ ' ')

/-- No blank, no quote (39), no `=` and no `;`. -/
def checkStringSpace (s : String) : Bool :=
  s.toList.all fun c => c ≠ ' ' && c ≠ Char.ofNat 39 && c ≠ '=' && c ≠ ';'

namespace Records

def setEquip (r : Records) (e : Equip) : Records := { r with equip := r.equip.set e.equipSn e }

def setHero (r : Records) (h : Hero) : Records := { r with hero := r.hero.set h.heroUuid h }

def delHero (r : Records) (heroUuid : String) : Records :=
  { r with hero := r.hero.del heroUuid }

/-- `HSET` of the field alone: a record that is missing has no other field. -/
def setHeroSn (r : Records) (h : Hero) : Records :=
  let old := (r.hero.find h.heroUuid).getD { heroUuid := "NoUUID", curGoodsSpace := 1 }
  { r with hero := r.hero.set h.heroUuid { old with heroSn := h.heroSn } }

end Records

namespace LoginWorker

def player (s : LoginWorker) : Player := s.world.player s.playerUuid

def record (s : LoginWorker) : Records := s.records s.playerUuid

def setPlayer (s : LoginWorker) (p : Player) : LoginWorker :=
  { s with world := s.world.setPlayer s.playerUuid p }

def setRecord (s : LoginWorker) (r : Records) : LoginWorker :=
  { s with records := Function.update s.records s.playerUuid r }

def refuse (s : LoginWorker) (result : Int) : ServiceReply := { worker := s, results := [result] }

def accept (s : LoginWorker) : ServiceReply := { worker := s, results := [0] }

def onEstate (s : LoginWorker) (handler : Estate → Option Answer) : Option ServiceReply :=
  (s.world.onEstate s.playerUuid handler).map fun o =>
    { worker := { s with world := o.world }, results := o.result.toList }

def onGoods (s : LoginWorker) (handler : Option Outcome) (written : Player → List Equip) :
    Option ServiceReply :=
  handler.map fun o =>
    let t := { s with world := o.world }
    { worker := t.setRecord ((written t.player).foldl Records.setEquip t.record)
      results := o.result.toList }

def dressEquip (s : LoginWorker) (whichHero backpackPosition heroPosition : Int) :
    Option ServiceReply := do
  let o ← s.world.dressEquip s.playerUuid whichHero backpackPosition heroPosition
  match o.result, s.player.myHero (whichHero - 1).toNat with
  | none, some h =>
    let i :=
      if heroPosition = -1 then
        (s.player.heroEquip h.heroUuid).findIdx fun e => e.witchPannle ≠ 1
      else heroPosition.toNat
    let b := backpackPosition.toNat
    let reply ← s.onGoods (some o) fun p =>
      (if p.backpackStatus b then [p.myBackpack b] else []) ++
        ((p.heroEquip h.heroUuid)[i]?).toList
    some { reply with worker := reply.worker.setRecord (reply.worker.record.setHero h) }
  | _, _ => s.onGoods (some o) fun _ => []

def unloadEquip (s : LoginWorker) (whichHero position : Int) : Option ServiceReply := do
  let o ← s.world.unloadEquip s.playerUuid whichHero position
  match o.result, s.player.myHero (whichHero - 1).toNat, s.player.getBackpack with
  | some 0, some h, some b =>
    let reply ← s.onGoods (some o) fun p => [p.myBackpack b]
    some { reply with worker := reply.worker.setRecord (reply.worker.record.setHero h) }
  | _, _, _ => s.onGoods (some o) fun _ => []

def saleGoods (s : LoginWorker) (position diamondCost : Int) : Option ServiceReply := do
  let o ← s.world.saleGoods s.playerUuid position diamondCost
  let reply ← s.onGoods (some o) fun _ => []
  if o.result = some 0 then
    let r := s.record
    let sn := (s.player.myBackpack position.toNat).equipSn
    some { reply with worker := reply.worker.setRecord { r with equip := r.equip.del sn } }
  else some reply

def written (s : LoginWorker) (p : Player) : List Equip :=
  (s.player.getBackpack.map p.myBackpack).toList

def buyMarketGoods (s : LoginWorker) (goodsSn key : String) : Option ServiceReply := do
  let o ← s.world.buyMarketGoods s.playerUuid goodsSn key
  s.onGoods (some o) fun p => if o.result = some 0 then s.written p else []

def lookMarketGoods (s : LoginWorker) (pageNum : Int) : ServiceReply :=
  let allPage := s.world.gloabalMarket.length / 5 + 1
  if pageNum < 1 ∨ allPage < pageNum then s.refuse (-1) else { worker := s }

def openBox (s : LoginWorker) (sn : String) (attr : EquipAttr) : Option ServiceReply := do
  let o ← s.world.openBox s.playerUuid sn attr
  s.onGoods (some o) fun p => if o.result = none then s.written p else []

def getEmailGoods (s : LoginWorker) (key : String) : Option ServiceReply :=
  s.onGoods (some (s.world.getEmailGoods s.playerUuid key)) fun p =>
    match s.player.emailSaleList key with
    | some email => if email.diamond ≤ 0 then s.written p else []
    | none => []

/-! ## Heroes -/

/-- One round of `refresh_random_hero`. The uuid comes from `createRandom`, the space from the
quality that was drawn. -/
def refreshRandomHero (s : LoginWorker) (i : ℕ) (heroUuid : String) (curGoodsSpace : Int) :
    LoginWorker :=
  let r :=
    match s.randHero i with
    | none => s.record
    | some old => s.record.delHero old.heroUuid
  let res : Hero := { heroUuid, curGoodsSpace, heroSn := i + 1, whereIs := 1 }
  { s with randHero := Function.update s.randHero i (some res) }.setRecord (r.setHero res)

structure NewHeroes where
  heroUuid : Fin 3 → String
  curGoodsSpace : Fin 3 → Int

def Unused (s : LoginWorker) (new : NewHeroes) : Prop :=
  Function.Injective new.heroUuid ∧ ∀ i, (s.record.hero.find (new.heroUuid i)).isNone ∧
    (∀ j < 6, ∀ h ∈ s.player.myHero j, h.heroUuid ≠ new.heroUuid i) ∧
    ∀ j < 3, ∀ h ∈ s.randHero j, h.heroUuid ≠ new.heroUuid i

instance (s : LoginWorker) (new : NewHeroes) : Decidable (s.Unused new) :=
  inferInstanceAs (Decidable (_ ∧ ∀ _, _ ∧ _ ∧ _))

def recruit (cfg : Config) (s : LoginWorker) (randomType : Int) (new : NewHeroes) :
    Option ServiceReply := do
  let reply ← s.onEstate fun e => e.recruit cfg randomType
  if reply.results ≠ [] then some reply
  else if s.Unused new then
    let t := (List.finRange 3).foldl
      (fun t i => t.refreshRandomHero i (new.heroUuid i) (new.curGoodsSpace i)) reply.worker
    let t := { t with recuiteType := randomType, chanceNum := 3 }
    let r := { t.record with recuriteType := randomType, chanceNum := 3 }
    some { worker := t.setRecord r }
  else none

def setHero (s : LoginWorker) (i : ℕ) (h : Hero) : LoginWorker :=
  (s.setPlayer { s.player with
    myHero := Function.update s.player.myHero i (some h) }).setRecord (s.record.setHero h)

def emptySlots : List Equip := List.replicate 6 { witchPannle := -1 }

def getRandHero (s : LoginWorker) (heroSn : Int) : ServiceReply :=
  if 0 < heroSn ∧ heroSn < 4 then
    match (List.range 5).find? (fun i => (s.player.myHero i).isNone),
      s.randHero (heroSn - 1).toNat with
    | some position, some h =>
      let p := s.player
      let t := s.setPlayer { p with
        heroEquip := Function.update p.heroEquip h.heroUuid emptySlots }
      let t := { t with randHero := Function.update t.randHero (heroSn - 1).toNat none }
      (t.setHero position { h with whereIs := 0, heroSn := position + 1 }).accept
    | _, _ => s.refuse (-1)
  else s.refuse (-2)

/-- `move_hero` stops at the first position that is free. -/
def moveHero (myHero : ℕ → Option Hero) : List ℕ → Records → Records
  | [], r => r
  | i :: is, r =>
    match myHero i with
    | none => r
    | some h => moveHero myHero is (r.setHeroSn h)

/-- No `hero_sn` is at most 0 and above 6. -/
def dropHero (s : LoginWorker) (heroSn : Int) : Option ServiceReply :=
  if heroSn ≤ 0 ∧ 6 < heroSn then some (s.refuse (-1))
  else if heroSn < 1 ∨ 6 < heroSn then none
  else
    let p := s.player
    let i := (heroSn - 1).toNat
    match p.myHero i with
    | none => some (s.refuse (-2))
    | some h =>
      if (p.heroEquip h.heroUuid).length ≠ 0 then some (s.refuse (-2))
      else
        -- the heroes behind move up
        let myHero k :=
          if k < i ∨ 5 < k then p.myHero k
          else if k = 5 then none
          else (p.myHero (k + 1)).map fun h => { h with heroSn := (k : Int) + 1 }
        let r := s.record.delHero h.heroUuid
        let r := if heroSn < 6 then moveHero myHero ((List.range 6).drop i) r else r
        let p := { p with myHero, heroEquip := Function.update p.heroEquip h.heroUuid [] }
        -- there is no `return` after the success
        some { worker := (s.setPlayer p).setRecord r, results := [0, -2] }

def findHero (p : Player) (test : Hero → Bool) : Option (ℕ × Hero) :=
  (List.range 6).findSome? fun i => (p.myHero i).bind fun h => if test h then some (i, h) else none

/-- There is no answer when the hero is not found. -/
def appointHero (s : LoginWorker) (heroUuid : String) (jobTitle : Int) : ServiceReply :=
  let s :=
    match findHero s.player fun h => h.whereIs = jobTitle with
    | none => s
    | some (i, h) => s.setHero i { h with whereIs := 0 }
  match findHero s.player fun h => h.heroUuid = heroUuid with
  | none => { worker := s }
  | some (i, h) => (s.setHero i { h with whereIs := jobTitle }).accept

def cancelHero (s : LoginWorker) (heroUuid : String) : ServiceReply :=
  match findHero s.player fun h => h.heroUuid = heroUuid with
  | none => s.refuse (-1)
  | some (i, h) => (s.setHero i { h with whereIs := 0 }).accept

/-! ## Names and accounts -/

/-- `redis_sql` has 128 bytes; the uuid is printed with `%d` first and with `%u` then. -/
def nameFits (uuid : UInt32) (name : String) : Bool :=
  let signed := toString uuid.toInt32.toInt
  13 + name.utf8ByteSize + 1 + signed.length < 128 &&
    10 + (toString uuid.toNat).length + 10 + name.utf8ByteSize < 128

def setUserName (s : LoginWorker) (name : String) : Option (Bool × LoginWorker) :=
  if !checkString name then some (false, s)
  -- the commands are formats, without anything to print
  else if '%' ∈ name.toList then none
  else if (s.registry.nickname name).isSome then some (false, s)
  else if !nameFits s.playerUuid name then none
  else
    let registry := { s.registry with
      nickname := Function.update s.registry.nickname name (some s.playerUuid)
      userName := Function.update s.registry.userName s.playerUuid (some name) }
    let world := { s.world with
      findUserUuid := Function.update s.world.findUserUuid name s.playerUuid }
    some (true, { s with registry, world })

/-- The name is set before the login is looked at. -/
def setName (s : LoginWorker) (name : String) : Option ServiceReply := do
  let (set, t) ← s.setUserName name
  some (if set && t.loginStatus then t.accept else t.refuse uuidPasswdError)

/-- `name` is what `SPOP` takes from the set, and `result` what is in the field of the answer,
which is not set. The `SADD` of the name before has no member and does nothing. -/
def getRandName (s : LoginWorker) (sex : Int) (name : String) (result : Int) :
    Option ServiceReply :=
  let s := { s with isMan := decide (sex ≠ 1) }
  let pool := if s.isMan then s.registry.boyName else s.registry.girlName
  if pool = [] then some (s.refuse result)
  else if name ∈ pool then
    let registry :=
      if s.isMan then { s.registry with boyName := pool.erase name }
      else { s.registry with girlName := pool.erase name }
    some { worker := { s with registry, isGetRandomName := true, lastRandName := name } }
  else none

/-- `bind_user_email`: the update is for the row of the player, if there is one. -/
def bindUserEmail (s : LoginWorker) (email passwd : String) : Bool × LoginWorker :=
  let rows := s.registry.userInfo
  if !checkStringSpace email || !checkStringSpace passwd then (false, s)
  else if rows.keys.any fun u => (rows.find u).any fun row => row.1 = email then (false, s)
  else
    let userInfo :=
      if (rows.find s.playerUuid).isSome then rows.set s.playerUuid (email, passwd) else rows
    (true, { s with registry := { s.registry with userInfo } })

def bindEmail (s : LoginWorker) (email passwd : String) : ServiceReply :=
  let (bound, t) := s.bindUserEmail email passwd
  if bound && t.loginStatus then t.accept else t.refuse emailIsExsit

/-! ## The dispatcher -/

inductive Request
  | setName (name : String)
  | bindEmail (email passwd : String)
  | buildStatusList (sns : List String)
  | buildCreate (type : Int) (sn : String)
  | buildUpgrade (sn : String)
  | getMyAsset (sn : String)
  | getRandName (sex : Int) (name : String) (result : Int)
  | dressEquip (whichHero backpackPosition heroPosition : Int)
  | unloadEquip (whichHero position : Int)
  | saleGoods (position diamondCost : Int)
  | lookMarketGoods (pageNum : Int)
  | buyMarketGoods (goodsSn emailUuid : String)
  | openBox (sn : String) (attr : EquipAttr)
  | recruit (randomType : Int) (new : NewHeroes)
  | getRandHero (heroSn : Int)
  | dropHero (heroSn : Int)
  | getEmailGoods (emailUuid : String)
  | fastFinish (sn : String)
  | appointHero (heroUuid : String) (jobTitle : Int)
  | cancelHero (heroUuid : String)

/-- `service1[index]` is called whether the client has logged in or not. -/
def serve (cfg : Config) (s : LoginWorker) (now : Int) : Request → Option ServiceReply
  | .setName name => s.setName name
  | .bindEmail email passwd => some (s.bindEmail email passwd)
  | .buildStatusList sns => s.onEstate fun e => some (e.buildStatusList sns now)
  | .buildCreate type sn => s.onEstate fun e => e.buildCreate cfg type sn now
  | .buildUpgrade sn => s.onEstate fun e => e.buildUpgrade cfg sn now
  | .getMyAsset sn => s.onEstate fun e => e.getMyAsset cfg sn now
  | .getRandName sex name result => s.getRandName sex name result
  | .dressEquip whichHero backpackPosition heroPosition =>
    s.dressEquip whichHero backpackPosition heroPosition
  | .unloadEquip whichHero position => s.unloadEquip whichHero position
  | .saleGoods position diamondCost => s.saleGoods position diamondCost
  | .lookMarketGoods pageNum => some (s.lookMarketGoods pageNum)
  | .buyMarketGoods goodsSn emailUuid => s.buyMarketGoods goodsSn emailUuid
  | .openBox sn attr => s.openBox sn attr
  | .recruit randomType new => s.recruit cfg randomType new
  | .getRandHero heroSn => some (s.getRandHero heroSn)
  | .dropHero heroSn => s.dropHero heroSn
  | .getEmailGoods emailUuid => s.getEmailGoods emailUuid
  | .fastFinish sn => s.onEstate fun e => e.fastFinish cfg sn now
  | .appointHero heroUuid jobTitle => some (s.appointHero heroUuid jobTitle)
  | .cancelHero heroUuid => some (s.cancelHero heroUuid)

/-! ## Login -/

structure Loaded where
  myHero : ℕ → Option Hero
  randHero : ℕ → Option Hero
  heroEquip : String → List Equip
  backpackStatus : ℕ → Bool
  myBackpack : ℕ → Equip

/-- `get_all_hero` for one record: a hero at no post is the player's, one in the tavern is to
choose from, and any other is left out. -/
def getHero (m : Loaded) (res : Hero) : Option Loaded :=
  let res := if 6 < res.heroSn then { res with heroSn := 1 } else res
  if res.whereIs ≤ 0 then
    if res.heroSn < 1 then none
    else
      some { m with
        myHero := Function.update m.myHero (res.heroSn - 1).toNat (some res)
        heroEquip := Function.update m.heroEquip res.heroUuid emptySlots }
  else if res.whereIs = 1 ∧ 0 < res.heroSn ∧ res.heroSn < 4 then
    some { m with randHero := Function.update m.randHero (res.heroSn - 1).toNat (some res) }
  else some m

def getEquip (m : Loaded) (res : Equip) : Loaded :=
  if res.witchPannle = 0 ∧ 0 ≤ res.position ∧ res.position < 64 then
    { m with
      backpackStatus := Function.update m.backpackStatus res.position.toNat true
      myBackpack := Function.update m.myBackpack res.position.toNat res }
  else if res.witchPannle = 1 ∧ 0 ≤ res.position ∧ res.position < 6 then
    let slots := (m.heroEquip res.whereUuid).set res.position.toNat res
    { m with heroEquip := Function.update m.heroEquip res.whereUuid slots }
  else m

def getEquipList (r : Records) (heroKeys equipKeys : List String) (m : Loaded) :
    Option Loaded := do
  let m ← (r.hero.records heroKeys).foldlM getHero m
  some ((r.equip.records equipKeys).foldl getEquip m)

/-- `login_handle2` of the player `u`. What the memory has is overwritten, not cleared. -/
def loginHandle2 (cfg : Config) (s : LoginWorker) (u : UInt32) (now : Int)
    (heroKeys equipKeys : List String) : Option LoginWorker := do
  let r := s.records u
  let p := s.player
  let e ← (s.world.estate u).login cfg now
  let m ← getEquipList r heroKeys equipKeys
    { myHero := p.myHero, randHero := s.randHero, heroEquip := p.heroEquip,
      backpackStatus := p.backpackStatus, myBackpack := p.myBackpack }
  let p := { e.player with
    name := (s.registry.userName u).getD "Not Exsit Name"
    backpackNum := r.backpackNum
    backpackStatus := m.backpackStatus
    myBackpack := m.myBackpack
    myHero := m.myHero
    heroEquip := m.heroEquip
    emailSaleList := s.world.emailSale u }
  some { s with
    world := { s.world with
      player := Function.update s.world.player u p
      store := Function.update s.world.store u e.store
      online := Function.update s.world.online u true }
    playerUuid := u
    loginStatus := true
    randHero := m.randHero
    recuiteType := r.recuriteType
    chanceNum := r.chanceNum }

/-- `verify_user`, and the login if the account is that of the player `u`. A second login to an
account that is online is taken to be handed over at once. -/
def login (cfg : Config) (s : LoginWorker) (account passwd : String) (u : UInt32) (now : Int)
    (heroKeys equipKeys : List String) : Option LoginWorker :=
  let rows := s.registry.userInfo
  let owners := rows.keys.filter fun v => rows.find v = some (account, passwd)
  if s.loginStatus then some s
  else if !checkStringSpace account || !checkStringSpace passwd || owners.isEmpty then some s
  else if u ∈ owners then s.loginHandle2 cfg u now heroKeys equipKeys
  else none

/-- `exsit_user_name`, and the registration if the name is free. The account, the password and
the id `u` come from MySQL, the serial numbers of the buildings from `createRandom`. -/
def register (cfg : Config) (s : LoginWorker) (name account passwd : String) (u : UInt32)
    (sns : List String) (now : Int) (heroKeys equipKeys : List String) : Option LoginWorker :=
  if checkString name && (s.registry.nickname name).isSome then some s
  else if u ∈ s.registry.userInfo.keys ∨ sns.length ≠ newBuilds.length then none
  else do
    let registry := { s.registry with
      userInfo := s.registry.userInfo.set u (account, passwd) }
    -- `init_new_player` goes on when the name cannot be set
    let (_, t) ← { s with registry, playerUuid := u }.setUserName name
    let world := { t.world with
      store := Function.update t.world.store u (Store.initNewPlayer sns now) }
    let records := Function.update t.records u { t.records u with backpackNum := 12 }
    -- the memory is that of the session until the player is read
    { t with world, records, playerUuid := s.playerUuid }.loginHandle2 cfg u now heroKeys equipKeys

/-- A new connection: the maps and arrays are empty, the numbers are not set. -/
def onConnect (world : World) (records : UInt32 → Records) (registry : Registry)
    (asset : Balances) (backpackNum recuiteType chanceNum : Int) (isMan : Bool) : LoginWorker :=
  { world := world.setPlayer 0 { asset, backpackNum }
    recuiteType, chanceNum, isMan, records, registry }

/-- What other sessions and workers do. The memory of this one is its own but for the list of
the emails, which they find when it has logged in. -/
def others (s : LoginWorker) (world : World) : LoginWorker :=
  let emails :=
    if s.loginStatus then (world.player s.playerUuid).emailSaleList else s.player.emailSaleList
  { s with world := world.setPlayer s.playerUuid { s.player with emailSaleList := emails } }

end LoginWorker

inductive SessionEvent
  | request (r : LoginWorker.Request) (now : Int)
  | login (account passwd : String) (u : UInt32) (now : Int) (heroKeys equipKeys : List String)
  | register (name account passwd : String) (u : UInt32) (sns : List String) (now : Int)
      (heroKeys equipKeys : List String)
  | others (world : World) (records : UInt32 → Records) (registry : Registry)

def LoginWorker.step (cfg : Config) (s : LoginWorker) : SessionEvent → Option LoginWorker
  | .request r now => (s.serve cfg now r).map ServiceReply.worker
  | .login account passwd u now heroKeys equipKeys =>
    s.login cfg account passwd u now heroKeys equipKeys
  | .register name account passwd u sns now heroKeys equipKeys =>
    s.register cfg name account passwd u sns now heroKeys equipKeys
  | .others world records registry => some { s.others world with records, registry }

end IceBridge.Gateway
