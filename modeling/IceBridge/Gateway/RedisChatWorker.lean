import IceBridge.Gateway.LoginWorker
import IceBridge.Lib.Redis

/-! The commands that keep a player's equips, heroes, emails and attributes in redis, and those
that read them at the login, as the texts that are sent. -/

namespace IceBridge.Gateway

structure EmailSaleResponse where
  emailUuid : String := ""
  diamond : Int := 0
  time : Int := 0
  otherName : String := ""
  equip : Equip := {}
  deriving DecidableEq

structure MyAttribute where
  wood : Int := 0
  stone : Int := 0
  iron : Int := 0
  soil : Int := 0
  record : Int := 0
  level : Int := 0
  cityHallUuid : String := "no_uuid"
  worldmapX : Int := -1
  worldmapY : Int := -1
  race : Int := 0
  backpackNum : Int := 12
  recuiteType : Int := 0
  chanceNum : Int := 0
  combatUuid : String := "NoUUID"
  groupId : Int := -1
  groupPosition : Int := -1
  deriving DecidableEq

structure BaseValues (α : Type) where
  baseLeader : α
  baseStrategy : α
  baseEconomy : α
  baseStrength : α
  baseMagicPower : α
  baseHp : α
  baseMp : α
  baseAttack : α
  baseDefence : α
  deriving DecidableEq

/-- The record of a hero, with the numbers that have a fraction as `<<` prints them. -/
structure HeroResponse (α : Type) extends Hero where
  name : String := "NoName"
  quality : Int := 1
  level : Int := 1
  leader : Text := "5".toList
  strategy : Text := "5".toList
  economy : Text := "5".toList
  strength : Text := "0".toList
  magicPower : Text := "0".toList
  leaderGrow : Text := "0".toList
  strategyGrow : Text := "0".toList
  economyGrow : Text := "0".toList
  strengthGrow : Text := "0".toList
  magicPowerGrow : Text := "0".toList
  curHp : Int := 1
  maxHp : Int := 1
  curMp : Int := 1
  maxMp : Int := 1
  attack : Int := 1
  defence : Int := 0
  preSkill : Int := 0
  studySkill : Int := 0
  maxGoodsSpace : Int := 1
  exp : Int := 0
  type : Int := 0
  baseAtt : BaseValues α
  deriving DecidableEq

def BaseValues.map {α β : Type} (f : α → β) (base : BaseValues α) : BaseValues β where
  baseLeader := f base.baseLeader
  baseStrategy := f base.baseStrategy
  baseEconomy := f base.baseEconomy
  baseStrength := f base.baseStrength
  baseMagicPower := f base.baseMagicPower
  baseHp := f base.baseHp
  baseMp := f base.baseMp
  baseAttack := f base.baseAttack
  baseDefence := f base.baseDefence

def HeroResponse.prints (res : HeroResponse Text) : List Text :=
  [res.leader, res.strategy, res.economy, res.strength, res.magicPower, res.leaderGrow,
    res.strategyGrow, res.economyGrow, res.strengthGrow, res.magicPowerGrow,
    res.baseAtt.baseLeader, res.baseAtt.baseStrategy, res.baseAtt.baseEconomy,
    res.baseAtt.baseStrength, res.baseAtt.baseMagicPower, res.baseAtt.baseHp, res.baseAtt.baseMp,
    res.baseAtt.baseAttack, res.baseAtt.baseDefence]

/-- The hero as his record is read: of the base values only the whole numbers are. -/
def HeroResponse.kept (res : HeroResponse Text) : HeroResponse Int :=
  { res with baseAtt := res.baseAtt.map Text.atoi }

namespace RedisChatWorker
open Redis (Db Hash)

/-! ## Replies -/

def element (reply : List (Option Text)) (i : ℕ) : Option Text := reply[i]?.join

def number (reply : List (Option Text)) (i : ℕ) (default : Int) : Int :=
  (element reply i).elim default Text.atoi

def text (reply : List (Option Text)) (i : ℕ) (default : String) : String :=
  (element reply i).elim default String.ofList

def printed (reply : List (Option Text)) (i : ℕ) (default : String) : Text :=
  (element reply i).getD default.toList

/-! ## Equips -/

def uuidText (uuid : UInt32) : Text := Text.formatInt uuid.toNat

/-- `set_equip` changes the equip of its caller, too. -/
def stored (res : Equip) : Equip :=
  if res.whereUuid = "" ∨ res.whereUuid = "  " then { res with whereUuid := "NoUUID" } else res

def equipCells (res : Equip) : List (String × Text) :=
  [("witch_pannle", Text.formatInt res.witchPannle), ("position", Text.formatInt res.position),
    ("equip_sn", res.equipSn.toList), ("part", Text.formatInt res.attr.part),
    ("quality", Text.formatInt res.attr.quality), ("level", Text.formatInt res.attr.level),
    ("attr1_type", Text.formatInt res.attr.attr1Type),
    ("attr1_value", Text.formatInt res.attr.attr1Value),
    ("attr2_type", Text.formatInt res.attr.attr2Type),
    ("attr2_value", Text.formatInt res.attr.attr2Value),
    ("extral1_type", Text.formatInt res.attr.extral1Type),
    ("extral1_value", Text.formatInt res.attr.extral1Value),
    ("extral2_type", Text.formatInt res.attr.extral2Type),
    ("extral2_value", Text.formatInt res.attr.extral2Value),
    ("diamond_cost", Text.formatInt res.diamondCost), ("where_uuid", res.whereUuid.toList)]

def equipNames : List String :=
  ["witch_pannle", "position", "equip_sn", "part", "quality ", "level", "attr1_type",
    "attr1_value", "attr2_type", "attr2_value ", "extral1_type", "extral1_value", "extral2_type",
    "extral2_value", "diamond_cost ", "where_uuid "]

def equipOf (reply : List (Option Text)) : Option Equip :=
  (element reply 0).map fun _ =>
    { witchPannle := number reply 0 0
      position := number reply 1 0
      equipSn := text reply 2 "FaliedEquip"
      attr :=
        { part := number reply 3 0
          quality := number reply 4 0
          level := number reply 5 0
          attr1Type := number reply 6 0
          attr1Value := number reply 7 0
          attr2Type := number reply 8 0
          attr2Value := number reply 9 0
          extral1Type := number reply 10 0
          extral1Value := number reply 11 0
          extral2Type := number reply 12 0
          extral2Value := number reply 13 0 }
      diamondCost := number reply 14 0
      whereUuid := text reply 15 "NoEquipUUID" }

/-! ## Heroes -/

def heroCells (res : HeroResponse Text) : List (String × Text) :=
  [(" hero_sn", Text.formatInt res.heroSn), (" name", res.name.toList),
    (" hero_uuid", res.heroUuid.toList), (" quality", Text.formatInt res.quality),
    (" level", Text.formatInt res.level), (" leader", res.leader), (" strategy", res.strategy),
    (" economy", res.economy), (" strength", res.strength), (" magic_power", res.magicPower),
    (" leader_grow", res.leaderGrow), (" strategy_grow", res.strategyGrow),
    (" economy_grow", res.economyGrow), (" strength_grow", res.strengthGrow),
    (" magic_power_grow", res.magicPowerGrow), (" cur_hp", Text.formatInt res.curHp),
    (" max_hp", Text.formatInt res.maxHp), (" cur_mp", Text.formatInt res.curMp),
    (" max_mp", Text.formatInt res.maxMp), (" attack", Text.formatInt res.attack),
    (" defence", Text.formatInt res.defence), (" pre_skill", Text.formatInt res.preSkill),
    (" study_skill", Text.formatInt res.studySkill),
    (" cur_goods_space", Text.formatInt res.curGoodsSpace),
    (" max_goods_space", Text.formatInt res.maxGoodsSpace), (" exp", Text.formatInt res.exp),
    (" type ", Text.formatInt res.type), (" where", Text.formatInt res.whereIs),
    (" base_leader ", res.baseAtt.baseLeader), (" base_strategy", res.baseAtt.baseStrategy),
    (" base_economy ", res.baseAtt.baseEconomy), (" base_strength", res.baseAtt.baseStrength),
    (" base_magic_power ", res.baseAtt.baseMagicPower), (" base_hp", res.baseAtt.baseHp),
    (" base_mp ", res.baseAtt.baseMp), (" base_attack ", res.baseAtt.baseAttack),
    (" base_defence ", res.baseAtt.baseDefence)]

def heroNames : List String :=
  ["hero_sn", "name", "hero_uuid", "quality", "level ", "leader", "strategy", "economy",
    "strength ", "magic_power  ", "leader_grow", "strategy_grow", "economy_grow", "strength_grow",
    "magic_power_grow ", "cur_hp", "max_hp", "cur_mp", "max_mp", "attack ", "defence",
    "pre_skill", "study_skill", "cur_goods_space", "max_goods_space ", "exp  ", "type ", "where ",
    "base_leader", "base_strategy ", "base_economy  ", "base_strength", "base_magic_power  ",
    "base_hp", "base_mp", "base_attack  ", "base_defence "]

/-- A base value is read with `atoi`, which leaves its fraction out. -/
def heroOf (reply : List (Option Text)) : Option (HeroResponse Int) :=
  (element reply 0).map fun _ =>
    { heroSn := number reply 0 0
      name := text reply 1 "NoName"
      heroUuid := text reply 2 "NoUUID"
      quality := number reply 3 1
      level := number reply 4 1
      leader := printed reply 5 "5"
      strategy := printed reply 6 "5"
      economy := printed reply 7 "5"
      strength := printed reply 8 "0"
      magicPower := printed reply 9 "0"
      leaderGrow := printed reply 10 "0"
      strategyGrow := printed reply 11 "0"
      economyGrow := printed reply 12 "0"
      strengthGrow := printed reply 13 "0"
      magicPowerGrow := printed reply 14 "0"
      curHp := number reply 15 1
      maxHp := number reply 16 1
      curMp := number reply 17 1
      maxMp := number reply 18 1
      attack := number reply 19 1
      defence := number reply 20 0
      preSkill := number reply 21 0
      studySkill := number reply 22 0
      curGoodsSpace := number reply 23 1
      maxGoodsSpace := number reply 24 1
      exp := number reply 25 0
      type := number reply 26 0
      whereIs := number reply 27 0
      baseAtt :=
        { baseLeader := number reply 28 0
          baseStrategy := number reply 29 0
          baseEconomy := number reply 30 0
          baseStrength := number reply 31 0
          baseMagicPower := number reply 32 0
          baseHp := number reply 33 0
          baseMp := number reply 34 0
          baseAttack := number reply 35 0
          baseDefence := number reply 36 0 } }

/-! ## Emails -/

def emailCells (res : EmailSaleResponse) : List (String × Text) :=
  [("diamond", Text.formatInt res.diamond), ("email_uuid ", res.emailUuid.toList),
    ("time", Text.formatInt res.time), ("other_name", res.otherName.toList)]

def emailNames : List String := ["email_uuid", "diamond", "time", "other_name "]

def emailOf (reply : List (Option Text)) : EmailSaleResponse where
  emailUuid := text reply 0 "NoUUID"
  diamond := number reply 1 0
  time := number reply 2 0
  otherName := text reply 3 "NoName"

def named (res : EmailSaleResponse) : EmailSaleResponse :=
  if res.otherName = "" ∨ res.otherName = " " then { res with otherName := "NoName" } else res

/-! ## Attributes -/

def playerNames : List String :=
  ["abt#wood", "abt#stone", "abt#ore", "abt#concrete ", "abt#point ", "level ",
    "city_hall_uuid  ", "coord#x ", "coord#y ", "race ", "backpack_num", "recurite_type",
    "chance_num ", "combat_union_uid  ", "groupId  ", "group#position "]

def attributeOf (reply : List (Option Text)) : MyAttribute where
  wood := number reply 0 0
  stone := number reply 1 0
  iron := number reply 2 0
  soil := number reply 3 0
  record := number reply 4 0
  level := number reply 5 0
  cityHallUuid := text reply 6 "no_uuid"
  worldmapX := number reply 7 (-1)
  worldmapY := number reply 8 (-1)
  race := number reply 9 0
  backpackNum := number reply 10 12
  recuiteType := number reply 11 0
  chanceNum := number reply 12 0
  combatUuid := text reply 13 "NoUUID"
  groupId := number reply 14 (-1)
  groupPosition := number reply 15 (-1)

def userKey (uuid : UInt32) : Text := "user".toList ++ '#' :: uuidText uuid

/-! ## The keys of the records -/

theorem isPart_uuidText (uuid : UInt32) : Redis.IsPart (uuidText uuid) := by
  have hmem : ∀ c ∈ uuidText uuid, c = '-' ∨ c.isDigit := fun c hc => Text.mem_formatInt hc
  have hnot {c : Char} (hc : ¬ (c = '-' ∨ c.isDigit)) : c ∉ uuidText uuid := fun h => hc (hmem c h)
  refine ⟨⟨Text.formatInt_ne_nil _, hnot (by decide), fun c hc => ?_⟩, hnot (by decide),
    hnot (by decide), hnot (by decide)⟩
  constructor
  · rintro rfl
    exact hnot (by decide) hc
  · rintro rfl
    exact hnot (by decide) hc

theorem uuidText_injective : Function.Injective uuidText := fun u v h => by
  have hnat := Text.formatInt_injective h
  exact UInt32.toNat_inj.mp (by exact_mod_cast hnat)

def table {α : Type} (tag : String) (htag : Redis.IsPart tag.toList) (names : List String)
    (decode : List (Option Text) → Option α) : Redis.Table UInt32 α where
  tag := tag.toList
  owner := uuidText
  decode h := decode ((names.map Redis.field).map h)
  isPart_tag := htag
  isPart_owner := isPart_uuidText
  owner_injective := uuidText_injective

def equips : Redis.Table UInt32 Equip := table "equip" (by decide) equipNames equipOf

def heroes : Redis.Table UInt32 (HeroResponse Int) := table "hero" (by decide) heroNames heroOf

def emails : Redis.Table UInt32 EmailSaleResponse :=
  table "email_sale" (by decide) emailNames fun reply => some (emailOf reply)

/-! ## What is written -/

def setEquip (db : Db) (uuid : UInt32) (res : Equip) : Option Db :=
  Redis.write db (Redis.line ("HMSET".toList ++ ' ' :: equips.key uuid res.equipSn)
    (equipCells (stored res)))

def delEquip (db : Db) (uuid : UInt32) (equipSn : String) : Option Db :=
  Redis.write db ("DEL".toList ++ ' ' :: equips.key uuid equipSn)

def setHero (db : Db) (uuid : UInt32) (res : HeroResponse Text) : Option Db :=
  Redis.write db (Redis.line ("HMSET".toList ++ ' ' :: heroes.key uuid res.heroUuid)
    (heroCells res))

def delHero (db : Db) (uuid : UInt32) (heroUuid : String) : Option Db :=
  Redis.write db ("DEL".toList ++ ' ' :: heroes.key uuid heroUuid)

def setHeroSn (db : Db) (uuid : UInt32) (res : Hero) : Option Db :=
  Redis.write db (Redis.line ("HSET".toList ++ ' ' :: heroes.key uuid res.heroUuid)
    [("hero_sn", Text.formatInt res.heroSn)])

/-- `move_hero` over the positions from `start_index` on, until one is free. -/
def moveHero (uuid : UInt32) (myHero : ℕ → Option Hero) : List ℕ → Db → Option Db
  | [], db => some db
  | i :: is, db =>
    match myHero i with
    | none => some db
    | some h => (setHeroSn db uuid h).bind (moveHero uuid myHero is)

def setEmailSale (db : Db) (uuid : UInt32) (res : EmailSaleResponse) : Option Db := do
  let db ← Redis.write db (Redis.line ("HMSET".toList ++ ' ' :: emails.key uuid res.emailUuid)
    (emailCells (named res)))
  if res.diamond ≤ 0 then setEquip db uuid res.equip else some db

/-- The equip of the email stays. -/
def delEmailSale (db : Db) (uuid : UInt32) (emailUuid : String) : Option Db :=
  Redis.write db ("DEL".toList ++ ' ' :: emails.key uuid emailUuid)

def setMaterial (db : Db) (uuid : UInt32) (wood stone iron soil : Int) : Option Db :=
  Redis.write db (Redis.line ("HMSET".toList ++ ' ' :: userKey uuid)
    [("abt#wood", Text.formatInt wood), ("abt#stone", Text.formatInt stone),
      ("abt#ore", Text.formatInt iron), ("abt#concrete", Text.formatInt soil)])

def setPlayerBase (db : Db) (uuid : UInt32) (race record level : Int) : Option Db :=
  Redis.write db (Redis.line ("HMSET".toList ++ ' ' :: userKey uuid)
    [(" abt#point", Text.formatInt record), (" level", Text.formatInt level),
      ("race", Text.formatInt race)])

def setCityHall (db : Db) (uuid : UInt32) (cityHallUuid : String) : Option Db :=
  Redis.write db (Redis.line ("HSET".toList ++ ' ' :: userKey uuid)
    [(" city_hall_uuid", cityHallUuid.toList)])

def setCombatUuid (db : Db) (uuid : UInt32) (combatUnionUid : String) : Option Db :=
  Redis.write db (Redis.line ("HSET".toList ++ ' ' :: userKey uuid)
    [(" combat_union_uid", combatUnionUid.toList)])

def setBackpackNum (db : Db) (uuid : UInt32) (num : Int) : Option Db :=
  Redis.write db (Redis.line ("HSET".toList ++ ' ' :: userKey uuid)
    [("backpack_num", Text.formatInt num)])

def setRecurite (db : Db) (uuid : UInt32) (recurite chanceNum : Int) : Option Db :=
  Redis.write db (Redis.line ("HMSET".toList ++ ' ' :: userKey uuid)
    [(" recurite_type", Text.formatInt recurite), (" chance_num", Text.formatInt chanceNum)])

inductive Write
  | setEquip (res : Equip)
  | delEquip (equipSn : String)
  | setHero (res : HeroResponse Text)
  | delHero (heroUuid : String)
  | moveHero (myHero : ℕ → Option Hero) (startIndex : ℕ)
  | setEmailSale (res : EmailSaleResponse)
  | delEmailSale (emailUuid : String)
  | setMaterial (wood stone iron soil : Int)
  | setPlayerBase (race record level : Int)
  | setCityHall (cityHallUuid : String)
  | setCombatUuid (combatUnionUid : String)
  | setBackpackNum (num : Int)
  | setRecurite (recurite chanceNum : Int)

def write (db : Db) (uuid : UInt32) : Write → Option Db
  | .setEquip res => setEquip db uuid res
  | .delEquip equipSn => delEquip db uuid equipSn
  | .setHero res => setHero db uuid res
  | .delHero heroUuid => delHero db uuid heroUuid
  | .moveHero myHero startIndex => moveHero uuid myHero ((List.range 6).drop startIndex) db
  | .setEmailSale res => setEmailSale db uuid res
  | .delEmailSale emailUuid => delEmailSale db uuid emailUuid
  | .setMaterial wood stone iron soil => setMaterial db uuid wood stone iron soil
  | .setPlayerBase race record level => setPlayerBase db uuid race record level
  | .setCityHall cityHallUuid => setCityHall db uuid cityHallUuid
  | .setCombatUuid combatUnionUid => setCombatUuid db uuid combatUnionUid
  | .setBackpackNum num => setBackpackNum db uuid num
  | .setRecurite recurite chanceNum => setRecurite db uuid recurite chanceNum

/-! ## What is read -/

def getPlayer (db : Db) (uuid : UInt32) : Option MyAttribute :=
  (Redis.hmget db (Redis.nameLine ("HMGET".toList ++ ' ' :: userKey uuid) playerNames)).map
    attributeOf

abbrev EmailList := String → Option EmailSaleResponse

def EmailList.change (list : EmailList) (emailUuid : String)
    (f : EmailSaleResponse → EmailSaleResponse) : EmailList :=
  Function.update list emailUuid (some (f ((list emailUuid).getD {})))

/-- What the login fills: the memory, the lists of the heroes and of the equips, which it sends to
the player, and the emails. -/
structure LoginData where
  loaded : LoginWorker.Loaded
  heroList : List (HeroResponse Int)
  equipList : List Equip
  emailSaleList : EmailList

def limited (res : HeroResponse Int) : HeroResponse Int :=
  if 6 < res.heroSn then { res with heroSn := 1 } else res

def getHero (t : LoginData) (res : HeroResponse Int) : Option LoginData :=
  (LoginWorker.getHero t.loaded res.toHero).map fun loaded =>
    { t with loaded, heroList := t.heroList ++ [limited res] }

/-- `get_equip_list` for one record: the equip of an email goes to the email, and any other to
its place in the memory. -/
def getEquip (t : LoginData) (res : Equip) : LoginData :=
  if res.witchPannle = 2 then
    { t with emailSaleList :=
        t.emailSaleList.change res.whereUuid fun email => { email with equip := res } }
  else { t with loaded := LoginWorker.getEquip t.loaded res, equipList := t.equipList ++ [res] }

def getEmail (list : EmailList) (res : EmailSaleResponse) : EmailList :=
  list.change res.emailUuid fun email =>
    { email with emailUuid := res.emailUuid, diamond := res.diamond, time := res.time
                 otherName := res.otherName }

def readHero (db : Db) (t : LoginData) (key : Text) : Option LoginData := do
  let reply ← Redis.hmget db (Redis.nameLine ("HMGET".toList ++ ' ' :: key) heroNames)
  (heroOf reply).elim (some t) (getHero t)

def readEquip (db : Db) (t : LoginData) (key : Text) : Option LoginData := do
  let reply ← Redis.hmget db (Redis.nameLine ("HMGET".toList ++ ' ' :: key) equipNames)
  some ((equipOf reply).elim t (getEquip t))

def readEmail (db : Db) (list : EmailList) (key : Text) : Option EmailList := do
  let reply ← Redis.hmget db (Redis.nameLine ("HMGET".toList ++ ' ' :: key) emailNames)
  some (getEmail list (emailOf reply))

/-- The orders are those of the replies to `keys`, here and below. -/
def getAllHero (db : Db) (uuid : UInt32) (order : List Text) (t : LoginData) : Option LoginData :=
  (Redis.keys db ("keys".toList ++ ' ' :: heroes.pattern uuid) order).bind fun ks =>
    ks.foldlM (readHero db) t

def getEquips (db : Db) (uuid : UInt32) (order : List Text) (t : LoginData) : Option LoginData :=
  (Redis.keys db ("keys".toList ++ ' ' :: equips.pattern uuid ++ [' ']) order).bind fun ks =>
    ks.foldlM (readEquip db) { t with equipList := [] }

def getEmails (db : Db) (uuid : UInt32) (order : List Text) (list : EmailList) :
    Option EmailList :=
  (Redis.keys db ("keys".toList ++ ' ' :: emails.pattern uuid) order).bind fun ks =>
    ks.foldlM (readEmail db) list

structure Orders (κ : Type) where
  hero : List κ
  equip : List κ
  email : List κ

def getEquipList (db : Db) (uuid : UInt32) (order : Orders Text) (t : LoginData) :
    Option LoginData := do
  let t ← getAllHero db uuid order.hero t
  let t ← getEquips db uuid order.equip t
  let list ← getEmails db uuid order.email t.emailSaleList
  some { t with emailSaleList := list }

end RedisChatWorker
end IceBridge.Gateway
