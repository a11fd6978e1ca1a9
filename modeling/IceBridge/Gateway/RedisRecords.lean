import IceBridge.Gateway.RedisChatWorker
import IceBridge.Lib.Run

/-! What is written to redis as text is what the next login reads: the texts keep the records
that the services of a player are about. -/

namespace IceBridge.Gateway.RedisChatWorker
open Redis (Db Hash IsClean IsWord IsLabel)

/-! ## Texts of the values -/

theorem isWord_formatInt (n : Int) : IsWord (Text.formatInt n) := by
  have hnot {c : Char} (hc : ¬ (c = '-' ∨ c.isDigit)) : c ∉ Text.formatInt n :=
    fun h => hc (Text.mem_formatInt h)
  refine ⟨Text.formatInt_ne_nil n, hnot (by decide), fun c hc => ?_⟩
  constructor
  · rintro rfl
    exact hnot (by decide) hc
  · rintro rfl
    exact hnot (by decide) hc

theorem cells_ok {cells : List (String × Text)} (hlabels : ∀ l ∈ cells.map Prod.fst, IsLabel l)
    (hvalues : ∀ v ∈ cells.map Prod.snd, IsWord v) : ∀ c ∈ cells, IsLabel c.1 ∧ IsWord c.2 :=
  fun _ hc => ⟨hlabels _ (List.mem_map_of_mem hc), hvalues _ (List.mem_map_of_mem hc)⟩

abbrev fields (cells : List (String × Text)) : List (Text × Text) :=
  cells.map fun c => (Redis.field c.1, c.2)

theorem map_merge {cells : List (String × Text)} {names : List String}
    (hnames : names.map Redis.field = (cells.map Prod.fst).map Redis.field)
    (hnodup : (names.map Redis.field).Nodup) (h : Hash) :
    (names.map Redis.field).map (Redis.merge h (fields cells)) = cells.map fun c => some c.2 := by
  have hfst : (cells.map Prod.fst).map Redis.field = (fields cells).map Prod.fst := by
    rw [fields, List.map_map, List.map_map]
    rfl
  rw [hnames, hfst] at hnodup
  rw [hnames, List.map_map, List.map_map]
  apply List.map_congr_left
  intro c hc
  have hmem : (Redis.field c.1, c.2) ∈ fields cells := List.mem_map.mpr ⟨c, hc, rfl⟩
  exact Redis.merge_of_mem h hnodup hmem

/-! The labels do not depend on the values. -/

def equipLabels : List String := (equipCells {}).map Prod.fst

theorem map_fst_equipCells (res : Equip) : (equipCells res).map Prod.fst = equipLabels := rfl

theorem equipCells_ok {res : Equip} (hsn : IsWord res.equipSn.toList)
    (hwhere : IsWord res.whereUuid.toList) :
    ∀ c ∈ equipCells res, IsLabel c.1 ∧ IsWord c.2 := by
  have hlabels : ∀ l ∈ equipLabels, IsLabel l := by decide
  have hvalues : ∀ v ∈ (equipCells res).map Prod.snd, IsWord v := by
    simp [equipCells, isWord_formatInt, hsn, hwhere]
  rw [← map_fst_equipCells res] at hlabels
  exact cells_ok hlabels hvalues

theorem decode_equip (h : Hash) (res : Equip) :
    equips.decode (Redis.merge h (fields (equipCells res))) = some res := by
  have hlabels : equipNames.map Redis.field = equipLabels.map Redis.field := by decide
  rw [← map_fst_equipCells res] at hlabels
  show equipOf ((equipNames.map Redis.field).map (Redis.merge h (fields (equipCells res)))) = _
  rw [map_merge hlabels (by decide)]
  simp [equipOf, equipCells, number, text, element, Text.atoi_formatInt]

def heroLabels : List String :=
  let base : BaseValues Text := ⟨[], [], [], [], [], [], [], [], []⟩
  (heroCells { heroUuid := "", curGoodsSpace := 0, baseAtt := base }).map Prod.fst

theorem map_fst_heroCells (res : HeroResponse Text) :
    (heroCells res).map Prod.fst = heroLabels := rfl

theorem heroCells_ok {res : HeroResponse Text} (huuid : IsWord res.heroUuid.toList)
    (hname : IsWord res.name.toList) (hprints : ∀ print ∈ res.prints, IsWord print) :
    ∀ c ∈ heroCells res, IsLabel c.1 ∧ IsWord c.2 := by
  have hlabels : ∀ l ∈ heroLabels, IsLabel l := by decide
  have hvalues : ∀ v ∈ (heroCells res).map Prod.snd, IsWord v := by
    simp only [HeroResponse.prints, List.forall_mem_cons] at hprints
    simp [heroCells, isWord_formatInt, huuid, hname, hprints]
  rw [← map_fst_heroCells res] at hlabels
  exact cells_ok hlabels hvalues

theorem decode_hero (h : Hash) (res : HeroResponse Text) :
    heroes.decode (Redis.merge h (fields (heroCells res))) = some res.kept := by
  have hlabels : heroNames.map Redis.field = heroLabels.map Redis.field := by decide
  rw [← map_fst_heroCells res] at hlabels
  show heroOf ((heroNames.map Redis.field).map (Redis.merge h (fields (heroCells res)))) = _
  rw [map_merge hlabels (by decide)]
  simp [heroOf, heroCells, HeroResponse.kept, BaseValues.map, number, text, printed, element,
    Text.atoi_formatInt]

theorem emailCells_ok {res : EmailSaleResponse} (huuid : IsWord res.emailUuid.toList)
    (hname : IsWord res.otherName.toList) : ∀ c ∈ emailCells res, IsLabel c.1 ∧ IsWord c.2 := by
  have hlabels : ∀ l ∈ (emailCells {}).map Prod.fst, IsLabel l := by decide
  have hvalues : ∀ v ∈ (emailCells res).map Prod.snd, IsWord v := by
    simp [emailCells, isWord_formatInt, huuid, hname]
  exact cells_ok (show ∀ l ∈ (emailCells res).map Prod.fst, IsLabel l from hlabels) hvalues

theorem decode_email (h : Hash) (res : EmailSaleResponse) :
    emails.decode (Redis.merge h (fields (emailCells res))) = some { res with equip := {} } := by
  show some (emailOf ((emailNames.map Redis.field).map
    (Redis.merge h (fields (emailCells res))))) = _
  simp [emailOf, emailNames, emailCells, Redis.field, Redis.merge, number, text, element,
    Text.atoi_formatInt]

def missingHero : HeroResponse Int where
  heroUuid := "NoUUID"
  curGoodsSpace := 1
  baseAtt := ⟨0, 0, 0, 0, 0, 0, 0, 0, 0⟩

theorem decode_heroSn (h : Option Hash) {old : Option (HeroResponse Int)}
    (hold : h.map heroes.decode = old.map some) (res : Hero) :
    heroes.decode (Redis.merge (h.getD fun _ => none)
      (fields [("hero_sn", Text.formatInt res.heroSn)])) =
      some { old.getD missingHero with heroSn := res.heroSn } := by
  cases h with
  | none =>
    obtain rfl : old = none := by simpa using hold.symm
    show heroOf ((heroNames.map Redis.field).map (Redis.merge (fun _ => none) _)) = _
    simp [heroOf, heroNames, missingHero, Redis.field, Redis.merge, number, text, printed, element,
      Text.atoi_formatInt]
  | some h =>
    cases old with
    | none => simp at hold
    | some old =>
      have hdecode : heroOf ((heroNames.map Redis.field).map h) = some old := by
        simpa [heroes, table] using hold
      obtain ⟨sn, -, rfl⟩ := Option.map_eq_some_iff.mp hdecode
      show heroOf ((heroNames.map Redis.field).map (Redis.merge h _)) = _
      simp [heroOf, heroNames, Redis.field, Redis.merge, number, text, printed, element,
        Text.atoi_formatInt]

/-! ## The accounts -/

structure Account where
  myAttribute : MyAttribute := {}
  equip : Keyspace String Equip := .empty
  hero : Keyspace String (HeroResponse Int) := .empty
  email : Keyspace String EmailSaleResponse := .empty

namespace Account

def records (a : Account) : Records where
  equip := a.equip
  hero := a.hero.map HeroResponse.toHero
  backpackNum := a.myAttribute.backpackNum
  recuriteType := a.myAttribute.recuiteType
  chanceNum := a.myAttribute.chanceNum

def setEquip (a : Account) (res : Equip) : Account :=
  { a with equip := (a.records.setEquip (stored res)).equip }

def setHeroSn (hero : Keyspace String (HeroResponse Int)) (h : Hero) :
    Keyspace String (HeroResponse Int) :=
  let old := (hero.find h.heroUuid).getD missingHero
  hero.set h.heroUuid { old with heroSn := h.heroSn }

def moveHero (myHero : ℕ → Option Hero) :
    List ℕ → Keyspace String (HeroResponse Int) → Keyspace String (HeroResponse Int)
  | [], hero => hero
  | i :: is, hero =>
    match myHero i with
    | none => hero
    | some h => moveHero myHero is (setHeroSn hero h)

def store (a : Account) : Write → Account
  | .setEquip res => a.setEquip res
  | .delEquip equipSn => { a with equip := a.equip.del equipSn }
  | .setHero res => { a with hero := a.hero.set res.heroUuid res.kept }
  | .delHero heroUuid => { a with hero := a.hero.del heroUuid }
  | .moveHero myHero startIndex =>
    { a with hero := moveHero myHero ((List.range 6).drop startIndex) a.hero }
  | .setEmailSale res =>
    let a := { a with email := a.email.set res.emailUuid { named res with equip := {} } }
    if res.diamond ≤ 0 then a.setEquip res.equip else a
  | .delEmailSale emailUuid => { a with email := a.email.del emailUuid }
  | .setMaterial wood stone iron soil =>
    { a with myAttribute := { a.myAttribute with wood, stone, iron, soil } }
  | .setPlayerBase race record level =>
    { a with myAttribute := { a.myAttribute with race, record, level } }
  | .setCityHall cityHallUuid => { a with myAttribute := { a.myAttribute with cityHallUuid } }
  | .setCombatUuid combatUuid => { a with myAttribute := { a.myAttribute with combatUuid } }
  | .setBackpackNum backpackNum => { a with myAttribute := { a.myAttribute with backpackNum } }
  | .setRecurite recuiteType chanceNum =>
    { a with myAttribute := { a.myAttribute with recuiteType, chanceNum } }

end Account

/-- What a write changes of the records the services are about. -/
def Write.onRecords (r : Records) : Write → Records
  | .setEquip res => r.setEquip (stored res)
  | .delEquip equipSn => { r with equip := r.equip.del equipSn }
  | .setHero res => r.setHero res.toHero
  | .delHero heroUuid => r.delHero heroUuid
  | .moveHero myHero startIndex => LoginWorker.moveHero myHero ((List.range 6).drop startIndex) r
  | .setEmailSale res => if res.diamond ≤ 0 then r.setEquip (stored res.equip) else r
  | .setBackpackNum backpackNum => { r with backpackNum }
  | .setRecurite recuriteType chanceNum => { r with recuriteType, chanceNum }
  | _ => r

namespace Account

theorem records_setHeroSn (a : Account) (h : Hero) :
    { a with hero := setHeroSn a.hero h }.records = a.records.setHeroSn h := by
  have hold : ((a.hero.find h.heroUuid).getD missingHero).toHero =
      ((a.records.hero.find h.heroUuid).getD { heroUuid := "NoUUID", curGoodsSpace := 1 }) := by
    show _ = (((a.hero.find h.heroUuid).map HeroResponse.toHero).getD _)
    cases a.hero.find h.heroUuid <;> rfl
  unfold Records.setHeroSn
  rw [← hold]
  exact congrArg (fun hero => { a.records with hero }) (Keyspace.map_set _ _ _ _)

theorem records_moveHero (myHero : ℕ → Option Hero) (is : List ℕ) (a : Account) :
    { a with hero := moveHero myHero is a.hero }.records =
      LoginWorker.moveHero myHero is a.records := by
  induction is generalizing a with
  | nil => rfl
  | cons i is ih =>
    unfold moveHero LoginWorker.moveHero
    cases myHero i with
    | none => rfl
    | some h =>
      have hmoved := ih { a with hero := setHeroSn a.hero h }
      rw [records_setHeroSn] at hmoved
      exact hmoved

theorem records_store (a : Account) (w : Write) : (a.store w).records = w.onRecords a.records := by
  cases w with
  | setHero res =>
    exact congrArg (fun hero => { a.records with hero }) (Keyspace.map_set _ _ _ _)
  | delHero heroUuid =>
    exact congrArg (fun hero => { a.records with hero }) (Keyspace.map_del _ _ _)
  | moveHero myHero startIndex => exact records_moveHero myHero _ a
  | setEmailSale res =>
    unfold store Write.onRecords
    dsimp only
    split_ifs <;> rfl
  | _ => rfl

end Account

def attributesOf (h : Hash) : MyAttribute := attributeOf ((playerNames.map Redis.field).map h)

structure Represents (db : Db) (acc : UInt32 → Account) : Prop where
  equip : equips.Holds db (Account.equip ∘ acc)
  hero : heroes.Holds db (Account.hero ∘ acc)
  email : emails.Holds db (Account.email ∘ acc)
  myAttribute : ∀ u, attributesOf ((db.find (userKey u)).getD fun _ => none) = (acc u).myAttribute

variable {db : Db} {acc : UInt32 → Account}

theorem represents_empty : Represents .empty fun _ => {} where
  equip := ⟨fun _ _ => rfl, fun _ _ h => absurd h List.not_mem_nil⟩
  hero := ⟨fun _ _ => rfl, fun _ _ h => absurd h List.not_mem_nil⟩
  email := ⟨fun _ _ => rfl, fun _ _ h => absurd h List.not_mem_nil⟩
  myAttribute _ := rfl

theorem comp_update_of_eq {β : Type*} (f : Account → β) {u : UInt32} {a : Account}
    (h : f a = f (acc u)) : f ∘ Function.update acc u a = f ∘ acc := by
  rw [Function.comp_update, h]
  exact Function.update_eq_self u (f ∘ acc)

theorem head_userKey (u : UInt32) : Redis.head (userKey u) = "user".toList :=
  Redis.head_append _ (by decide)

theorem isWord_userKey (u : UInt32) : IsWord (userKey u) := by
  have hclean := (isPart_uuidText u).1
  refine ⟨by simp [userKey], by simp [userKey, hclean.2.1], ?_⟩
  exact Redis.Plain.append (by decide) (.cons (by decide) hclean.2.2)

theorem userKey_injective : Function.Injective userKey := fun u v h =>
  uuidText_injective ((Redis.append_sharp_inj (by decide) (by decide)).mp h).2

namespace Represents

theorem change (h : Represents db acc) {db' : Db} {k : Text} {u : UInt32} {a : Account}
    (hsame : ∀ k', k' ≠ k → db'.find k' = db.find k')
    (hequip : Redis.head k ≠ equips.tag ∧ a.equip = (acc u).equip ∨
      equips.Holds db' (Function.update (Account.equip ∘ acc) u a.equip))
    (hhero : Redis.head k ≠ heroes.tag ∧ a.hero = (acc u).hero ∨
      heroes.Holds db' (Function.update (Account.hero ∘ acc) u a.hero))
    (hemail : Redis.head k ≠ emails.tag ∧ a.email = (acc u).email ∨
      emails.Holds db' (Function.update (Account.email ∘ acc) u a.email))
    (hatt : k ≠ userKey u ∧ a.myAttribute = (acc u).myAttribute ∨
      k = userKey u ∧ attributesOf ((db'.find k).getD fun _ => none) = a.myAttribute)
    (hkey : ∀ v, v ≠ u → k ≠ userKey v) : Represents db' (Function.update acc u a) := by
  constructor
  · rcases hequip with ⟨hk, ha⟩ | hequip
    · rw [comp_update_of_eq Account.equip ha]
      exact h.equip.of_same hk hsame
    · rw [Function.comp_update]
      exact hequip
  · rcases hhero with ⟨hk, ha⟩ | hhero
    · rw [comp_update_of_eq Account.hero ha]
      exact h.hero.of_same hk hsame
    · rw [Function.comp_update]
      exact hhero
  · rcases hemail with ⟨hk, ha⟩ | hemail
    · rw [comp_update_of_eq Account.email ha]
      exact h.email.of_same hk hsame
    · rw [Function.comp_update]
      exact hemail
  · intro v
    rw [Function.update_apply]
    split_ifs with hv
    · subst hv
      rcases hatt with ⟨hk, ha⟩ | ⟨rfl, ha⟩
      · rw [hsame _ (Ne.symm hk), h.myAttribute v, ha]
      · exact ha
    · rw [hsame _ (Ne.symm (hkey v hv)), h.myAttribute v]

theorem ne_userKey {k : Text} (hk : Redis.head k ≠ "user".toList) (v : UInt32) : k ≠ userKey v :=
  fun heq => hk (heq ▸ head_userKey v)

theorem change_equip (h : Represents db acc) {db' : Db} {k : Text} {u : UInt32}
    {equip : Keyspace String Equip} (hk : Redis.head k = equips.tag)
    (hsame : ∀ k', k' ≠ k → db'.find k' = db.find k')
    (hequip : equips.Holds db' (Function.update (Account.equip ∘ acc) u equip)) :
    Represents db' (Function.update acc u { acc u with equip }) := by
  have huser : ∀ v, k ≠ userKey v := ne_userKey (by rw [hk]; decide)
  exact h.change hsame (.inr hequip) (.inl ⟨by rw [hk]; decide, rfl⟩)
    (.inl ⟨by rw [hk]; decide, rfl⟩) (.inl ⟨huser u, rfl⟩) fun v _ => huser v

theorem set_equip (h : Represents db acc) (u : UInt32) {id : String} (hid : IsClean id.toList)
    {hash : Hash} {res : Equip} (hres : equips.decode hash = some res) :
    Represents (db.set (equips.key u id) hash)
      (Function.update acc u { acc u with equip := (acc u).equip.set id res }) :=
  h.change_equip (equips.head_key u id) (fun _ hk => Function.update_of_ne hk _ _)
    (h.equip.set u hid hres)

theorem del_equip (h : Represents db acc) (u : UInt32) (id : String) :
    Represents (db.del (equips.key u id))
      (Function.update acc u { acc u with equip := (acc u).equip.del id }) :=
  h.change_equip (equips.head_key u id) (fun _ hk => Function.update_of_ne hk _ _)
    (h.equip.del u id)

theorem change_hero (h : Represents db acc) {db' : Db} {k : Text} {u : UInt32}
    {hero : Keyspace String (HeroResponse Int)} (hk : Redis.head k = heroes.tag)
    (hsame : ∀ k', k' ≠ k → db'.find k' = db.find k')
    (hhero : heroes.Holds db' (Function.update (Account.hero ∘ acc) u hero)) :
    Represents db' (Function.update acc u { acc u with hero }) := by
  have huser : ∀ v, k ≠ userKey v := ne_userKey (by rw [hk]; decide)
  exact h.change hsame (.inl ⟨by rw [hk]; decide, rfl⟩) (.inr hhero)
    (.inl ⟨by rw [hk]; decide, rfl⟩) (.inl ⟨huser u, rfl⟩) fun v _ => huser v

theorem set_hero (h : Represents db acc) (u : UInt32) {id : String} (hid : IsClean id.toList)
    {hash : Hash} {res : HeroResponse Int} (hres : heroes.decode hash = some res) :
    Represents (db.set (heroes.key u id) hash)
      (Function.update acc u { acc u with hero := (acc u).hero.set id res }) :=
  h.change_hero (heroes.head_key u id) (fun _ hk => Function.update_of_ne hk _ _)
    (h.hero.set u hid hres)

theorem del_hero (h : Represents db acc) (u : UInt32) (id : String) :
    Represents (db.del (heroes.key u id))
      (Function.update acc u { acc u with hero := (acc u).hero.del id }) :=
  h.change_hero (heroes.head_key u id) (fun _ hk => Function.update_of_ne hk _ _)
    (h.hero.del u id)

theorem change_email (h : Represents db acc) {db' : Db} {k : Text} {u : UInt32}
    {email : Keyspace String EmailSaleResponse} (hk : Redis.head k = emails.tag)
    (hsame : ∀ k', k' ≠ k → db'.find k' = db.find k')
    (hemail : emails.Holds db' (Function.update (Account.email ∘ acc) u email)) :
    Represents db' (Function.update acc u { acc u with email }) := by
  have huser : ∀ v, k ≠ userKey v := ne_userKey (by rw [hk]; decide)
  exact h.change hsame (.inl ⟨by rw [hk]; decide, rfl⟩) (.inl ⟨by rw [hk]; decide, rfl⟩)
    (.inr hemail) (.inl ⟨huser u, rfl⟩) fun v _ => huser v

theorem set_email (h : Represents db acc) (u : UInt32) {id : String} (hid : IsClean id.toList)
    {hash : Hash} {res : EmailSaleResponse} (hres : emails.decode hash = some res) :
    Represents (db.set (emails.key u id) hash)
      (Function.update acc u { acc u with email := (acc u).email.set id res }) :=
  h.change_email (emails.head_key u id) (fun _ hk => Function.update_of_ne hk _ _)
    (h.email.set u hid hres)

theorem del_email (h : Represents db acc) (u : UInt32) (id : String) :
    Represents (db.del (emails.key u id))
      (Function.update acc u { acc u with email := (acc u).email.del id }) :=
  h.change_email (emails.head_key u id) (fun _ hk => Function.update_of_ne hk _ _)
    (h.email.del u id)

theorem set_user (h : Represents db acc) (u : UInt32) {hash : Hash} {att : MyAttribute}
    (hatt : attributesOf hash = att) :
    Represents (db.set (userKey u) hash)
      (Function.update acc u { acc u with myAttribute := att }) := by
  have hhead := head_userKey u
  have hfind : (db.set (userKey u) hash).find (userKey u) = some hash := Function.update_self _ _ _
  exact h.change (fun k hk => Function.update_of_ne hk _ _) (.inl ⟨by rw [hhead]; decide, rfl⟩)
    (.inl ⟨by rw [hhead]; decide, rfl⟩) (.inl ⟨by rw [hhead]; decide, rfl⟩)
    (.inr ⟨rfl, by rw [hfind]; exact hatt⟩)
    fun v hv heq => hv (userKey_injective heq.symm)

end Represents

/-! ## Every write -/

namespace Write

/-- The texts in a record are words. Serial numbers and uuids are, and so is a name that
`check_string` lets pass but for `%` and NUL. -/
def Sound : Write → Prop
  | .setEquip res => IsWord res.equipSn.toList ∧ IsWord (stored res).whereUuid.toList
  | .delEquip equipSn => IsClean equipSn.toList
  | .setHero res =>
    IsWord res.heroUuid.toList ∧ IsWord res.name.toList ∧ ∀ print ∈ res.prints, IsWord print
  | .delHero heroUuid => IsClean heroUuid.toList
  | .moveHero myHero _ => ∀ i h, myHero i = some h → IsClean h.heroUuid.toList
  | .setEmailSale res =>
    IsWord res.emailUuid.toList ∧ IsWord (named res).otherName.toList ∧
      (res.diamond ≤ 0 →
        IsWord res.equip.equipSn.toList ∧ IsWord (stored res.equip).whereUuid.toList)
  | .delEmailSale emailUuid => IsClean emailUuid.toList
  | .setCityHall cityHallUuid => IsWord cityHallUuid.toList
  | .setCombatUuid combatUnionUid => IsWord combatUnionUid.toList
  | _ => True

end Write

theorem stored_equipSn (res : Equip) : (stored res).equipSn = res.equipSn := by
  unfold stored
  split_ifs <;> rfl

theorem named_emailUuid (res : EmailSaleResponse) : (named res).emailUuid = res.emailUuid := by
  unfold named
  split_ifs <;> rfl

namespace Represents

theorem setEquip (h : Represents db acc) (u : UInt32) {res : Equip}
    (hsn : IsWord res.equipSn.toList) (hwhere : IsWord (stored res).whereUuid.toList) :
    ∃ db', setEquip db u res = some db' ∧
      Represents db' (Function.update acc u ((acc u).setEquip res)) := by
  have hkey := equips.isWord_key u hsn.2
  have hcells : ∀ c ∈ equipCells (stored res), IsLabel c.1 ∧ IsWord c.2 :=
    equipCells_ok (by rwa [stored_equipSn]) hwhere
  refine ⟨_, Redis.write_hmset db hkey (List.cons_ne_nil _ _) hcells, ?_⟩
  have hset := h.set_equip u hsn.2 (decode_equip ((db.find (equips.key u res.equipSn)).getD
    fun _ => none) (stored res))
  rw [← stored_equipSn] at hset ⊢
  exact hset

theorem setHeroSn (h : Represents db acc) (u : UInt32) {res : Hero}
    (huuid : IsClean res.heroUuid.toList) :
    ∃ db', setHeroSn db u res = some db' ∧
      Represents db' (Function.update acc u
        { acc u with hero := Account.setHeroSn (acc u).hero res }) := by
  have hkey := heroes.isWord_key u huuid
  have hcell : IsLabel "hero_sn" ∧ IsWord (Text.formatInt res.heroSn) :=
    ⟨by decide, isWord_formatInt _⟩
  refine ⟨_, Redis.write_hset db hkey hcell, ?_⟩
  exact h.set_hero u huuid (decode_heroSn _ (h.hero.find u res.heroUuid) res)

theorem setHero (h : Represents db acc) (u : UInt32) {res : HeroResponse Text}
    (huuid : IsWord res.heroUuid.toList) (hname : IsWord res.name.toList)
    (hprints : ∀ print ∈ res.prints, IsWord print) :
    ∃ db', setHero db u res = some db' ∧
      Represents db' (Function.update acc u ((acc u).store (.setHero res))) := by
  have hkey := heroes.isWord_key u huuid.2
  have hcells := heroCells_ok huuid hname hprints
  refine ⟨_, Redis.write_hmset db hkey (List.cons_ne_nil _ _) hcells, ?_⟩
  exact h.set_hero u huuid.2 (decode_hero _ res)

theorem moveHero (h : Represents db acc) (u : UInt32) {myHero : ℕ → Option Hero}
    (huuid : ∀ i hero, myHero i = some hero → IsClean hero.heroUuid.toList) (is : List ℕ) :
    ∃ db', moveHero u myHero is db = some db' ∧
      Represents db' (Function.update acc u
        { acc u with hero := Account.moveHero myHero is (acc u).hero }) := by
  induction is generalizing db acc with
  | nil =>
    refine ⟨db, rfl, ?_⟩
    show Represents db (Function.update acc u (acc u))
    rwa [Function.update_eq_self]
  | cons i is ih =>
    unfold RedisChatWorker.moveHero Account.moveHero
    cases hi : myHero i with
    | none =>
      refine ⟨db, rfl, ?_⟩
      show Represents db (Function.update acc u (acc u))
      rwa [Function.update_eq_self]
    | some hero =>
      obtain ⟨db₁, hfirst, h₁⟩ := h.setHeroSn u (huuid i hero hi)
      obtain ⟨db₂, hrest, h₂⟩ := ih h₁
      rw [Function.update_idem, Function.update_self] at h₂
      exact ⟨db₂, Option.bind_eq_some_iff.mpr ⟨db₁, hfirst, hrest⟩, h₂⟩

theorem setEmailSale (h : Represents db acc) (u : UInt32) {res : EmailSaleResponse}
    (huuid : IsWord res.emailUuid.toList) (hname : IsWord (named res).otherName.toList)
    (hequip : res.diamond ≤ 0 →
      IsWord res.equip.equipSn.toList ∧ IsWord (stored res.equip).whereUuid.toList) :
    ∃ db', setEmailSale db u res = some db' ∧
      Represents db' (Function.update acc u ((acc u).store (.setEmailSale res))) := by
  have hkey := emails.isWord_key u huuid.2
  have hcells : ∀ c ∈ emailCells (named res), IsLabel c.1 ∧ IsWord c.2 :=
    emailCells_ok (by rwa [named_emailUuid]) hname
  have hne : emailCells (named res) ≠ [] := List.cons_ne_nil _ _
  have hwrite := Redis.write_hmset db hkey hne hcells
  have hset := h.set_email u huuid.2 (decode_email ((db.find (emails.key u res.emailUuid)).getD
    fun _ => none) (named res))
  unfold RedisChatWorker.setEmailSale
  rw [hwrite]
  by_cases hdiamond : res.diamond ≤ 0
  · obtain ⟨hsn, hwhere⟩ := hequip hdiamond
    obtain ⟨db', hwritten, h'⟩ := hset.setEquip u hsn hwhere
    refine ⟨db', by simpa [hdiamond] using hwritten, ?_⟩
    rw [Function.update_idem, Function.update_self] at h'
    simpa [Account.store, hdiamond] using h'
  · have hstore : (acc u).store (.setEmailSale res) = { acc u with
        email := (acc u).email.set res.emailUuid { named res with equip := {} } } := by
      simp [Account.store, hdiamond]
    rw [hstore]
    exact ⟨_, if_neg hdiamond, hset⟩

theorem hmset_user (h : Represents db acc) (u : UInt32) {cells : List (String × Text)}
    (hne : cells ≠ []) (hcells : ∀ c ∈ cells, IsLabel c.1 ∧ IsWord c.2) {att : MyAttribute}
    (hatt : ∀ read, attributesOf read = (acc u).myAttribute →
      attributesOf (Redis.merge read (fields cells)) = att) :
    ∃ db', Redis.write db (Redis.line ("HMSET".toList ++ ' ' :: userKey u) cells) = some db' ∧
      Represents db' (Function.update acc u { acc u with myAttribute := att }) :=
  ⟨_, Redis.write_hmset db (isWord_userKey u) hne hcells, h.set_user u (hatt _ (h.myAttribute u))⟩

theorem hset_user (h : Represents db acc) (u : UInt32) {label : String} {value : Text}
    (hcell : IsLabel label ∧ IsWord value) {att : MyAttribute}
    (hatt : ∀ read, attributesOf read = (acc u).myAttribute →
      attributesOf (Redis.merge read (fields [(label, value)])) = att) :
    ∃ db', Redis.write db (Redis.line ("HSET".toList ++ ' ' :: userKey u) [(label, value)]) =
        some db' ∧
      Represents db' (Function.update acc u { acc u with myAttribute := att }) :=
  ⟨_, Redis.write_hset db (isWord_userKey u) hcell, h.set_user u (hatt _ (h.myAttribute u))⟩

theorem setMaterial (h : Represents db acc) (u : UInt32) (wood stone iron soil : Int) :
    ∃ db', setMaterial db u wood stone iron soil = some db' ∧ Represents db'
      (Function.update acc u ((acc u).store (.setMaterial wood stone iron soil))) := by
  apply h.hmset_user u (List.cons_ne_nil _ _)
  · simp [isWord_formatInt]
    decide
  · intro read hread
    rw [← hread]
    simp [attributesOf, attributeOf, playerNames, Redis.field, Redis.merge, number, text, element,
      Text.atoi_formatInt]

theorem setPlayerBase (h : Represents db acc) (u : UInt32) (race record level : Int) :
    ∃ db', setPlayerBase db u race record level = some db' ∧ Represents db'
      (Function.update acc u ((acc u).store (.setPlayerBase race record level))) := by
  apply h.hmset_user u (List.cons_ne_nil _ _)
  · simp [isWord_formatInt]
    decide
  · intro read hread
    rw [← hread]
    simp [attributesOf, attributeOf, playerNames, Redis.field, Redis.merge, number, text, element,
      Text.atoi_formatInt]

theorem setRecurite (h : Represents db acc) (u : UInt32) (recurite chanceNum : Int) :
    ∃ db', setRecurite db u recurite chanceNum = some db' ∧
      Represents db' (Function.update acc u ((acc u).store (.setRecurite recurite chanceNum))) := by
  apply h.hmset_user u (List.cons_ne_nil _ _)
  · simp [isWord_formatInt]
    decide
  · intro read hread
    rw [← hread]
    simp [attributesOf, attributeOf, playerNames, Redis.field, Redis.merge, number, text, element,
      Text.atoi_formatInt]

theorem setBackpackNum (h : Represents db acc) (u : UInt32) (num : Int) :
    ∃ db', setBackpackNum db u num = some db' ∧
      Represents db' (Function.update acc u ((acc u).store (.setBackpackNum num))) := by
  apply h.hset_user u ⟨by decide, isWord_formatInt num⟩
  intro read hread
  rw [← hread]
  simp [attributesOf, attributeOf, playerNames, Redis.field, Redis.merge, number, text, element,
    Text.atoi_formatInt]

theorem setCityHall (h : Represents db acc) (u : UInt32) {cityHallUuid : String}
    (huuid : IsWord cityHallUuid.toList) :
    ∃ db', setCityHall db u cityHallUuid = some db' ∧
      Represents db' (Function.update acc u ((acc u).store (.setCityHall cityHallUuid))) := by
  apply h.hset_user u ⟨by decide, huuid⟩
  intro read hread
  rw [← hread]
  simp [attributesOf, attributeOf, playerNames, Redis.field, Redis.merge, number, text, element]

theorem setCombatUuid (h : Represents db acc) (u : UInt32) {combatUnionUid : String}
    (huuid : IsWord combatUnionUid.toList) :
    ∃ db', setCombatUuid db u combatUnionUid = some db' ∧
      Represents db' (Function.update acc u ((acc u).store (.setCombatUuid combatUnionUid))) := by
  apply h.hset_user u ⟨by decide, huuid⟩
  intro read hread
  rw [← hread]
  simp [attributesOf, attributeOf, playerNames, Redis.field, Redis.merge, number, text, element]

theorem write (h : Represents db acc) (u : UInt32) {w : Write} (hw : w.Sound) :
    ∃ db', write db u w = some db' ∧
      Represents db' (Function.update acc u ((acc u).store w)) := by
  cases w with
  | setEquip res => exact h.setEquip u hw.1 hw.2
  | delEquip equipSn =>
    exact ⟨_, Redis.write_del db (equips.isWord_key u hw), h.del_equip u equipSn⟩
  | setHero res => exact h.setHero u hw.1 hw.2.1 hw.2.2
  | delHero heroUuid =>
    exact ⟨_, Redis.write_del db (heroes.isWord_key u hw), h.del_hero u heroUuid⟩
  | moveHero myHero startIndex => exact h.moveHero u hw _
  | setEmailSale res => exact h.setEmailSale u hw.1 hw.2.1 hw.2.2
  | delEmailSale emailUuid =>
    exact ⟨_, Redis.write_del db (emails.isWord_key u hw), h.del_email u emailUuid⟩
  | setMaterial wood stone iron soil => exact h.setMaterial u wood stone iron soil
  | setPlayerBase race record level => exact h.setPlayerBase u race record level
  | setCityHall cityHallUuid => exact h.setCityHall u hw
  | setCombatUuid combatUnionUid => exact h.setCombatUuid u hw
  | setBackpackNum num => exact h.setBackpackNum u num
  | setRecurite recurite chanceNum => exact h.setRecurite u recurite chanceNum

end Represents

/-! ## Whole runs -/

def writes : Db → List (UInt32 × Write) → Option Db :=
  Run.exec fun db w => RedisChatWorker.write db w.1 w.2

def accounts (acc : UInt32 → Account) (ws : List (UInt32 × Write)) : UInt32 → Account :=
  ws.foldl (fun acc w => Function.update acc w.1 ((acc w.1).store w.2)) acc

theorem Represents.writes (h : Represents db acc) {ws : List (UInt32 × Write)}
    (hws : ∀ w ∈ ws, w.2.Sound) :
    ∃ db', writes db ws = some db' ∧ Represents db' (accounts acc ws) := by
  induction ws generalizing db acc with
  | nil => exact ⟨db, rfl, h⟩
  | cons w ws ih =>
    obtain ⟨db₁, hfirst, h₁⟩ := h.write w.1 (hws w List.mem_cons_self)
    obtain ⟨db₂, hrest, h₂⟩ := ih h₁ fun v hv => hws v (List.mem_cons_of_mem w hv)
    exact ⟨db₂, Option.bind_eq_some_iff.mpr ⟨db₁, hfirst, hrest⟩, h₂⟩

end IceBridge.Gateway.RedisChatWorker
