import IceBridge.Gateway.RedisRecords

/-! The login reads the records of its player as they were written last, whatever was written
for other players in between, and an email comes with its equip. -/

namespace IceBridge.Gateway.RedisChatWorker
open Redis (Db Hash IsClean IsWord IsLabel)

variable {db : Db} {acc : UInt32 → Account}

/-! ## The list of the emails -/

def EmailList.attach (list : EmailList) (res : Equip) : EmailList :=
  if res.witchPannle = 2 then list.change res.whereUuid fun email => { email with equip := res }
  else list

theorem foldl_getEquip (equips : List Equip) (t : LoginData) :
    equips.foldl getEquip t = { t with
      loaded := equips.foldl LoginWorker.getEquip t.loaded
      equipList := t.equipList ++ equips.filter fun res => res.witchPannle ≠ 2
      emailSaleList := equips.foldl EmailList.attach t.emailSaleList } := by
  induction equips generalizing t with
  | nil => simp
  | cons res equips ih =>
    rw [List.foldl_cons, ih, List.foldl_cons, List.foldl_cons, getEquip, EmailList.attach]
    split_ifs with hpannle
    · have hnone : LoginWorker.getEquip t.loaded res = t.loaded := by
        simp [LoginWorker.getEquip, hpannle]
      rw [List.filter_cons_of_neg (by simpa using hpannle), hnone]
    · rw [List.filter_cons_of_pos (by simpa using hpannle), List.append_assoc]
      rfl

theorem foldlM_getHero (heroes : List (HeroResponse Int)) (t : LoginData) :
    heroes.foldlM getHero t =
      ((heroes.map HeroResponse.toHero).foldlM LoginWorker.getHero t.loaded).map fun loaded =>
        { t with loaded, heroList := t.heroList ++ heroes.map limited } := by
  induction heroes generalizing t with
  | nil => simp
  | cons res heroes ih =>
    rw [List.foldlM_cons, List.map_cons (f := HeroResponse.toHero), List.foldlM_cons, getHero]
    cases LoginWorker.getHero t.loaded res.toHero with
    | none => rfl
    | some loaded =>
      show heroes.foldlM getHero _ = _
      rw [ih, List.append_assoc]
      rfl

theorem foldlM_some {α β : Type*} (f : β → α → β) (l : List α) (b : β) :
    l.foldlM (fun b a => some (f b a)) b = some (l.foldl f b) := by
  induction l generalizing b with
  | nil => rfl
  | cons a l ih => exact ih (f b a)

/-! ## What a login reads -/

namespace Account

structure Lists (a : Account) (ids : Orders String) : Prop where
  hero : ids.hero.Perm a.hero.keys
  equip : ids.equip.Perm a.equip.keys
  email : ids.email.Perm a.email.keys

/-- The login reads the records themselves, and lists all of them. -/
def load (a : Account) (ids : Orders String) (t : LoginData) : Option LoginData :=
  (LoginWorker.getEquipList a.records ids.hero ids.equip t.loaded).map fun loaded =>
    { loaded
      heroList := t.heroList ++ (a.hero.records ids.hero).map limited
      equipList := (a.equip.records ids.equip).filter fun res => res.witchPannle ≠ 2
      emailSaleList := (a.email.records ids.email).foldl getEmail
        ((a.equip.records ids.equip).foldl EmailList.attach t.emailSaleList) }

theorem records_hero (a : Account) (order : List String) :
    a.records.hero.records order = (a.hero.records order).map HeroResponse.toHero :=
  Keyspace.records_map _ _ _

end Account

def Orders.keys (u : UInt32) (ids : Orders String) : Orders Text where
  hero := ids.hero.map (heroes.key u)
  equip := ids.equip.map (equips.key u)
  email := ids.email.map (emails.key u)

theorem isWord_keys : IsWord "keys".toList := by decide

namespace Represents

theorem getAllHero_iff (h : Represents db acc) (u : UInt32) (order : List Text)
    (t t' : LoginData) :
    getAllHero db u order t = some t' ↔
      ∃ ids : List String, order = ids.map (heroes.key u) ∧ ids.Perm (acc u).hero.keys ∧
        ((acc u).hero.records ids).foldlM getHero t = some t' := by
  apply h.hero.load_iff u (Redis.args_pair isWord_keys (heroes.isWord_pattern u))
  intro t id hash res hid hfind hres
  have hreply : Redis.hmget db
      (Redis.nameLine ("HMGET".toList ++ ' ' :: heroes.key u id) heroNames) =
        some ((heroNames.map Redis.field).map hash) :=
    Redis.hmget_of_find (heroes.isWord_key u hid) (by decide) (by decide) hfind
  have hdecode : heroOf ((heroNames.map Redis.field).map hash) = some res := hres
  rw [readHero, hreply]
  show (heroOf ((heroNames.map Redis.field).map hash)).elim _ _ = _
  rw [hdecode]
  rfl

theorem getEquips_iff (h : Represents db acc) (u : UInt32) (order : List Text)
    (t t' : LoginData) :
    getEquips db u order t = some t' ↔
      ∃ ids : List String, order = ids.map (equips.key u) ∧ ids.Perm (acc u).equip.keys ∧
        ((acc u).equip.records ids).foldlM (fun t res => some (getEquip t res))
          { t with equipList := [] } = some t' := by
  apply h.equip.load_iff u (Redis.args_pair_blank isWord_keys (equips.isWord_pattern u))
  intro t id hash res hid hfind hres
  have hreply : Redis.hmget db
      (Redis.nameLine ("HMGET".toList ++ ' ' :: equips.key u id) equipNames) =
        some ((equipNames.map Redis.field).map hash) :=
    Redis.hmget_of_find (equips.isWord_key u hid) (by decide) (by decide) hfind
  have hdecode : equipOf ((equipNames.map Redis.field).map hash) = some res := hres
  rw [readEquip, hreply]
  show some ((equipOf ((equipNames.map Redis.field).map hash)).elim _ _) = _
  rw [hdecode]
  rfl

theorem getEmails_iff (h : Represents db acc) (u : UInt32) (order : List Text)
    (list list' : EmailList) :
    getEmails db u order list = some list' ↔
      ∃ ids : List String, order = ids.map (emails.key u) ∧ ids.Perm (acc u).email.keys ∧
        ((acc u).email.records ids).foldlM (fun l res => some (getEmail l res)) list =
          some list' := by
  apply h.email.load_iff u (Redis.args_pair isWord_keys (emails.isWord_pattern u))
  intro list id hash res hid hfind hres
  have hreply : Redis.hmget db
      (Redis.nameLine ("HMGET".toList ++ ' ' :: emails.key u id) emailNames) =
        some ((emailNames.map Redis.field).map hash) :=
    Redis.hmget_of_find (emails.isWord_key u hid) (by decide) (by decide) hfind
  have hdecode : some (emailOf ((emailNames.map Redis.field).map hash)) = some res := hres
  rw [readEmail, hreply, ← Option.some.inj hdecode]
  rfl

theorem getEquipList_iff (h : Represents db acc) (u : UInt32) (order : Orders Text)
    (t t' : LoginData) :
    getEquipList db u order t = some t' ↔
      ∃ ids, (acc u).Lists ids ∧ order = ids.keys u ∧ (acc u).load ids t = some t' := by
  unfold getEquipList
  constructor
  · intro hread
    obtain ⟨t₁, ht₁, hread⟩ := Option.bind_eq_some_iff.mp hread
    obtain ⟨t₂, ht₂, hread⟩ := Option.bind_eq_some_iff.mp hread
    obtain ⟨list, hlist, hlast⟩ := Option.bind_eq_some_iff.mp hread
    obtain ⟨heroIds, hhero, hheroIds, hheroes⟩ := (h.getAllHero_iff u _ _ _).mp ht₁
    obtain ⟨equipIds, hequip, hequipIds, hequips⟩ := (h.getEquips_iff u _ _ _).mp ht₂
    obtain ⟨emailIds, hemail, hemailIds, hemails⟩ := (h.getEmails_iff u _ _ _).mp hlist
    rw [foldlM_getHero] at hheroes
    obtain ⟨loaded, hloaded, rfl⟩ := Option.map_eq_some_iff.mp hheroes
    rw [foldlM_some, Option.some.injEq, foldl_getEquip] at hequips
    rw [foldlM_some, Option.some.injEq] at hemails
    refine ⟨⟨heroIds, equipIds, emailIds⟩, ⟨hheroIds, hequipIds, hemailIds⟩, ?_, ?_⟩
    · cases order
      exact congrArg₂ (fun f e => f e) (congrArg₂ Orders.mk hhero hequip) hemail
    · rw [← Account.records_hero] at hloaded
      rw [Account.load, LoginWorker.getEquipList, hloaded, ← hlast, ← hemails, ← hequips]
      rfl
  · rintro ⟨ids, hids, rfl, hread⟩
    obtain ⟨m', hm', rfl⟩ := Option.map_eq_some_iff.mp hread
    obtain ⟨m, hm, hequip⟩ := Option.bind_eq_some_iff.mp hm'
    obtain rfl := Option.some.inj hequip
    rw [Account.records_hero] at hm
    have hheroes := (h.getAllHero_iff u (ids.keys u).hero t _).mpr ⟨_, rfl, hids.hero, by
      rw [foldlM_getHero, hm, Option.map_some]⟩
    have hequips := (h.getEquips_iff u (ids.keys u).equip
      { t with loaded := m, heroList := t.heroList ++ ((acc u).hero.records ids.hero).map limited }
      _).mpr ⟨_, rfl, hids.equip, foldlM_some getEquip _ _⟩
    have hemails (list : EmailList) := (h.getEmails_iff u (ids.keys u).email list _).mpr
      ⟨_, rfl, hids.email, foldlM_some getEmail _ _⟩
    rw [foldl_getEquip] at hequips
    apply Option.bind_eq_some_iff.mpr ⟨_, hheroes, _⟩
    apply Option.bind_eq_some_iff.mpr ⟨_, hequips, _⟩
    exact Option.bind_eq_some_iff.mpr ⟨_, hemails _, rfl⟩

theorem getPlayer_eq (h : Represents db acc) (u : UInt32) :
    getPlayer db u = some (acc u).myAttribute := by
  have hreply : Redis.hmget db (Redis.nameLine ("HMGET".toList ++ ' ' :: userKey u) playerNames) =
      some ((playerNames.map Redis.field).map fun f => (db.find (userKey u)).bind fun h => h f) :=
    Redis.hmget_names db (isWord_userKey u) (by decide) (by decide)
  have hread : (fun f => (db.find (userKey u)).bind fun h => h f) =
      (db.find (userKey u)).getD fun _ => none := by
    cases db.find (userKey u) <;> rfl
  rw [getPlayer, hreply, hread]
  exact congrArg some (h.myAttribute u)

end Represents

/-- What the services keep as plain records of a player is what his account has of them. -/
theorem records_accounts (acc : UInt32 → Account) (ws : List (UInt32 × Write)) (u : UInt32) :
    (accounts acc ws u).records =
      (ws.filter fun w => w.1 = u).foldl (fun r w => w.2.onRecords r) (acc u).records := by
  induction ws generalizing acc with
  | nil => rfl
  | cons w ws ih =>
    have htail := ih (Function.update acc w.1 ((acc w.1).store w.2))
    by_cases hu : w.1 = u
    · rw [List.filter_cons_of_pos (by simpa using hu), List.foldl_cons]
      rw [← hu, Function.update_self, Account.records_store] at htail
      rw [← hu]
      exact htail
    · rw [List.filter_cons_of_neg (by simpa using hu)]
      rw [Function.update_of_ne (Ne.symm hu)] at htail
      exact htail

/-- After any writes of any players, in whatever order, the login of a player reads the attributes
and the records that were written last and not deleted. Among them are the plain records of his
services. -/
theorem reads_written {ws : List (UInt32 × Write)} (hws : ∀ w ∈ ws, w.2.Sound) :
    ∃ db, writes .empty ws = some db ∧ ∀ u,
      getPlayer db u = some (accounts (fun _ => {}) ws u).myAttribute ∧
      (∀ order t t', getEquipList db u order t = some t' ↔
        ∃ ids, (accounts (fun _ => {}) ws u).Lists ids ∧ order = ids.keys u ∧
          (accounts (fun _ => {}) ws u).load ids t = some t') ∧
      (accounts (fun _ => {}) ws u).records =
        (ws.filter fun w => w.1 = u).foldl (fun r w => w.2.onRecords r) {} := by
  obtain ⟨db, hwrites, hdb⟩ := represents_empty.writes hws
  exact ⟨db, hwrites, fun u =>
    ⟨hdb.getPlayer_eq u, hdb.getEquipList_iff u, records_accounts (fun _ => {}) ws u⟩⟩

theorem reads_written_two : ∃ db, writes .empty
    [(7, .setEquip { equipSn := "sword", whereUuid := "  ", position := 3 }),
      (7, .setEmailSale { emailUuid := "sale", diamond := 5, otherName := "Ann" }),
      (8, .setBackpackNum 20)] = some db ∧
    (getPlayer db 8).map MyAttribute.backpackNum = some 20 := by
  have hsound : ∀ w ∈ [((7 : UInt32), Write.setEquip
      { equipSn := "sword", whereUuid := "  ", position := 3 }),
      (7, .setEmailSale { emailUuid := "sale", diamond := 5, otherName := "Ann" }),
      (8, .setBackpackNum 20)], w.2.Sound := by
    intro w hw
    simp only [List.mem_cons, List.not_mem_nil, or_false] at hw
    rcases hw with rfl | rfl | rfl
    · exact ⟨by decide, by decide⟩
    · exact ⟨by decide, by decide, fun hpaid => absurd hpaid (by decide)⟩
    · trivial
  obtain ⟨db, hwrites, hread⟩ := reads_written hsound
  exact ⟨db, hwrites, congrArg (Option.map MyAttribute.backpackNum) (hread 8).1⟩

end IceBridge.Gateway.RedisChatWorker
