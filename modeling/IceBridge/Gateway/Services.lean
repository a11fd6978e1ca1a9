import IceBridge.Gateway.LoginWorker

/-! What the services leave alone: only those for the heroes change which heroes there are, and
only they change how many slots a hero has. -/

namespace IceBridge.Gateway

structure SameHeroes (p q : Player) : Prop where
  myHero : q.myHero = p.myHero
  slots : ∀ heroUuid, (q.heroEquip heroUuid).length = (p.heroEquip heroUuid).length
  backpackNum : q.backpackNum = p.backpackNum

namespace SameHeroes
variable {p q r : Player}

theorem refl (p : Player) : SameHeroes p p := ⟨rfl, fun _ => rfl, rfl⟩

theorem trans (h : SameHeroes p q) (h' : SameHeroes q r) : SameHeroes p r :=
  ⟨h'.myHero.trans h.myHero, fun u => (h'.slots u).trans (h.slots u),
    h'.backpackNum.trans h.backpackNum⟩

theorem enTimer (p : Player) (sn : String) (now : Int) : SameHeroes p (p.enTimer sn now) := by
  unfold Player.enTimer
  split
  · exact refl p
  · exact ⟨rfl, fun _ => rfl, rfl⟩

theorem deleteTimer (p : Player) (sn : String) : SameHeroes p (p.deleteTimer sn) := by
  unfold Player.deleteTimer
  split
  · exact refl p
  · exact ⟨rfl, fun _ => rfl, rfl⟩

theorem setSlot (p : Player) (heroUuid : String) (i : ℕ) (e : Equip) :
    SameHeroes p (p.setSlot heroUuid i e) := by
  refine ⟨rfl, ?_, rfl⟩
  intro v
  show (Function.update p.heroEquip heroUuid _ v).length = _
  rw [Function.update_apply]
  split_ifs with hv
  · rw [List.length_set, hv]
  · rfl

end SameHeroes

namespace Estate
variable {cfg : Config} {e t : Estate} {sn : String} {now : Int} {r : Answer}

theorem sameHeroes_startBuild (b : Build) :
    SameHeroes e.player (e.startBuild sn b now).player := by
  have hset : SameHeroes e.player { e.player.setMyBuild sn b with
      building := e.player.building ++ [sn] } := ⟨rfl, fun _ => rfl, rfl⟩
  unfold startBuild
  split_ifs
  · exact hset.trans (SameHeroes.enTimer _ _ _)
  · exact hset

theorem sameHeroes_buildTimerHandle (ht : e.buildTimerHandle cfg sn now = some t) :
    SameHeroes e.player t.player := by
  unfold buildTimerHandle at ht
  split at ht
  · exact Option.some.inj ht ▸ SameHeroes.refl _
  · next b hb =>
    obtain ⟨b', -, ht⟩ := Option.bind_eq_some_iff.mp ht
    obtain rfl := Option.some.inj ht
    have hset : SameHeroes e.player (e.player.setMyBuild sn b') := ⟨rfl, fun _ => rfl, rfl⟩
    have hdeleted := hset.trans (SameHeroes.deleteTimer _ sn)
    exact ⟨hdeleted.myHero, hdeleted.slots, hdeleted.backpackNum⟩

theorem SameWorks.sameHeroes (h : e.SameWorks t) : SameHeroes e.player t.player := by
  rw [h.player]
  exact ⟨rfl, fun _ => rfl, rfl⟩

theorem Orders.sameHeroes {b : Build} (h : e.Orders t sn b now) :
    SameHeroes e.player t.player := by
  obtain ⟨u, hbefore, hafter, -, -⟩ := h
  exact hbefore.sameHeroes.trans ((sameHeroes_startBuild b).trans hafter.sameHeroes)

theorem sameHeroes_buildCreate {type : Int} (hr : e.buildCreate cfg type sn now = some r) :
    SameHeroes e.player r.estate.player := by
  rcases buildCreate_cases hr with ⟨-, hsame⟩ | ⟨-, -, b, horders, -⟩
  · rw [hsame]
    exact SameHeroes.refl _
  · exact horders.sameHeroes

theorem sameHeroes_buildUpgrade (hr : e.buildUpgrade cfg sn now = some r) :
    SameHeroes e.player r.estate.player := by
  rcases buildUpgrade_cases hr with ⟨-, hsame⟩ | ⟨-, -, b, old, horders, -⟩
  · rw [hsame]
    exact SameHeroes.refl _
  · exact horders.sameHeroes

theorem sameHeroes_fastFinish (hr : e.fastFinish cfg sn now = some r) :
    SameHeroes e.player r.estate.player := by
  unfold fastFinish at hr
  dsimp only at hr
  split at hr
  · exact Option.some.inj hr ▸ SameHeroes.refl _
  split_ifs at hr
  · obtain ⟨u, hu, hr⟩ := Option.bind_eq_some_iff.mp hr
    obtain rfl := Option.some.inj hr
    have hpaid := sameHeroes_buildTimerHandle hu
    exact ⟨hpaid.myHero, hpaid.slots, hpaid.backpackNum⟩
  · obtain ⟨b, -, hr⟩ := Option.bind_eq_some_iff.mp hr
    exact Option.some.inj hr ▸ ⟨rfl, fun _ => rfl, rfl⟩
  · exact Option.some.inj hr ▸ SameHeroes.refl _
  · exact Option.some.inj hr ▸ SameHeroes.refl _

theorem sameHeroes_getMyAsset (hr : e.getMyAsset cfg sn now = some r) :
    SameHeroes e.player r.estate.player := by
  unfold getMyAsset at hr
  split at hr
  · exact Option.some.inj hr ▸ SameHeroes.refl _
  split_ifs at hr
  · obtain ⟨level, -, hr⟩ := Option.bind_eq_some_iff.mp hr
    exact Option.some.inj hr ▸ ⟨rfl, fun _ => rfl, rfl⟩
  · exact Option.some.inj hr ▸ SameHeroes.refl _

theorem sameHeroes_recruit {randomType : Int} (hr : e.recruit cfg randomType = some r) :
    SameHeroes e.player r.estate.player := by
  unfold recruit at hr
  split_ifs at hr
  · obtain ⟨diamond, -, hr⟩ := Option.bind_eq_some_iff.mp hr
    split_ifs at hr
    · exact Option.some.inj hr ▸ ⟨rfl, fun _ => rfl, rfl⟩
    · exact Option.some.inj hr ▸ SameHeroes.refl _
  · exact Option.some.inj hr ▸ SameHeroes.refl _

theorem sameHeroes_buildStatusList (e : Estate) (sns : List String) (now : Int) :
    SameHeroes e.player (e.buildStatusList sns now).estate.player := by
  have hloaded : SameHeroes e.player (e.getBuildMap now).player := ⟨rfl, fun _ => rfl, rfl⟩
  refine List.foldlRecOn (motive := fun u : Estate => SameHeroes e.player u.player) sns _ hloaded ?_
  intro u hu v _
  split
  · exact hu
  · exact hu

end Estate

namespace World
variable {w : World} {u : UInt32} {o : Outcome}

theorem player_setPlayer_self (p : Player) : (w.setPlayer u p).player u = p :=
  Function.update_self _ _ _

theorem sameHeroes_setEmailSale (uuid : UInt32) (key : String) (email : EmailSale) :
    SameHeroes (w.player u) ((w.setEmailSale uuid key email).player u) := by
  rw [setEmailSale_player]
  exact ⟨rfl, fun _ => rfl, rfl⟩

theorem sameHeroes_openBox {sn : String} {attr : EquipAttr} (ho : w.openBox u sn attr = some o) :
    SameHeroes (w.player u) (o.world.player u) := by
  rcases openBox_cases ho with ⟨_, -, rfl⟩ | ⟨b, sn', -, -, rfl⟩
  · exact SameHeroes.refl _
  · rw [player_setPlayer_self]
    exact ⟨rfl, fun _ => rfl, rfl⟩

theorem sameHeroes_dressAt {h : Hero} {b i : ℕ} (ho : w.dressAt u h b i = some o) :
    SameHeroes (w.player u) (o.world.player u) := by
  obtain ⟨-, p, rfl, hmine, hnum, hequip⟩ := dressAt_writes ho
  rw [player_setPlayer_self]
  refine ⟨hmine, fun v => ?_, hnum⟩
  rw [hequip]
  exact (SameHeroes.setSlot (w.player u) h.heroUuid i _).slots v

theorem sameHeroes_dressEquip {whichHero backpackPosition heroPosition : Int}
    (ho : w.dressEquip u whichHero backpackPosition heroPosition = some o) :
    SameHeroes (w.player u) (o.world.player u) := by
  rcases dressEquip_cases ho with ⟨_, -, rfl⟩ | ⟨h, i, -, -, ho⟩
  · exact SameHeroes.refl _
  · exact sameHeroes_dressAt ho

theorem sameHeroes_unloadEquip {whichHero position : Int}
    (ho : w.unloadEquip u whichHero position = some o) :
    SameHeroes (w.player u) (o.world.player u) := by
  rcases unloadEquip_cases ho with ⟨_, -, rfl⟩ | ⟨h, e, b, -, -, -, -, rfl⟩
  · exact SameHeroes.refl _
  · rw [player_setPlayer_self]
    have hput : SameHeroes (w.player u) ((w.player u).put b
        (setEquip { e with witchPannle := 0, position := b })) := ⟨rfl, fun _ => rfl, rfl⟩
    exact hput.trans (SameHeroes.setSlot _ _ _ _)

theorem sameHeroes_saleGoods {position diamondCost : Int}
    (ho : w.saleGoods u position diamondCost = some o) :
    SameHeroes (w.player u) (o.world.player u) := by
  rcases saleGoods_cases ho with ⟨_, -, rfl⟩ | ⟨-, rfl⟩
  · exact SameHeroes.refl _
  · show SameHeroes _ ((w.setPlayer u _).player u)
    rw [player_setPlayer_self]
    exact ⟨rfl, fun _ => rfl, rfl⟩

theorem sameHeroes_buyMarketGoods {goodsSn key : String}
    (ho : w.buyMarketGoods u goodsSn key = some o) :
    SameHeroes (w.player u) (o.world.player u) := by
  unfold buyMarketGoods at ho
  dsimp only at ho
  split at ho
  · exact Option.some.inj ho ▸ SameHeroes.refl _
  split at ho
  · exact Option.some.inj ho ▸ SameHeroes.refl _
  · exact Option.some.inj ho ▸ SameHeroes.refl _
  split_ifs at ho
  · obtain ⟨key', -, ho⟩ := Option.bind_eq_some_iff.mp ho
    obtain rfl := Option.some.inj ho
    refine SameHeroes.trans ?_ (sameHeroes_setEmailSale _ _ _)
    rw [(delMarket_frame _).1, player_setPlayer_self]
    exact ⟨rfl, fun _ => rfl, rfl⟩
  · exact Option.some.inj ho ▸ SameHeroes.refl _

theorem sameHeroes_getEmailGoods (key : String) :
    SameHeroes (w.player u) ((w.getEmailGoods u key).world.player u) := by
  have hdeleted : ∀ v : World, SameHeroes (v.player u) ((v.delEmailSale u key).player u) := by
    intro v
    rw [delEmailSale_player]
    exact ⟨rfl, fun _ => rfl, rfl⟩
  unfold getEmailGoods
  dsimp only
  split
  · exact SameHeroes.refl _
  refine SameHeroes.trans ?_ (hdeleted _)
  split
  · split
    · exact SameHeroes.refl _
    · rw [player_setPlayer_self]
      exact ⟨rfl, fun _ => rfl, rfl⟩
  · show SameHeroes _ ((w.setPlayer u _).player u)
    rw [player_setPlayer_self]
    exact ⟨rfl, fun _ => rfl, rfl⟩

end World

namespace LoginWorker
variable {cfg : Config} {s t u : LoginWorker} {now : Int} {reply : ServiceReply}

@[simp] theorem record_setRecord (r : Records) : (s.setRecord r).record = r :=
  Function.update_self _ _ _

@[simp] theorem player_setRecord (r : Records) : (s.setRecord r).player = s.player := rfl

@[simp] theorem player_setPlayer (p : Player) : (s.setPlayer p).player = p :=
  Function.update_self _ _ _

@[simp] theorem record_setPlayer (p : Player) : (s.setPlayer p).record = s.record := rfl

theorem player_setHero (i : ℕ) (h : Hero) : (s.setHero i h).player =
    { s.player with myHero := Function.update s.player.myHero i (some h) } := by
  rw [setHero, player_setRecord, player_setPlayer]

theorem record_setHero (i : ℕ) (h : Hero) : (s.setHero i h).record = s.record.setHero h := by
  rw [setHero, record_setRecord]

theorem findHero_eq {p : Player} {test : Hero → Bool} {i : ℕ} {h : Hero}
    (hfind : findHero p test = some (i, h)) : p.myHero i = some h ∧ test h := by
  obtain ⟨j, -, hj⟩ := List.exists_of_findSome?_eq_some hfind
  obtain ⟨g, hg, hj⟩ := Option.bind_eq_some_iff.mp hj
  split_ifs at hj with htest
  obtain ⟨rfl, rfl⟩ := Prod.mk.inj (Option.some.inj hj)
  exact ⟨hg, htest⟩

theorem appointHero_keeps {I : LoginWorker → Prop}
    (hpost : ∀ s i h post, I s → s.player.myHero i = some h →
      I (s.setHero i { h with whereIs := post }))
    (hs : I s) (heroUuid : String) (jobTitle : Int) : I (s.appointHero heroUuid jobTitle).worker := by
  unfold appointHero
  dsimp only
  split
  · split
    · exact hs
    · next i h hvacated => exact hpost s i h 0 hs (findHero_eq hvacated).1
  · next i h hfind =>
    refine hpost _ i h jobTitle ?_ (findHero_eq hfind).1
    split
    · exact hs
    · next j g hvacated => exact hpost s j g 0 hs (findHero_eq hvacated).1

theorem cancelHero_keeps {I : LoginWorker → Prop}
    (hpost : ∀ s i h post, I s → s.player.myHero i = some h →
      I (s.setHero i { h with whereIs := post }))
    (hs : I s) (heroUuid : String) : I (s.cancelHero heroUuid).worker := by
  unfold cancelHero
  split
  · exact hs
  · next i h hfind => exact hpost s i h 0 hs (findHero_eq hfind).1

structure SameRoster (s t : LoginWorker) : Prop where
  playerUuid : t.playerUuid = s.playerUuid
  loginStatus : t.loginStatus = s.loginStatus
  heroes : SameHeroes s.player t.player
  randHero : t.randHero = s.randHero
  hero : ∀ heroUuid, t.record.hero.find heroUuid = s.record.hero.find heroUuid ∨
    ∃ i h, s.player.myHero i = some h ∧ h.heroUuid = heroUuid ∧
      t.record.hero.find heroUuid = some h

theorem SameRoster.refl (s : LoginWorker) : SameRoster s s :=
  ⟨rfl, rfl, SameHeroes.refl _, rfl, fun _ => .inl rfl⟩

theorem SameRoster.setHero {i : ℕ} {h : Hero} (hs : SameRoster s t)
    (hh : s.player.myHero i = some h) : SameRoster s (t.setRecord (t.record.setHero h)) := by
  refine ⟨hs.playerUuid, hs.loginStatus, hs.heroes, hs.randHero, ?_⟩
  intro v
  rw [record_setRecord, Records.setHero, Keyspace.find_set, Function.update_apply]
  split_ifs with hv
  · exact .inr ⟨i, h, hh, hv.symm, rfl⟩
  · exact hs.hero v

theorem foldl_setEquip_hero (r : Records) (l : List Equip) :
    (l.foldl Records.setEquip r).hero = r.hero := by
  induction l generalizing r with
  | nil => rfl
  | cons e l ih => exact ih (r.setEquip e)

theorem sameRoster_onEstate {handler : Estate → Option Answer}
    (hsame : ∀ e r, handler e = some r → SameHeroes e.player r.estate.player)
    (hr : s.onEstate handler = some reply) : SameRoster s reply.worker := by
  obtain ⟨o, ho, rfl⟩ := Option.map_eq_some_iff.mp hr
  obtain ⟨answer, hanswer, rfl⟩ := Option.map_eq_some_iff.mp ho
  refine ⟨rfl, rfl, ?_, rfl, fun _ => .inl rfl⟩
  have hplayer : (s.world.setEstate s.playerUuid answer.estate).player s.playerUuid =
      answer.estate.player := Function.update_self _ _ _
  show SameHeroes s.player ((s.world.setEstate s.playerUuid answer.estate).player s.playerUuid)
  rw [hplayer]
  exact hsame _ _ hanswer

theorem record_onEstate {handler : Estate → Option Answer}
    (hr : s.onEstate handler = some reply) : reply.worker.record = s.record := by
  obtain ⟨o, -, rfl⟩ := Option.map_eq_some_iff.mp hr
  rfl

theorem sameRoster_onGoods {handler : Option Outcome} {written : Player → List Equip}
    (hsame : ∀ o, handler = some o →
      SameHeroes (s.world.player s.playerUuid) (o.world.player s.playerUuid))
    (hr : s.onGoods handler written = some reply) : SameRoster s reply.worker := by
  obtain ⟨o, ho, rfl⟩ := Option.map_eq_some_iff.mp hr
  refine ⟨rfl, rfl, hsame o ho, rfl, ?_⟩
  intro v
  refine .inl ?_
  rw [record_setRecord, foldl_setEquip_hero]
  rfl

/-! A refusal by the goods is one by the service. -/

theorem setRecord_self : s.setRecord s.record = s := by
  unfold setRecord record
  rw [Function.update_eq_self]

theorem onGoods_refuse (result : Int) :
    s.onGoods (some (s.world.refuse result)) (fun _ => []) = some (s.refuse result) :=
  congrArg (fun t : LoginWorker => some (t.refuse result)) setRecord_self

theorem dressEquip_refuse {whichHero backpackPosition heroPosition result : Int}
    (h : s.world.dressEquip s.playerUuid whichHero backpackPosition heroPosition =
      some (s.world.refuse result)) :
    s.dressEquip whichHero backpackPosition heroPosition = some (s.refuse result) := by
  unfold dressEquip
  rw [h]
  exact onGoods_refuse result

theorem unloadEquip_refuse {whichHero position result : Int} (hresult : result ≠ 0)
    (h : s.world.unloadEquip s.playerUuid whichHero position = some (s.world.refuse result)) :
    s.unloadEquip whichHero position = some (s.refuse result) := by
  unfold unloadEquip
  rw [h, Option.bind_eq_bind, Option.bind_some]
  split
  · next hzero _ _ => exact absurd (Option.some.inj hzero) hresult
  · exact onGoods_refuse result

theorem saleGoods_refuse {position diamondCost result : Int} (hresult : result ≠ 0)
    (h : s.world.saleGoods s.playerUuid position diamondCost = some (s.world.refuse result)) :
    s.saleGoods position diamondCost = some (s.refuse result) := by
  unfold saleGoods
  rw [h, Option.bind_eq_bind, Option.bind_some, onGoods_refuse, Option.bind_eq_bind,
    Option.bind_some]
  exact if_neg fun hzero => hresult (Option.some.inj hzero)

theorem buyMarketGoods_refuse {goodsSn key : String} {result : Int} (hresult : result ≠ 0)
    (h : s.world.buyMarketGoods s.playerUuid goodsSn key = some (s.world.refuse result)) :
    s.buyMarketGoods goodsSn key = some (s.refuse result) := by
  unfold buyMarketGoods
  rw [h, Option.bind_eq_bind, Option.bind_some, ← onGoods_refuse]
  congr 1
  funext p
  exact if_neg fun hzero => hresult (Option.some.inj hzero)

theorem openBox_refuse {sn : String} {attr : EquipAttr} {result : Int}
    (h : s.world.openBox s.playerUuid sn attr = some (s.world.refuse result)) :
    s.openBox sn attr = some (s.refuse result) := by
  unfold openBox
  rw [h, Option.bind_eq_bind, Option.bind_some]
  exact onGoods_refuse result

theorem getEmailGoods_refuse {key : String} (h : s.player.emailSaleList key = none) :
    s.getEmailGoods key = some (s.refuse (-1)) := by
  have hrefused : s.world.getEmailGoods s.playerUuid key = s.world.refuse (-1) := by
    unfold World.getEmailGoods
    dsimp only
    have hmail : (s.world.player s.playerUuid).emailSaleList key = none := h
    rw [hmail]
  unfold getEmailGoods
  rw [hrefused, h]
  exact onGoods_refuse (-1)

theorem sameRoster_dressEquip {whichHero backpackPosition heroPosition : Int}
    (hr : s.dressEquip whichHero backpackPosition heroPosition = some reply) :
    SameRoster s reply.worker := by
  obtain ⟨o, ho, hr⟩ := Option.bind_eq_some_iff.mp hr
  have hsame := World.sameHeroes_dressEquip ho
  split at hr
  · next h _ hh =>
    obtain ⟨reply', hreply, hr⟩ := Option.bind_eq_some_iff.mp hr
    obtain rfl := Option.some.inj hr
    refine (sameRoster_onGoods (fun o' ho' => ?_) hreply).setHero hh
    exact Option.some.inj ho' ▸ hsame
  · exact sameRoster_onGoods (fun o' ho' => Option.some.inj ho' ▸ hsame) hr

theorem sameRoster_unloadEquip {whichHero position : Int}
    (hr : s.unloadEquip whichHero position = some reply) : SameRoster s reply.worker := by
  obtain ⟨o, ho, hr⟩ := Option.bind_eq_some_iff.mp hr
  have hsame := World.sameHeroes_unloadEquip ho
  split at hr
  · next h b _ hh _ =>
    obtain ⟨reply', hreply, hr⟩ := Option.bind_eq_some_iff.mp hr
    obtain rfl := Option.some.inj hr
    refine (sameRoster_onGoods (fun o' ho' => ?_) hreply).setHero hh
    exact Option.some.inj ho' ▸ hsame
  · exact sameRoster_onGoods (fun o' ho' => Option.some.inj ho' ▸ hsame) hr

theorem sameRoster_saleGoods {position diamondCost : Int}
    (hr : s.saleGoods position diamondCost = some reply) : SameRoster s reply.worker := by
  obtain ⟨o, ho, hr⟩ := Option.bind_eq_some_iff.mp hr
  obtain ⟨reply', hreply, hr⟩ := Option.bind_eq_some_iff.mp hr
  have hsame : SameRoster s reply'.worker := sameRoster_onGoods
    (fun o' ho' => Option.some.inj ho' ▸ World.sameHeroes_saleGoods ho) hreply
  split at hr
  · obtain rfl := Option.some.inj hr
    refine ⟨hsame.playerUuid, hsame.loginStatus, hsame.heroes, hsame.randHero, ?_⟩
    intro v
    rw [record_setRecord]
    exact .inl rfl
  · exact Option.some.inj hr ▸ hsame

theorem sameRoster_buyMarketGoods {goodsSn key : String}
    (hr : s.buyMarketGoods goodsSn key = some reply) : SameRoster s reply.worker := by
  obtain ⟨o, ho, hr⟩ := Option.bind_eq_some_iff.mp hr
  exact sameRoster_onGoods
    (fun o' ho' => Option.some.inj ho' ▸ World.sameHeroes_buyMarketGoods ho) hr

theorem sameRoster_openBox {sn : String} {attr : EquipAttr}
    (hr : s.openBox sn attr = some reply) : SameRoster s reply.worker := by
  obtain ⟨o, ho, hr⟩ := Option.bind_eq_some_iff.mp hr
  exact sameRoster_onGoods (fun o' ho' => Option.some.inj ho' ▸ World.sameHeroes_openBox ho) hr

theorem sameRoster_setUserName {name : String} {set : Bool}
    (hr : s.setUserName name = some (set, t)) : SameRoster s t := by
  unfold setUserName at hr
  split_ifs at hr
  · obtain ⟨-, rfl⟩ := Prod.mk.inj (Option.some.inj hr)
    exact SameRoster.refl s
  · obtain ⟨-, rfl⟩ := Prod.mk.inj (Option.some.inj hr)
    exact SameRoster.refl s
  · obtain ⟨-, rfl⟩ := Prod.mk.inj (Option.some.inj hr)
    exact ⟨rfl, rfl, SameHeroes.refl _, rfl, fun _ => .inl rfl⟩

theorem sameRoster_setName {name : String} (hr : s.setName name = some reply) :
    SameRoster s reply.worker := by
  obtain ⟨⟨set, t⟩, ht, hr⟩ := Option.bind_eq_some_iff.mp hr
  obtain rfl := Option.some.inj hr
  have hsame := sameRoster_setUserName ht
  split_ifs
  · exact hsame
  · exact hsame

theorem sameRoster_getRandName {sex result : Int} {name : String}
    (hr : s.getRandName sex name result = some reply) : SameRoster s reply.worker := by
  unfold getRandName at hr
  dsimp only at hr
  split_ifs at hr
  · exact Option.some.inj hr ▸ ⟨rfl, rfl, SameHeroes.refl _, rfl, fun _ => .inl rfl⟩
  · exact Option.some.inj hr ▸ ⟨rfl, rfl, SameHeroes.refl _, rfl, fun _ => .inl rfl⟩
  · exact Option.some.inj hr ▸ ⟨rfl, rfl, SameHeroes.refl _, rfl, fun _ => .inl rfl⟩
  · exact Option.some.inj hr ▸ ⟨rfl, rfl, SameHeroes.refl _, rfl, fun _ => .inl rfl⟩

theorem sameRoster_bindEmail (email passwd : String) :
    SameRoster s (s.bindEmail email passwd).worker := by
  have hbound : SameRoster s (s.bindUserEmail email passwd).2 := by
    unfold bindUserEmail
    dsimp only
    split_ifs
    · exact SameRoster.refl s
    · exact SameRoster.refl s
    · exact ⟨rfl, rfl, SameHeroes.refl _, rfl, fun _ => .inl rfl⟩
    · exact ⟨rfl, rfl, SameHeroes.refl _, rfl, fun _ => .inl rfl⟩
  unfold bindEmail
  dsimp only
  split_ifs
  · exact hbound
  · exact hbound

def Request.ForHeroes : Request → Prop
  | .recruit .. | .getRandHero .. | .dropHero .. | .appointHero .. | .cancelHero .. => True
  | _ => False

theorem sameRoster_serve {r : Request} (hr : s.serve cfg now r = some reply)
    (hother : ¬ r.ForHeroes) : SameRoster s reply.worker := by
  cases r with
  | setName name => exact sameRoster_setName hr
  | bindEmail email passwd => exact Option.some.inj hr ▸ sameRoster_bindEmail email passwd
  | buildStatusList sns =>
    refine sameRoster_onEstate (fun e r her => ?_) hr
    exact Option.some.inj her ▸ Estate.sameHeroes_buildStatusList e sns now
  | buildCreate type sn => exact sameRoster_onEstate (fun _ _ => Estate.sameHeroes_buildCreate) hr
  | buildUpgrade sn => exact sameRoster_onEstate (fun _ _ => Estate.sameHeroes_buildUpgrade) hr
  | getMyAsset sn => exact sameRoster_onEstate (fun _ _ => Estate.sameHeroes_getMyAsset) hr
  | getRandName sex name result => exact sameRoster_getRandName hr
  | dressEquip whichHero backpackPosition heroPosition => exact sameRoster_dressEquip hr
  | unloadEquip whichHero position => exact sameRoster_unloadEquip hr
  | saleGoods position diamondCost => exact sameRoster_saleGoods hr
  | lookMarketGoods pageNum =>
    obtain rfl := Option.some.inj hr
    unfold lookMarketGoods
    dsimp only
    split_ifs
    · exact SameRoster.refl s
    · exact SameRoster.refl s
  | buyMarketGoods goodsSn emailUuid => exact sameRoster_buyMarketGoods hr
  | openBox sn attr => exact sameRoster_openBox hr
  | getEmailGoods emailUuid =>
    have hgoods : s.getEmailGoods emailUuid = some reply := hr
    refine sameRoster_onGoods (fun o ho => ?_) hgoods
    exact Option.some.inj ho ▸ World.sameHeroes_getEmailGoods emailUuid
  | fastFinish sn => exact sameRoster_onEstate (fun _ _ => Estate.sameHeroes_fastFinish) hr
  | recruit _ _ => exact absurd trivial hother
  | getRandHero _ => exact absurd trivial hother
  | dropHero _ => exact absurd trivial hother
  | appointHero _ _ => exact absurd trivial hother
  | cancelHero _ => exact absurd trivial hother

def Slotted (s : LoginWorker) : Prop :=
  ∀ i h, s.player.myHero i = some h → (s.player.heroEquip h.heroUuid).length = 6

theorem Slotted.dropHero {heroSn : Int} (hs : s.Slotted)
    (hr : s.dropHero heroSn = some reply) : reply.worker = s := by
  unfold LoginWorker.dropHero at hr
  split at hr
  · exact Option.some.inj hr ▸ rfl
  split at hr
  · exact absurd hr (by simp)
  dsimp only at hr
  split at hr
  · exact Option.some.inj hr ▸ rfl
  · next h hh =>
    rw [if_pos (by rw [hs _ h hh]; decide)] at hr
    exact Option.some.inj hr ▸ rfl

/-! ## Loading -/

def Loaded.Slotted (m : Loaded) : Prop :=
  ∀ i h, m.myHero i = some h → (m.heroEquip h.heroUuid).length = 6

theorem Loaded.Slotted.getHero {m m' : Loaded} {res : Hero} (hm : m.Slotted)
    (h : LoginWorker.getHero m res = some m') : m'.Slotted := by
  unfold LoginWorker.getHero at h
  set res' := if 6 < res.heroSn then { res with heroSn := 1 } else res
  dsimp only at h
  split_ifs at h
  · obtain rfl := Option.some.inj h
    intro i g hg
    dsimp only at hg ⊢
    rw [Function.update_apply] at hg ⊢
    split_ifs with huuid
    · rfl
    · split_ifs at hg
      · obtain rfl := Option.some.inj hg
        exact absurd rfl huuid
      · exact hm i g hg
  · exact Option.some.inj h ▸ hm
  · exact Option.some.inj h ▸ hm

theorem Loaded.Slotted.getEquip {m : Loaded} (hm : m.Slotted) (res : Equip) :
    (LoginWorker.getEquip m res).Slotted := by
  unfold LoginWorker.getEquip
  split_ifs
  · exact hm
  · intro i g hg
    dsimp only
    rw [Function.update_apply]
    split_ifs with huuid
    · rw [List.length_set, ← huuid]
      exact hm i g hg
    · exact hm i g hg
  · exact hm

theorem getEquip_heroes (m : Loaded) (l : List Equip) :
    (l.foldl getEquip m).myHero = m.myHero ∧ (l.foldl getEquip m).randHero = m.randHero := by
  induction l generalizing m with
  | nil => exact ⟨rfl, rfl⟩
  | cons e l ih =>
    have hstep : (getEquip m e).myHero = m.myHero ∧ (getEquip m e).randHero = m.randHero := by
      unfold getEquip
      split_ifs
      · exact ⟨rfl, rfl⟩
      · exact ⟨rfl, rfl⟩
      · exact ⟨rfl, rfl⟩
    obtain ⟨hmine, hrandom⟩ := ih (getEquip m e)
    exact ⟨hmine.trans hstep.1, hrandom.trans hstep.2⟩

theorem slotted_getEquipList {r : Records} {heroKeys equipKeys : List String} {m m' : Loaded}
    (hm : m.Slotted) (h : getEquipList r heroKeys equipKeys m = some m') : m'.Slotted := by
  obtain ⟨heroes, hheroes, h⟩ := Option.bind_eq_some_iff.mp h
  obtain rfl := Option.some.inj h
  have hslotted : heroes.Slotted := Run.foldlM_preserves (I := fun m _ => Loaded.Slotted m)
    (fun _ _ _ _ hm h => hm.getHero h) hm hheroes
  refine List.foldlRecOn (motive := Loaded.Slotted) _ _ hslotted ?_
  intro m hm e _
  exact hm.getEquip e

def loading (s : LoginWorker) : Loaded where
  myHero := s.player.myHero
  randHero := s.randHero
  heroEquip := s.player.heroEquip
  backpackStatus := s.player.backpackStatus
  myBackpack := s.player.myBackpack

structure LoadedAs (s t : LoginWorker) (uuid : UInt32) (m : Loaded) : Prop where
  playerUuid : t.playerUuid = uuid
  records : t.records = s.records
  myHero : t.player.myHero = m.myHero
  heroEquip : t.player.heroEquip = m.heroEquip
  randHero : t.randHero = m.randHero

theorem loginHandle2_loaded {uuid : UInt32} {heroKeys equipKeys : List String}
    (ht : s.loginHandle2 cfg uuid now heroKeys equipKeys = some t) :
    ∃ m, getEquipList (s.records uuid) heroKeys equipKeys s.loading = some m ∧
      LoadedAs s t uuid m := by
  obtain ⟨e, -, ht⟩ := Option.bind_eq_some_iff.mp ht
  obtain ⟨m, hm, ht⟩ := Option.bind_eq_some_iff.mp ht
  obtain rfl := Option.some.inj ht
  refine ⟨m, hm, rfl, rfl, ?_, ?_, rfl⟩
  · show (Function.update s.world.player uuid _ uuid).myHero = m.myHero
    rw [Function.update_self]
  · show (Function.update s.world.player uuid _ uuid).heroEquip = m.heroEquip
    rw [Function.update_self]

end LoginWorker

end IceBridge.Gateway
