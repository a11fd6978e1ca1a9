import IceBridge.Gateway.Services

/-! Requests that are answered with a negative result, and which of them have changed the
session or the records all the same. -/

namespace IceBridge.Gateway

def Answer.Atomic (e : Estate) (r : Answer) : Prop :=
  ∀ result, r.result = some result → result < 0 → r.estate = e

def Outcome.Atomic (w : World) (o : Outcome) : Prop :=
  ∀ result, o.result = some result → result < 0 → o.world = w

def ServiceReply.Atomic (s : LoginWorker) (reply : ServiceReply) : Prop :=
  ∀ result ∈ reply.results, result < 0 → reply.worker = s

/-! ## The works -/

namespace Estate
variable {cfg : Config} {e : Estate} {sn : String} {now : Int} {r : Answer}

theorem atomic_refuse (result : Int) : (e.refuse result).Atomic e := fun _ _ _ => rfl

theorem atomic_silent (h : r.result = none) : r.Atomic e := by
  intro result hresult
  exact absurd (h.symm.trans hresult) (by simp)

theorem atomic_buildCreate {type : Int} (hr : e.buildCreate cfg type sn now = some r) :
    r.Atomic e := by
  unfold buildCreate at hr
  dsimp only at hr
  split_ifs at hr
  · obtain ⟨res, -, hr⟩ := Option.bind_eq_some_iff.mp hr
    split at hr
    · exact Option.some.inj hr ▸ atomic_refuse (-1)
    split_ifs at hr
    · obtain ⟨limit, -, hr⟩ := Option.bind_eq_some_iff.mp hr
      split_ifs at hr
      · exact Option.some.inj hr ▸ atomic_silent rfl
      · exact Option.some.inj hr ▸ atomic_silent rfl
    · exact Option.some.inj hr ▸ atomic_refuse (-1)
  · exact Option.some.inj hr ▸ atomic_refuse (-1)

theorem atomic_buildUpgrade (hr : e.buildUpgrade cfg sn now = some r) : r.Atomic e := by
  unfold buildUpgrade at hr
  dsimp only at hr
  split at hr
  · obtain ⟨limit, -, hr⟩ := Option.bind_eq_some_iff.mp hr
    split_ifs at hr
    · obtain ⟨res, -, hr⟩ := Option.bind_eq_some_iff.mp hr
      split_ifs at hr
      · exact Option.some.inj hr ▸ atomic_silent rfl
      · exact Option.some.inj hr ▸ atomic_refuse (-1)
    · exact Option.some.inj hr ▸ atomic_refuse (-1)
  · exact Option.some.inj hr ▸ atomic_refuse (-1)

theorem atomic_fastFinish (hr : e.fastFinish cfg sn now = some r) : r.Atomic e := by
  unfold fastFinish at hr
  dsimp only at hr
  split at hr
  · exact Option.some.inj hr ▸ atomic_refuse (-1)
  split_ifs at hr
  · obtain ⟨u, -, hr⟩ := Option.bind_eq_some_iff.mp hr
    exact Option.some.inj hr ▸ atomic_silent rfl
  · obtain ⟨b, -, hr⟩ := Option.bind_eq_some_iff.mp hr
    exact Option.some.inj hr ▸ atomic_silent rfl
  · exact Option.some.inj hr ▸ atomic_refuse (-1)
  · exact Option.some.inj hr ▸ atomic_refuse (-1)

theorem atomic_recruit {randomType : Int} (hr : e.recruit cfg randomType = some r) :
    r.Atomic e := by
  unfold recruit at hr
  split_ifs at hr
  · obtain ⟨diamond, -, hr⟩ := Option.bind_eq_some_iff.mp hr
    split_ifs at hr
    · exact Option.some.inj hr ▸ atomic_silent rfl
    · exact Option.some.inj hr ▸ atomic_refuse (-1)
  · exact Option.some.inj hr ▸ atomic_refuse (-1)

/-- There is nothing to fetch from the building, and the records are those of the session. -/
structure Collected (cfg : Config) (e : Estate) (sn : String) (b : Build) (level : BuildConfig)
    (now : Int) : Prop where
  ctime : b.ctime = now
  output : harvest b.buildType (min (cfg.produced level.output (now - b.ctime)) level.space) = 0
  build : e.store.build sn = some b
  material : ∀ a, a ≠ .diamond → e.store.asset a = e.player.asset a

/-- The estate after the yield is added and written is the one before. -/
theorem fetched_eq_iff {b : Build} {amount : Balances} (hb : e.player.myBuild sn = some b) :
    ({ e with player := (e.player.setMyBuild sn { b with ctime := now }).addAsset amount }.setBuild
      sn { b with ctime := now }).setMaterial = e ↔
      b.ctime = now ∧ amount = 0 ∧ e.store.build sn = some b ∧
        ∀ a, a ≠ .diamond → e.store.asset a = e.player.asset a := by
  constructor
  · intro hsame
    have hplayer := congrArg Estate.player hsame
    have hstore := congrArg Estate.store hsame
    have hmine : Function.update e.player.myBuild sn (some { b with ctime := now }) sn =
      e.player.myBuild sn := congrFun (congrArg Player.myBuild hplayer) sn
    have hasset : e.player.asset + amount = e.player.asset := congrArg Player.asset hplayer
    have hbuild : Function.update e.store.build sn (some { b with ctime := now }) sn =
      e.store.build sn := congrFun (congrArg Store.build hstore) sn
    rw [Function.update_self, hb] at hmine
    rw [Function.update_self, hmine] at hbuild
    refine ⟨(congrArg Build.ctime (Option.some.inj hmine)).symm, add_eq_left.mp hasset,
      hbuild.symm, ?_⟩
    intro a ha
    have hmaterial : (if a = .diamond then e.store.asset a else (e.player.asset + amount) a) =
      e.store.asset a := congrFun (congrArg Store.asset hstore) a
    rw [if_neg ha, hasset] at hmaterial
    exact hmaterial.symm
  · rintro ⟨rfl, rfl, hbuild, hmaterial⟩
    have hplayer : (e.player.setMyBuild sn b).addAsset 0 = e.player := by
      unfold Player.setMyBuild Player.addAsset
      rw [← hb, Function.update_eq_self, add_zero]
    have hbuilds : Function.update e.store.build sn (some b) = e.store.build := by
      rw [← hbuild, Function.update_eq_self]
    have hassets : (fun a => if a = .diamond then e.store.asset a else e.player.asset a) =
        e.store.asset := by
      funext a
      split_ifs with ha
      · rfl
      · exact (hmaterial a ha).symm
    rw [hplayer]
    show ({ e with store := { e.store with
      build := Function.update e.store.build sn (some b)
      asset := fun a => if a = .diamond then e.store.asset a else e.player.asset a } } :
        Estate) = e
    rw [hbuilds, hassets]

theorem atomic_getMyAsset_iff (hr : e.getMyAsset cfg sn now = some r) :
    r.Atomic e ↔ ∀ b level, e.player.myBuild sn = some b → b.bigType = 2 → b.status = 0 →
      cfg.build? b.buildType b.buildLevel = some level → e.Collected cfg sn b level now := by
  unfold getMyAsset at hr
  split at hr
  · next hnone =>
    obtain rfl := Option.some.inj hr
    refine iff_of_true (atomic_refuse (-1)) ?_
    intro b level hb
    exact absurd (hnone.symm.trans hb) (by simp)
  · next b hb =>
    split_ifs at hr with hidle
    · obtain ⟨level, hlevel, hr⟩ := Option.bind_eq_some_iff.mp hr
      obtain rfl := Option.some.inj hr
      constructor
      · intro hatomic b' level' hb' _ _ hlevel'
        obtain rfl := Option.some.inj (hb.symm.trans hb')
        obtain rfl := Option.some.inj (hlevel.symm.trans hlevel')
        obtain ⟨hctime, hyield, hbuild, hmaterial⟩ :=
          (fetched_eq_iff hb).mp (hatomic (-1) rfl (by decide))
        exact ⟨hctime, hyield, hbuild, hmaterial⟩
      · intro hcollected _ _ _
        obtain ⟨hctime, hyield, hbuild, hmaterial⟩ := hcollected b level hb hidle.1 hidle.2 hlevel
        exact (fetched_eq_iff hb).mpr ⟨hctime, hyield, hbuild, hmaterial⟩
    · obtain rfl := Option.some.inj hr
      refine iff_of_true (atomic_refuse (-1)) ?_
      intro b' level hb' htype hstatus
      obtain rfl := Option.some.inj (hb.symm.trans hb')
      exact absurd ⟨htype, hstatus⟩ hidle

end Estate

/-! ## The goods -/

namespace World
variable {w : World} {u : UInt32} {o : Outcome}

theorem atomic_refuse (result : Int) : (w.refuse result).Atomic w := fun _ _ _ => rfl

theorem atomic_refused (h : o.Refused w) : o.Atomic w := by
  obtain ⟨result, -, rfl⟩ := h
  exact atomic_refuse result

theorem atomic_silent (h : o.result = none) : o.Atomic w := by
  intro result hresult
  exact absurd (h.symm.trans hresult) (by simp)

theorem atomic_accept (h : o.result = some 0) : o.Atomic w := by
  intro result hresult hneg
  obtain rfl := Option.some.inj (h.symm.trans hresult)
  exact absurd hneg (by decide)

theorem atomic_openBox {sn : String} {attr : EquipAttr} (ho : w.openBox u sn attr = some o) :
    o.Atomic w := by
  rcases openBox_cases ho with hrefused | ⟨b, sn', -, -, rfl⟩
  · exact atomic_refused hrefused
  · exact atomic_silent rfl

theorem atomic_dressEquip {whichHero backpackPosition heroPosition : Int}
    (ho : w.dressEquip u whichHero backpackPosition heroPosition = some o) : o.Atomic w := by
  rcases dressEquip_cases ho with hrefused | ⟨h, i, -, -, ho⟩
  · exact atomic_refused hrefused
  · obtain ⟨-, p, rfl, -⟩ := dressAt_writes ho
    exact atomic_silent rfl

theorem atomic_unloadEquip {whichHero position : Int}
    (ho : w.unloadEquip u whichHero position = some o) : o.Atomic w := by
  rcases unloadEquip_cases ho with hrefused | ⟨h, e, b, -, -, -, -, rfl⟩
  · exact atomic_refused hrefused
  · exact atomic_accept rfl

theorem atomic_saleGoods {position diamondCost : Int}
    (ho : w.saleGoods u position diamondCost = some o) : o.Atomic w := by
  rcases saleGoods_cases ho with hrefused | ⟨-, rfl⟩
  · exact atomic_refused hrefused
  · exact atomic_accept rfl

theorem atomic_buyMarketGoods {goodsSn key : String}
    (ho : w.buyMarketGoods u goodsSn key = some o) : o.Atomic w := by
  unfold buyMarketGoods at ho
  dsimp only at ho
  split at ho
  · exact Option.some.inj ho ▸ atomic_refuse (-1)
  split at ho
  · exact Option.some.inj ho ▸ atomic_refuse (-1)
  · exact Option.some.inj ho ▸ atomic_refuse spaceNotEnough
  split_ifs at ho
  · obtain ⟨key', -, ho⟩ := Option.bind_eq_some_iff.mp ho
    exact Option.some.inj ho ▸ atomic_accept rfl
  · exact Option.some.inj ho ▸ atomic_refuse moneyNotEnough

theorem setEstate_estate (w : World) (u : UInt32) : w.setEstate u (w.estate u) = w := by
  unfold setEstate estate
  rw [Function.update_eq_self, Function.update_eq_self]

theorem estate_setEstate (w : World) (u : UInt32) (e : Estate) :
    (w.setEstate u e).estate u = e := by
  unfold setEstate estate
  dsimp only
  rw [Function.update_self, Function.update_self]

end World

/-! ## The services -/

namespace LoginWorker
variable {cfg : Config} {s t : LoginWorker} {now : Int} {reply : ServiceReply}

def OnlyRefuses (cfg : Config) (s : LoginWorker) (now : Int) : Request → Prop
  | .setName name =>
    checkString name = true → s.registry.nickname name = none → s.loginStatus = true
  | .bindEmail email passwd =>
    checkStringSpace email = true → checkStringSpace passwd = true →
      (∀ u row, s.registry.userInfo.find u = some row → row.1 ≠ email) →
        s.registry.userInfo.find s.playerUuid ≠ none → s.loginStatus = true
  | .getMyAsset sn => ∀ b level, s.player.myBuild sn = some b → b.bigType = 2 → b.status = 0 →
    cfg.build? b.buildType b.buildLevel = some level →
      (s.world.estate s.playerUuid).Collected cfg sn b level now
  | .getRandName sex _ result =>
    (if sex ≠ 1 then s.registry.boyName else s.registry.girlName) = [] → result < 0 →
      s.isMan = decide (sex ≠ 1)
  | .dropHero heroSn => ∀ h, 1 ≤ heroSn → heroSn ≤ 6 →
    s.player.myHero (heroSn - 1).toNat = some h → s.player.heroEquip h.heroUuid ≠ []
  | _ => True

theorem atomic_refuse (result : Int) : (s.refuse result).Atomic s := fun _ _ _ => rfl

theorem atomic_accepted (h : ∀ result ∈ reply.results, 0 ≤ result) : reply.Atomic s := by
  intro result hresult hneg
  exact absurd (h result hresult) (by omega)

theorem onEstate_worker_eq_iff {answer : Answer} :
    { s with world := s.world.setEstate s.playerUuid answer.estate } = s ↔
      answer.estate = s.world.estate s.playerUuid := by
  constructor
  · intro h
    have hestate := congrArg (fun t : LoginWorker => t.world.estate s.playerUuid) h
    rwa [World.estate_setEstate] at hestate
  · intro h
    rw [h, World.setEstate_estate]

theorem atomic_onEstate_iff {handler : Estate → Option Answer} {answer : Answer}
    (hanswer : handler (s.world.estate s.playerUuid) = some answer)
    (hr : s.onEstate handler = some reply) :
    reply.Atomic s ↔ answer.Atomic (s.world.estate s.playerUuid) := by
  unfold onEstate World.onEstate at hr
  rw [hanswer] at hr
  obtain rfl := Option.some.inj hr
  constructor
  · intro hatomic result hresult hneg
    exact onEstate_worker_eq_iff.mp (hatomic result (Option.mem_toList.mpr hresult) hneg)
  · intro hatomic result hresult hneg
    exact onEstate_worker_eq_iff.mpr (hatomic result (Option.mem_toList.mp hresult) hneg)

theorem atomic_onEstate {handler : Estate → Option Answer}
    (hatomic : ∀ e answer, handler e = some answer → answer.Atomic e)
    (hr : s.onEstate handler = some reply) : reply.Atomic s := by
  have hhandler : ∃ answer, handler (s.world.estate s.playerUuid) = some answer := by
    obtain ⟨o, ho, -⟩ := Option.map_eq_some_iff.mp hr
    obtain ⟨answer, hanswer, -⟩ := Option.map_eq_some_iff.mp ho
    exact ⟨answer, hanswer⟩
  obtain ⟨answer, hanswer⟩ := hhandler
  exact (atomic_onEstate_iff hanswer hr).mpr (hatomic _ _ hanswer)

theorem atomic_onGoods {o : Outcome} {written : Player → List Equip} (ho : o.Atomic s.world)
    (hwritten : ∀ result, o.result = some result → result < 0 → written s.player = [])
    (hr : s.onGoods (some o) written = some reply) : reply.Atomic s := by
  obtain rfl := Option.some.inj hr
  intro result hresult hneg
  have hresult' := Option.mem_toList.mp hresult
  have hsame := ho result hresult' hneg
  dsimp only
  rw [hsame]
  show s.setRecord ((written s.player).foldl Records.setEquip s.record) = s
  rw [hwritten result hresult' hneg]
  exact setRecord_self

theorem atomic_dressEquip {whichHero backpackPosition heroPosition : Int}
    (hr : s.dressEquip whichHero backpackPosition heroPosition = some reply) :
    reply.Atomic s := by
  obtain ⟨o, ho, hr⟩ := Option.bind_eq_some_iff.mp hr
  split at hr
  · next h hsilent _ =>
    obtain ⟨reply', hreply, hr⟩ := Option.bind_eq_some_iff.mp hr
    obtain rfl := Option.some.inj hr
    obtain rfl := Option.some.inj hreply
    apply atomic_accepted
    intro result hresult
    dsimp only at hresult
    rw [hsilent] at hresult
    exact absurd hresult List.not_mem_nil
  · exact atomic_onGoods (World.atomic_dressEquip ho) (fun _ _ _ => rfl) hr

theorem atomic_unloadEquip {whichHero position : Int}
    (hr : s.unloadEquip whichHero position = some reply) : reply.Atomic s := by
  obtain ⟨o, ho, hr⟩ := Option.bind_eq_some_iff.mp hr
  split at hr
  · next h b hzero _ _ =>
    obtain ⟨reply', hreply, hr⟩ := Option.bind_eq_some_iff.mp hr
    obtain rfl := Option.some.inj hr
    obtain rfl := Option.some.inj hreply
    apply atomic_accepted
    intro result hresult
    dsimp only at hresult
    rw [hzero] at hresult
    exact (List.mem_singleton.mp hresult).ge
  · exact atomic_onGoods (World.atomic_unloadEquip ho) (fun _ _ _ => rfl) hr

theorem atomic_saleGoods {position diamondCost : Int}
    (hr : s.saleGoods position diamondCost = some reply) : reply.Atomic s := by
  obtain ⟨o, ho, hr⟩ := Option.bind_eq_some_iff.mp hr
  obtain ⟨reply', hreply, hr⟩ := Option.bind_eq_some_iff.mp hr
  split at hr
  · next hzero =>
    obtain rfl := Option.some.inj hr
    obtain rfl := Option.some.inj hreply
    apply atomic_accepted
    intro result hresult
    dsimp only at hresult
    rw [hzero] at hresult
    exact (List.mem_singleton.mp hresult).ge
  · obtain rfl := Option.some.inj hr
    exact atomic_onGoods (World.atomic_saleGoods ho) (fun _ _ _ => rfl) hreply

theorem atomic_buyMarketGoods {goodsSn key : String}
    (hr : s.buyMarketGoods goodsSn key = some reply) : reply.Atomic s := by
  obtain ⟨o, ho, hr⟩ := Option.bind_eq_some_iff.mp hr
  refine atomic_onGoods (World.atomic_buyMarketGoods ho) ?_ hr
  intro result hresult hneg
  apply if_neg
  intro hzero
  obtain rfl := Option.some.inj (hresult.symm.trans hzero)
  exact absurd hneg (by decide)

theorem atomic_openBox {sn : String} {attr : EquipAttr} (hr : s.openBox sn attr = some reply) :
    reply.Atomic s := by
  obtain ⟨o, ho, hr⟩ := Option.bind_eq_some_iff.mp hr
  refine atomic_onGoods (World.atomic_openBox ho) ?_ hr
  intro result hresult hneg
  apply if_neg
  intro hnone
  exact absurd (hresult.symm.trans hnone) (by simp)

theorem atomic_getEmailGoods {key : String} (hr : s.getEmailGoods key = some reply) :
    reply.Atomic s := by
  cases hmail : s.player.emailSaleList key with
  | none =>
    rw [getEmailGoods_refuse hmail] at hr
    exact Option.some.inj hr ▸ fun _ _ _ => rfl
  | some email =>
    have haccepted : (s.world.getEmailGoods s.playerUuid key).result = some 0 := by
      unfold World.getEmailGoods
      dsimp only
      have hmail' : (s.world.player s.playerUuid).emailSaleList key = some email := hmail
      rw [hmail']
    unfold getEmailGoods at hr
    refine atomic_onGoods (World.atomic_accept haccepted) ?_ hr
    intro result hresult hneg
    obtain rfl := Option.some.inj (haccepted.symm.trans hresult)
    exact absurd hneg (by decide)

theorem atomic_recruit {randomType : Int} {new : NewHeroes}
    (hr : s.recruit cfg randomType new = some reply) : reply.Atomic s := by
  obtain ⟨reply', hreply, hr⟩ := Option.bind_eq_some_iff.mp hr
  split_ifs at hr
  · exact Option.some.inj hr ▸ atomic_onEstate (fun _ _ => Estate.atomic_recruit) hreply
  · obtain rfl := Option.some.inj hr
    exact atomic_accepted fun result hresult => absurd hresult List.not_mem_nil

theorem atomic_accept (t : LoginWorker) : t.accept.Atomic s := by
  apply atomic_accepted
  intro result hresult
  exact (List.mem_singleton.mp hresult).ge

theorem atomic_getRandHero (heroSn : Int) : (s.getRandHero heroSn).Atomic s := by
  unfold getRandHero
  split_ifs
  · split
    · exact atomic_accept _
    · exact atomic_refuse (-1)
  · exact atomic_refuse (-2)

theorem atomic_appointHero (heroUuid : String) (jobTitle : Int) :
    (s.appointHero heroUuid jobTitle).Atomic s := by
  unfold appointHero
  dsimp only
  split
  · exact atomic_accepted fun result hresult => absurd hresult List.not_mem_nil
  · exact atomic_accept _

theorem atomic_cancelHero (heroUuid : String) : (s.cancelHero heroUuid).Atomic s := by
  unfold cancelHero
  split
  · exact atomic_refuse (-1)
  · exact atomic_accept _

theorem atomic_lookMarketGoods (pageNum : Int) : (s.lookMarketGoods pageNum).Atomic s := by
  unfold lookMarketGoods
  dsimp only
  split_ifs
  · exact atomic_refuse (-1)
  · exact fun _ _ _ => rfl

/-! The five services that write before the answer is known, or go on after it. -/

/-- Each hero behind would be the one before him. -/
theorem dropHero_ne {i : ℕ} {h : Hero} {myHero : ℕ → Option Hero} (hi : i < 6)
    (hh : myHero i = some h) :
    (fun k => if k < i ∨ 5 < k then myHero k
      else if k = 5 then none
      else (myHero (k + 1)).map fun h : Hero => { h with heroSn := (k : Int) + 1 }) ≠ myHero := by
  intro hsame
  have hlast : ∀ n, n ≤ 5 - i → myHero (5 - n) = none := by
    intro n
    induction n with
    | zero =>
      intro _
      have hfive := congrFun hsame 5
      rw [if_neg (by omega), if_pos rfl] at hfive
      exact hfive.symm
    | succ n ih =>
      intro hn
      have hnext := congrFun hsame (5 - (n + 1))
      have hsucc : 5 - (n + 1) + 1 = 5 - n := by omega
      rw [if_neg (by omega), if_neg (by omega), hsucc, ih (by omega)] at hnext
      exact hnext.symm
  have hnone := hlast (5 - i) le_rfl
  have hindex : 5 - (5 - i) = i := by omega
  rw [hindex, hh] at hnone
  exact Option.some_ne_none h hnone

theorem atomic_dropHero_iff {heroSn : Int} (hr : s.dropHero heroSn = some reply) :
    reply.Atomic s ↔ s.OnlyRefuses cfg now (.dropHero heroSn) := by
  unfold dropHero at hr
  rw [if_neg (by omega)] at hr
  split at hr
  · exact absurd hr (by simp)
  dsimp only at hr
  split at hr
  · next hnone =>
    obtain rfl := Option.some.inj hr
    refine iff_of_true (atomic_refuse (-2)) ?_
    intro h _ _ hh
    exact absurd (hnone.symm.trans hh) (by simp)
  · next hrange h hh =>
    split at hr
    · next hslots =>
      obtain rfl := Option.some.inj hr
      refine iff_of_true (atomic_refuse (-2)) ?_
      intro g _ _ hg
      obtain rfl := Option.some.inj (hh.symm.trans hg)
      exact fun hempty => hslots (hempty ▸ rfl)
    · next hslots =>
      obtain rfl := Option.some.inj hr
      refine iff_of_false ?_ ?_
      · intro hatomic
        have hsame := hatomic (-2) (by simp) (by decide)
        have hmine := congrArg (fun t : LoginWorker => t.player.myHero) hsame
        dsimp only at hmine
        rw [player_setRecord, player_setPlayer] at hmine
        exact dropHero_ne (by omega) hh hmine
      · intro honly
        refine honly h (by omega) (by omega) hh ?_
        exact List.length_eq_zero_iff.mp (not_not.mp hslots)

theorem atomic_setName_iff {name : String} (hr : s.setName name = some reply) :
    reply.Atomic s ↔ s.OnlyRefuses cfg now (.setName name) := by
  obtain ⟨⟨set, t⟩, ht, hr⟩ := Option.bind_eq_some_iff.mp hr
  obtain rfl := Option.some.inj hr
  unfold setUserName at ht
  split_ifs at ht with hinvalid hformat hused
  · obtain ⟨rfl, rfl⟩ := Prod.mk.inj (Option.some.inj ht)
    refine iff_of_true (atomic_refuse uuidPasswdError) ?_
    intro hvalid
    rw [hvalid] at hinvalid
    exact absurd hinvalid (by decide)
  · obtain ⟨rfl, rfl⟩ := Prod.mk.inj (Option.some.inj ht)
    refine iff_of_true (atomic_refuse uuidPasswdError) ?_
    intro _ hfree
    rw [hfree] at hused
    exact absurd hused (by decide)
  · obtain ⟨rfl, rfl⟩ := Prod.mk.inj (Option.some.inj ht)
    dsimp only
    cases hlogin : s.loginStatus with
    | true => exact iff_of_true (atomic_accept _) fun _ _ => hlogin
    | false =>
      refine iff_of_false ?_ ?_
      · intro hatomic
        have hsame := hatomic uuidPasswdError List.mem_cons_self (by decide)
        have hname : Function.update s.registry.nickname name (some s.playerUuid) name =
          s.registry.nickname name :=
            congrArg (fun t : LoginWorker => t.registry.nickname name) hsame
        rw [Function.update_self] at hname
        rw [← hname] at hused
        exact hused rfl
      · intro honly
        have hvalid : checkString name = true := by simpa using hinvalid
        have hfree : s.registry.nickname name = none := by simpa using hused
        exact absurd ((honly hvalid hfree).symm.trans hlogin) (by decide)

theorem used_iff {rows : Keyspace UInt32 (String × String)} {email : String} :
    (rows.keys.any fun u => (rows.find u).any fun row => row.1 = email) = true ↔
      ∃ u row, rows.find u = some row ∧ row.1 = email := by
  rw [List.any_eq_true]
  constructor
  · rintro ⟨u, -, hu⟩
    cases hrow : rows.find u with
    | none =>
      rw [hrow] at hu
      exact absurd hu Bool.false_ne_true
    | some row =>
      rw [hrow] at hu
      exact ⟨u, row, hrow, of_decide_eq_true hu⟩
  · rintro ⟨u, row, hrow, hemail⟩
    refine ⟨u, Keyspace.mem_keys_of_find hrow, ?_⟩
    rw [hrow]
    exact decide_eq_true hemail

def bound (s : LoginWorker) (email passwd : String) : LoginWorker :=
  let rows := s.registry.userInfo
  let userInfo :=
    if (rows.find s.playerUuid).isSome then rows.set s.playerUuid (email, passwd) else rows
  { s with registry := { s.registry with userInfo } }

theorem bindUserEmail_cases (email passwd : String) :
    (s.bindUserEmail email passwd = (false, s) ∧ ¬ (checkStringSpace email = true ∧
        checkStringSpace passwd = true ∧
          ∀ u row, s.registry.userInfo.find u = some row → row.1 ≠ email)) ∨
      (s.bindUserEmail email passwd = (true, s.bound email passwd) ∧
        checkStringSpace email = true ∧ checkStringSpace passwd = true ∧
          ∀ u row, s.registry.userInfo.find u = some row → row.1 ≠ email) := by
  have hvalid : (!checkStringSpace email || !checkStringSpace passwd) = false →
      checkStringSpace email = true ∧ checkStringSpace passwd = true := by
    intro h
    simpa using h
  have hfree : ∀ rows : Keyspace UInt32 (String × String),
      ¬ (rows.keys.any fun u => (rows.find u).any fun row => row.1 = email) = true →
        ∀ u row, rows.find u = some row → row.1 ≠ email :=
    fun _ hused u row hrow hemail => hused (used_iff.mpr ⟨u, row, hrow, hemail⟩)
  unfold bindUserEmail
  dsimp only
  split_ifs with hinvalid hused hrow
  · refine .inl ⟨rfl, ?_⟩
    rintro ⟨hemail, hpasswd, -⟩
    rw [hemail, hpasswd] at hinvalid
    exact absurd hinvalid (by decide)
  · refine .inl ⟨rfl, ?_⟩
    rintro ⟨-, -, hunused⟩
    obtain ⟨u, row, hrow, hemail⟩ := used_iff.mp hused
    exact hunused u row hrow hemail
  · obtain ⟨hemail, hpasswd⟩ := hvalid (Bool.eq_false_iff.mpr hinvalid)
    refine .inr ⟨?_, hemail, hpasswd, hfree _ hused⟩
    unfold bound
    dsimp only
    rw [if_pos hrow]
  · obtain ⟨hemail, hpasswd⟩ := hvalid (Bool.eq_false_iff.mpr hinvalid)
    refine .inr ⟨?_, hemail, hpasswd, hfree _ hused⟩
    unfold bound
    dsimp only
    rw [if_neg hrow]

theorem bound_eq_iff {email passwd : String}
    (hunused : ∀ u row, s.registry.userInfo.find u = some row → row.1 ≠ email) :
    s.bound email passwd = s ↔ s.registry.userInfo.find s.playerUuid = none := by
  constructor
  · intro hsame
    by_contra hrow
    obtain ⟨row, hrow⟩ := Option.ne_none_iff_exists'.mp hrow
    have hfind := congrArg (fun t : LoginWorker => t.registry.userInfo.find s.playerUuid) hsame
    unfold bound at hfind
    dsimp only at hfind
    rw [hrow, Option.isSome_some, if_pos rfl, Keyspace.find_set, Function.update_self] at hfind
    exact hunused s.playerUuid row hrow (congrArg Prod.fst (Option.some.inj hfind)).symm
  · intro hnone
    unfold bound
    dsimp only
    rw [hnone, if_neg (by decide)]

theorem atomic_bindEmail_iff {email passwd : String} :
    (s.bindEmail email passwd).Atomic s ↔ s.OnlyRefuses cfg now (.bindEmail email passwd) := by
  unfold bindEmail
  rcases bindUserEmail_cases (s := s) email passwd with
    ⟨hrefused, hchecks⟩ | ⟨hbound, hemail, hpasswd, hunused⟩
  · rw [hrefused]
    refine iff_of_true (atomic_refuse emailIsExsit) ?_
    intro hemail hpasswd hunused
    exact absurd ⟨hemail, hpasswd, hunused⟩ hchecks
  · rw [hbound]
    dsimp only
    have hstatus : (s.bound email passwd).loginStatus = s.loginStatus := rfl
    rw [hstatus]
    cases hlogin : s.loginStatus with
    | true => exact iff_of_true (atomic_accept _) fun _ _ _ _ => hlogin
    | false =>
      have hatomic : ((s.bound email passwd).refuse emailIsExsit).Atomic s ↔
          s.bound email passwd = s :=
        ⟨fun h => h emailIsExsit List.mem_cons_self (by decide), fun h _ _ _ => h⟩
      rw [Bool.and_false, if_neg Bool.false_ne_true, hatomic, bound_eq_iff hunused]
      constructor
      · exact fun hnone _ _ _ hrow => absurd hnone hrow
      · intro honly
        by_contra hrow
        exact absurd ((honly hemail hpasswd hunused hrow).symm.trans hlogin) (by decide)

theorem atomic_getRandName_iff {sex result : Int} {name : String}
    (hr : s.getRandName sex name result = some reply) :
    reply.Atomic s ↔ s.OnlyRefuses cfg now (.getRandName sex name result) := by
  have hpool : (if decide (sex ≠ 1) = true then s.registry.boyName else s.registry.girlName) =
      if sex ≠ 1 then s.registry.boyName else s.registry.girlName := by
    simp only [decide_eq_true_eq]
  unfold getRandName at hr
  dsimp only at hr
  rw [hpool] at hr
  by_cases hempty : (if sex ≠ 1 then s.registry.boyName else s.registry.girlName) = []
  · rw [if_pos hempty] at hr
    obtain rfl := Option.some.inj hr
    constructor
    · intro hatomic _ hneg
      have hsame := hatomic result List.mem_cons_self hneg
      exact (congrArg LoginWorker.isMan hsame).symm
    · intro honly _ hresult hneg
      obtain rfl := List.mem_singleton.mp hresult
      have hman := honly hempty hneg
      show { s with isMan := decide (sex ≠ 1) } = s
      rw [← hman]
  · rw [if_neg hempty] at hr
    refine iff_of_true ?_ fun h => absurd h hempty
    obtain ⟨-, hr⟩ := Option.ite_none_right_eq_some.mp hr
    obtain rfl := Option.some.inj hr
    exact atomic_accepted fun result hresult => absurd hresult List.not_mem_nil

/-- A negative result comes with the state as it was exactly when the request is one of those
that only refuse. -/
theorem atomic_serve_iff {r : Request} (hr : s.serve cfg now r = some reply) :
    reply.Atomic s ↔ s.OnlyRefuses cfg now r := by
  cases r with
  | setName name => exact atomic_setName_iff hr
  | bindEmail email passwd =>
    obtain rfl := Option.some.inj hr
    exact atomic_bindEmail_iff
  | buildStatusList sns =>
    refine iff_of_true (atomic_onEstate (fun e answer hanswer => ?_) hr) trivial
    exact Option.some.inj hanswer ▸ Estate.atomic_silent rfl
  | buildCreate type sn =>
    exact iff_of_true (atomic_onEstate (fun _ _ => Estate.atomic_buildCreate) hr) trivial
  | buildUpgrade sn =>
    exact iff_of_true (atomic_onEstate (fun _ _ => Estate.atomic_buildUpgrade) hr) trivial
  | getMyAsset sn =>
    have hestate : s.onEstate (fun e => e.getMyAsset cfg sn now) = some reply := hr
    obtain ⟨o, ho, -⟩ := Option.map_eq_some_iff.mp hestate
    obtain ⟨answer, hanswer, -⟩ := Option.map_eq_some_iff.mp ho
    rw [atomic_onEstate_iff hanswer hestate]
    exact Estate.atomic_getMyAsset_iff hanswer
  | getRandName sex name result => exact atomic_getRandName_iff hr
  | dressEquip whichHero backpackPosition heroPosition =>
    exact iff_of_true (atomic_dressEquip hr) trivial
  | unloadEquip whichHero position => exact iff_of_true (atomic_unloadEquip hr) trivial
  | saleGoods position diamondCost => exact iff_of_true (atomic_saleGoods hr) trivial
  | lookMarketGoods pageNum =>
    obtain rfl := Option.some.inj hr
    exact iff_of_true (atomic_lookMarketGoods pageNum) trivial
  | buyMarketGoods goodsSn emailUuid => exact iff_of_true (atomic_buyMarketGoods hr) trivial
  | openBox sn attr => exact iff_of_true (atomic_openBox hr) trivial
  | recruit randomType new => exact iff_of_true (atomic_recruit hr) trivial
  | getRandHero heroSn =>
    obtain rfl := Option.some.inj hr
    exact iff_of_true (atomic_getRandHero heroSn) trivial
  | dropHero heroSn => exact atomic_dropHero_iff hr
  | getEmailGoods emailUuid => exact iff_of_true (atomic_getEmailGoods hr) trivial
  | fastFinish sn =>
    exact iff_of_true (atomic_onEstate (fun _ _ => Estate.atomic_fastFinish) hr) trivial
  | appointHero heroUuid jobTitle =>
    obtain rfl := Option.some.inj hr
    exact iff_of_true (atomic_appointHero heroUuid jobTitle) trivial
  | cancelHero heroUuid =>
    obtain rfl := Option.some.inj hr
    exact iff_of_true (atomic_cancelHero heroUuid) trivial

theorem atomic_serve_iff_upgrade : ∃ reply,
    ({} : LoginWorker).serve {} 0 (.buildUpgrade "farm") = some reply ∧ reply.results = [-1] ∧
      (reply.Atomic {} ↔ ({} : LoginWorker).OnlyRefuses {} 0 (.buildUpgrade "farm")) :=
  ⟨_, rfl, rfl, atomic_serve_iff rfl⟩

/-- The wood of an hour is fetched, and the answer is -1. -/
theorem not_atomic_getMyAsset :
    ¬ ∀ (cfg : Config) (s : LoginWorker) (now : Int) (r : Request) (reply : ServiceReply),
      s.serve cfg now r = some reply → reply.Atomic s := by
  intro hall
  let cfg : Config := { globalBuild := List.replicate 9 [{ output := 100, space := 1000 }] }
  let farm : Build := { bigType := 2, buildType := 8 }
  let s : LoginWorker := { world := { player := fun _ =>
    { myBuild := Function.update (fun _ => none) "farm" (some farm) } } }
  have hserve : ((s.serve cfg 3600 (.getMyAsset "farm")).map fun reply =>
      (reply.results, reply.worker.player.asset .wood)) = some ([-1], 100) := by decide
  obtain ⟨reply, hreply, hresult⟩ := Option.map_eq_some_iff.mp hserve
  obtain ⟨hresults, hwood⟩ := Prod.mk.inj hresult
  have hsame := hall cfg s 3600 (.getMyAsset "farm") reply hreply (-1)
    (hresults ▸ List.mem_cons_self) (by decide)
  rw [hsame] at hwood
  exact absurd hwood (by decide)

end LoginWorker

end IceBridge.Gateway
