import IceBridge.Gateway.Heroes
import IceBridge.Gateway.Refusals

/-! The services before the login. The dispatcher calls them all the same; most find that there is
nothing loaded and refuse, but some write what they are asked to. -/

namespace IceBridge.Gateway

namespace LoginWorker
variable {cfg : Config} {s t : LoginWorker} {now : Int} {reply : ServiceReply}

def Request.ForAccount : Request → Prop
  | .getRandName .. => False
  | _ => True

structure SameStores (s t : LoginWorker) : Prop where
  store : t.world.store = s.world.store
  emailSale : t.world.emailSale = s.world.emailSale
  gloabalMarket : t.world.gloabalMarket = s.world.gloabalMarket
  marketIndex : t.world.marketIndex = s.world.marketIndex
  findUserUuid : t.world.findUserUuid = s.world.findUserUuid
  records : t.records = s.records
  registry : t.registry = s.registry

/-- A request for the game or the account has no effect without a login. -/
def NeedsLogin (cfg : Config) (s : LoginWorker) : SessionEvent → Prop
  | .request r now => r.ForAccount → s.loginStatus = false →
    ∀ reply, s.serve cfg now r = some reply → SameStores s reply.worker
  | _ => True

def Harmless (cfg : Config) (s : LoginWorker) : Request → Prop
  | .setName name => checkString name = true → s.registry.nickname name ≠ none
  | .bindEmail email passwd => checkStringSpace email = true → checkStringSpace passwd = true →
    (∀ u row, s.registry.userInfo.find u = some row → row.1 ≠ email) →
      s.registry.userInfo.find s.playerUuid = none
  | .buildStatusList _ => ∀ sn, (s.world.store s.playerUuid).build sn = none
  | .openBox _ _ => s.player.getBackpack = none
  | .buyMarketGoods goodsSn _ => ∀ i e, s.world.marketIndex goodsSn = some i →
    s.world.gloabalMarket[i]? = some e → s.player.getBackpack ≠ none →
      s.player.asset .diamond < e.diamondCost
  | .recruit randomType _ => 0 < randomType → randomType < cfg.heroUpdateConfig.length →
    ∀ diamond, cfg.heroUpdateConfig[(randomType - 1).toNat]? = some diamond →
      s.player.asset .diamond < diamond
  | _ => True

def HarmlessEvent (cfg : Config) (s : LoginWorker) : SessionEvent → Prop
  | .request r _ => s.loginStatus = false → s.Harmless cfg r
  | _ => True

structure Blank (s : LoginWorker) : Prop where
  myBuild : ∀ sn, s.player.myBuild sn = none
  backpackStatus : ∀ i, s.player.backpackStatus i = false
  myHero : ∀ i, s.player.myHero i = none
  emailSaleList : ∀ key, s.player.emailSaleList key = none
  randHero : ∀ i, s.randHero i = none

theorem onEstate_worker {handler : Estate → Option Answer}
    (hsame : ∀ answer, handler (s.world.estate s.playerUuid) = some answer →
      answer.estate = s.world.estate s.playerUuid)
    (hr : s.onEstate handler = some reply) : reply.worker = s := by
  obtain ⟨o, ho, rfl⟩ := Option.map_eq_some_iff.mp hr
  obtain ⟨answer, hanswer, rfl⟩ := Option.map_eq_some_iff.mp ho
  exact onEstate_worker_eq_iff.mpr (hsame answer hanswer)

end LoginWorker

namespace Estate
variable {cfg : Config} {e : Estate} {sn : String} {now : Int} {r : Answer}

/-! Without buildings the works are refused. -/

theorem buildCreate_blank (he : ∀ sn, e.player.myBuild sn = none) {type : Int}
    (hr : e.buildCreate cfg type sn now = some r) : r.estate = e := by
  rcases buildCreate_cases hr with ⟨-, hsame⟩ | ⟨⟨-, -, _, hall, _, -, hhall, -⟩, -⟩
  · exact hsame
  · exact absurd ((he _).symm.trans hhall) (by simp)

theorem buildUpgrade_blank (he : ∀ sn, e.player.myBuild sn = none)
    (hr : e.buildUpgrade cfg sn now = some r) : r.estate = e := by
  rcases buildUpgrade_cases hr with ⟨-, hsame⟩ | ⟨⟨hall, _, _, _, hhall, -⟩, -⟩
  · exact hsame
  · exact absurd ((he _).symm.trans hhall) (by simp)

theorem getMyAsset_blank (he : ∀ sn, e.player.myBuild sn = none)
    (hr : e.getMyAsset cfg sn now = some r) : r.estate = e := by
  unfold getMyAsset at hr
  rw [he] at hr
  exact Option.some.inj hr ▸ rfl

theorem fastFinish_blank (he : ∀ sn, e.player.myBuild sn = none)
    (hr : e.fastFinish cfg sn now = some r) : r.estate = e := by
  rcases fastFinish_cases hr with ⟨-, hsame⟩ | ⟨⟨b, hb, -⟩, -⟩
  · exact hsame
  · exact absurd ((he _).symm.trans hb) (by simp)

theorem buildStatusList_blank (he : ∀ sn, e.player.myBuild sn = none)
    (hstore : ∀ sn, e.store.build sn = none) (sns : List String) :
    (e.buildStatusList sns now).estate = e := by
  have hloaded : e.getBuildMap now = e := by
    unfold getBuildMap
    have hmine : (fun sn => (e.store.build sn).map fun b => loaded b now) = e.player.myBuild := by
      funext sn
      rw [hstore, he]
      rfl
    rw [hmine]
  unfold buildStatusList
  dsimp only
  rw [hloaded]
  induction sns with
  | nil => rfl
  | cons sn sns ih =>
    rw [List.foldl_cons, he]
    exact ih

end Estate

namespace LoginWorker
variable {cfg : Config} {s t : LoginWorker} {now : Int} {reply : ServiceReply}

namespace Blank

/-! Neither is there an equip, a hero or an email. -/

theorem dressEquip (hs : s.Blank) {whichHero backpackPosition heroPosition : Int}
    (hr : s.dressEquip whichHero backpackPosition heroPosition = some reply) :
    reply.worker = s := by
  obtain ⟨o, ho, -⟩ := Option.bind_eq_some_iff.mp hr
  rcases World.dressEquip_cases ho with ⟨result, -, rfl⟩ | ⟨h, i, hstatus, -⟩
  · rw [dressEquip_refuse ho] at hr
    exact Option.some.inj hr ▸ rfl
  · exact absurd ((hs.backpackStatus _).symm.trans hstatus) (by decide)

theorem unloadEquip (hs : s.Blank) {whichHero position : Int}
    (hr : s.unloadEquip whichHero position = some reply) : reply.worker = s := by
  obtain ⟨o, ho, -⟩ := Option.bind_eq_some_iff.mp hr
  rcases World.unloadEquip_cases ho with ⟨result, hneg, rfl⟩ | ⟨h, e, b, hh, -⟩
  · rw [unloadEquip_refuse hneg.ne ho] at hr
    exact Option.some.inj hr ▸ rfl
  · exact absurd ((hs.myHero _).symm.trans hh) (by simp)

theorem saleGoods (hs : s.Blank) {position diamondCost : Int}
    (hr : s.saleGoods position diamondCost = some reply) : reply.worker = s := by
  obtain ⟨o, ho, -⟩ := Option.bind_eq_some_iff.mp hr
  rcases World.saleGoods_cases ho with ⟨result, hneg, rfl⟩ | ⟨hstatus, -⟩
  · rw [saleGoods_refuse hneg.ne ho] at hr
    exact Option.some.inj hr ▸ rfl
  · exact absurd ((hs.backpackStatus _).symm.trans hstatus) (by decide)

theorem getRandHero (hs : s.Blank) (heroSn : Int) : (s.getRandHero heroSn).worker = s := by
  unfold LoginWorker.getRandHero
  split_ifs
  · split
    · next position h _ hh => exact absurd ((hs.randHero _).symm.trans hh) (by simp)
    · rfl
  · rfl

theorem dropHero (hs : s.Blank) {heroSn : Int} (hr : s.dropHero heroSn = some reply) :
    reply.worker = s :=
  Slotted.dropHero (fun i _ hh => absurd ((hs.myHero i).symm.trans hh) (by simp)) hr

theorem findHero (hs : s.Blank) (test : Hero → Bool) :
    LoginWorker.findHero s.player test = none := by
  refine List.findSome?_eq_none_iff.mpr ?_
  intro i _
  rw [hs.myHero]
  rfl

theorem appointHero (hs : s.Blank) (heroUuid : String) (jobTitle : Int) :
    (s.appointHero heroUuid jobTitle).worker = s := by
  unfold LoginWorker.appointHero
  dsimp only
  rw [hs.findHero]
  dsimp only
  rw [hs.findHero]

theorem cancelHero (hs : s.Blank) (heroUuid : String) : (s.cancelHero heroUuid).worker = s := by
  unfold LoginWorker.cancelHero
  rw [hs.findHero]
  rfl

end Blank

/-! The services that need more than an empty session. -/

theorem openBox_full {sn : String} {attr : EquipAttr} (hfull : s.player.getBackpack = none)
    (hr : s.openBox sn attr = some reply) : reply.worker = s := by
  obtain ⟨o, ho, -⟩ := Option.bind_eq_some_iff.mp hr
  rcases World.openBox_cases ho with ⟨result, -, rfl⟩ | ⟨b, sn', hb, -⟩
  · rw [openBox_refuse ho] at hr
    exact Option.some.inj hr ▸ rfl
  · exact absurd (hfull.symm.trans hb) (by simp)

theorem buyMarketGoods_poor {goodsSn key : String}
    (hpoor : ∀ i e, s.world.marketIndex goodsSn = some i → s.world.gloabalMarket[i]? = some e →
      s.player.getBackpack ≠ none → s.player.asset .diamond < e.diamondCost)
    (hr : s.buyMarketGoods goodsSn key = some reply) : reply.worker = s := by
  have hrefused : ∃ result, result ≠ 0 ∧
      s.world.buyMarketGoods s.playerUuid goodsSn key = some (s.world.refuse result) := by
    unfold World.buyMarketGoods
    dsimp only
    split
    · exact ⟨-1, by decide, rfl⟩
    · next i hi =>
      split
      · exact ⟨-1, by decide, rfl⟩
      · exact ⟨spaceNotEnough, by decide, rfl⟩
      · next e b he hb =>
        have hfree : s.player.getBackpack ≠ none := by
          intro hnone
          exact absurd (hnone.symm.trans hb) (by simp)
        have hlt := hpoor i e hi he hfree
        have hmoney : ¬ e.diamondCost ≤ (s.world.player s.playerUuid).asset .diamond := by
          show ¬ e.diamondCost ≤ s.player.asset .diamond
          omega
        rw [if_neg hmoney]
        exact ⟨moneyNotEnough, by decide, rfl⟩
  obtain ⟨result, hresult, hrefused⟩ := hrefused
  rw [buyMarketGoods_refuse hresult hrefused] at hr
  exact Option.some.inj hr ▸ rfl

theorem recruit_poor {randomType : Int} {new : NewHeroes}
    (hpoor : 0 < randomType → randomType < cfg.heroUpdateConfig.length →
      ∀ diamond, cfg.heroUpdateConfig[(randomType - 1).toNat]? = some diamond →
        s.player.asset .diamond < diamond)
    (hr : s.recruit cfg randomType new = some reply) : reply.worker = s := by
  have hrefused : ∀ answer, (s.world.estate s.playerUuid).recruit cfg randomType = some answer →
      answer = (s.world.estate s.playerUuid).refuse (-1) := by
    intro answer hanswer
    unfold Estate.recruit at hanswer
    split at hanswer
    · next hrange =>
      obtain ⟨diamond, hdiamond, hanswer⟩ := Option.bind_eq_some_iff.mp hanswer
      have hlt := hpoor hrange.1 hrange.2 diamond hdiamond
      have hpoor' : ¬ diamond ≤ (s.world.estate s.playerUuid).player.asset .diamond := by
        show ¬ diamond ≤ s.player.asset .diamond
        omega
      rw [if_neg hpoor'] at hanswer
      exact (Option.some.inj hanswer).symm
    · exact (Option.some.inj hanswer).symm
  obtain ⟨reply', hreply, hr⟩ := Option.bind_eq_some_iff.mp hr
  have hsame : reply'.worker = s := onEstate_worker (fun answer hanswer => by
    rw [hrefused answer hanswer]
    rfl) hreply
  have hresults : reply'.results ≠ [] := by
    obtain ⟨o, ho, rfl⟩ := Option.map_eq_some_iff.mp hreply
    obtain ⟨answer, hanswer, rfl⟩ := Option.map_eq_some_iff.mp ho
    rw [hrefused answer hanswer]
    exact List.cons_ne_nil _ _
  rw [if_pos hresults] at hr
  exact Option.some.inj hr ▸ hsame

theorem setName_refused {name : String}
    (hname : checkString name = true → s.registry.nickname name ≠ none)
    (hr : s.setName name = some reply) : reply.worker = s := by
  obtain ⟨⟨set, t⟩, ht, hr⟩ := Option.bind_eq_some_iff.mp hr
  obtain rfl := Option.some.inj hr
  have hsame : t = s := by
    unfold setUserName at ht
    split_ifs at ht with hinvalid hformat hused
    · exact (Prod.mk.inj (Option.some.inj ht)).2.symm
    · exact (Prod.mk.inj (Option.some.inj ht)).2.symm
    · have hvalid : checkString name = true := by simpa using hinvalid
      have hfree : s.registry.nickname name = none := by simpa using hused
      exact absurd hfree (hname hvalid)
  rw [hsame]
  split_ifs
  · rfl
  · rfl

theorem bindEmail_refused {email passwd : String}
    (hrow : checkStringSpace email = true → checkStringSpace passwd = true →
      (∀ u row, s.registry.userInfo.find u = some row → row.1 ≠ email) →
        s.registry.userInfo.find s.playerUuid = none) :
    (s.bindEmail email passwd).worker = s := by
  have hsame : (s.bindUserEmail email passwd).2 = s := by
    rcases bindUserEmail_cases (s := s) email passwd with
      ⟨hrefused, -⟩ | ⟨hbound, hemail, hpasswd, hunused⟩
    · rw [hrefused]
    · rw [hbound]
      exact (bound_eq_iff hunused).mpr (hrow hemail hpasswd hunused)
  unfold bindEmail
  dsimp only
  rw [hsame]
  split_ifs
  · rfl
  · rfl

/-- A harmless request to an empty session leaves all as it was. -/
theorem Blank.serve (hs : s.Blank) {r : Request} (hharmless : s.Harmless cfg r)
    (haccount : r.ForAccount) (hr : s.serve cfg now r = some reply) : reply.worker = s := by
  have hbuild : ∀ sn, (s.world.estate s.playerUuid).player.myBuild sn = none := hs.myBuild
  cases r with
  | setName name => exact setName_refused hharmless hr
  | bindEmail email passwd => exact Option.some.inj hr ▸ bindEmail_refused hharmless
  | buildStatusList sns =>
    refine onEstate_worker (fun answer hanswer => ?_) hr
    exact Option.some.inj hanswer ▸ Estate.buildStatusList_blank hbuild hharmless sns
  | buildCreate type sn => exact onEstate_worker (fun _ => Estate.buildCreate_blank hbuild) hr
  | buildUpgrade sn => exact onEstate_worker (fun _ => Estate.buildUpgrade_blank hbuild) hr
  | getMyAsset sn => exact onEstate_worker (fun _ => Estate.getMyAsset_blank hbuild) hr
  | getRandName sex name result => exact haccount.elim
  | dressEquip whichHero backpackPosition heroPosition => exact hs.dressEquip hr
  | unloadEquip whichHero position => exact hs.unloadEquip hr
  | saleGoods position diamondCost => exact hs.saleGoods hr
  | lookMarketGoods pageNum =>
    obtain rfl := Option.some.inj hr
    unfold lookMarketGoods
    dsimp only
    split_ifs
    · rfl
    · rfl
  | buyMarketGoods goodsSn emailUuid => exact buyMarketGoods_poor hharmless hr
  | openBox sn attr => exact openBox_full hharmless hr
  | recruit randomType new => exact recruit_poor hharmless hr
  | getRandHero heroSn => exact Option.some.inj hr ▸ hs.getRandHero heroSn
  | dropHero heroSn => exact hs.dropHero hr
  | getEmailGoods emailUuid =>
    have hrefused := (getEmailGoods_refuse (hs.emailSaleList emailUuid)).symm.trans hr
    exact Option.some.inj hrefused ▸ rfl
  | fastFinish sn => exact onEstate_worker (fun _ => Estate.fastFinish_blank hbuild) hr
  | appointHero heroUuid jobTitle =>
    exact Option.some.inj hr ▸ hs.appointHero heroUuid jobTitle
  | cancelHero heroUuid => exact Option.some.inj hr ▸ hs.cancelHero heroUuid

/-! ## Runs -/

theorem loginStatus_recruit {randomType : Int} {new : NewHeroes}
    (hr : s.recruit cfg randomType new = some reply) :
    reply.worker.loginStatus = s.loginStatus := by
  obtain ⟨reply', hreply, hr⟩ := Option.bind_eq_some_iff.mp hr
  have hsame := (sameRoster_onEstate (fun _ _ => Estate.sameHeroes_recruit) hreply).loginStatus
  split_ifs at hr
  · exact Option.some.inj hr ▸ hsame
  · obtain rfl := Option.some.inj hr
    exact List.foldlRecOn (motive := fun t : LoginWorker => t.loginStatus = s.loginStatus)
      _ _ hsame fun t ht i _ => ht

theorem loginStatus_serve {r : Request} (hr : s.serve cfg now r = some reply) :
    reply.worker.loginStatus = s.loginStatus := by
  by_cases hother : r.ForHeroes
  · cases r with
    | recruit randomType new => exact loginStatus_recruit hr
    | getRandHero heroSn =>
      obtain rfl := Option.some.inj hr
      unfold getRandHero
      split_ifs
      · split
        · rfl
        · rfl
      · rfl
    | dropHero heroSn =>
      have hdrop : s.dropHero heroSn = some reply := hr
      unfold dropHero at hdrop
      split at hdrop
      · exact Option.some.inj hdrop ▸ rfl
      split at hdrop
      · exact absurd hdrop (by simp)
      dsimp only at hdrop
      split at hdrop
      · exact Option.some.inj hdrop ▸ rfl
      split at hdrop
      · exact Option.some.inj hdrop ▸ rfl
      · exact Option.some.inj hdrop ▸ rfl
    | appointHero heroUuid jobTitle =>
      obtain rfl := Option.some.inj hr
      exact appointHero_keeps (I := fun t => t.loginStatus = s.loginStatus)
        (fun _ _ _ _ hs _ => hs) rfl heroUuid jobTitle
    | cancelHero heroUuid =>
      obtain rfl := Option.some.inj hr
      exact cancelHero_keeps (I := fun t => t.loginStatus = s.loginStatus)
        (fun _ _ _ _ hs _ => hs) rfl heroUuid
    | _ => exact absurd hother id
  · exact (sameRoster_serve hr hother).loginStatus

theorem loginStatus_loginHandle2 {uuid : UInt32} {heroKeys equipKeys : List String}
    (ht : s.loginHandle2 cfg uuid now heroKeys equipKeys = some t) : t.loginStatus = true := by
  obtain ⟨e, -, ht⟩ := Option.bind_eq_some_iff.mp ht
  obtain ⟨m, -, ht⟩ := Option.bind_eq_some_iff.mp ht
  exact Option.some.inj ht ▸ rfl

theorem login_or_same {account passwd : String} {uuid : UInt32} {heroKeys equipKeys : List String}
    (ht : s.login cfg account passwd uuid now heroKeys equipKeys = some t) :
    t = s ∨ t.loginStatus = true := by
  unfold login at ht
  dsimp only at ht
  split_ifs at ht
  · exact .inl (Option.some.inj ht).symm
  · exact .inl (Option.some.inj ht).symm
  · exact .inr (loginStatus_loginHandle2 ht)

theorem register_or_same {name account passwd : String} {uuid : UInt32}
    {sns heroKeys equipKeys : List String}
    (ht : s.register cfg name account passwd uuid sns now heroKeys equipKeys = some t) :
    t = s ∨ t.loginStatus = true := by
  unfold register at ht
  split_ifs at ht
  · exact .inl (Option.some.inj ht).symm
  · obtain ⟨⟨set, u⟩, -, ht⟩ := Option.bind_eq_some_iff.mp ht
    exact .inr (loginStatus_loginHandle2 ht)

theorem Blank.of_same (hs : s.Blank) (hplayer : t.player = s.player)
    (hrandom : t.randHero = s.randHero) : t.Blank := by
  refine ⟨?_, ?_, ?_, ?_, ?_⟩
  · rw [hplayer]
    exact hs.myBuild
  · rw [hplayer]
    exact hs.backpackStatus
  · rw [hplayer]
    exact hs.myHero
  · rw [hplayer]
    exact hs.emailSaleList
  · rw [hrandom]
    exact hs.randHero

theorem Blank.getRandName (hs : s.Blank) {sex result : Int} {name : String}
    (hr : s.getRandName sex name result = some reply) : reply.worker.Blank := by
  unfold LoginWorker.getRandName at hr
  dsimp only at hr
  split_ifs at hr
  · exact Option.some.inj hr ▸ hs.of_same rfl rfl
  · exact Option.some.inj hr ▸ hs.of_same rfl rfl
  · exact Option.some.inj hr ▸ hs.of_same rfl rfl
  · exact Option.some.inj hr ▸ hs.of_same rfl rfl

theorem blank_others (hs : s.Blank) (hout : s.loginStatus = false) (world : World)
    (records : UInt32 → Records) (registry : Registry) :
    ({ s.others world with records, registry } : LoginWorker).Blank := by
  refine hs.of_same ?_ rfl
  show (s.others world).player = s.player
  rw [player_others, hout]
  rfl

theorem blank_step {e : SessionEvent} (hs : s.loginStatus = false → s.Blank)
    (hharmless : s.HarmlessEvent cfg e) (ht : s.step cfg e = some t)
    (hout : t.loginStatus = false) : t.Blank := by
  cases e with
  | request r now =>
    obtain ⟨reply, hreply, rfl⟩ := Option.map_eq_some_iff.mp ht
    have hbefore : s.loginStatus = false := (loginStatus_serve hreply).symm.trans hout
    have hblank := hs hbefore
    by_cases haccount : r.ForAccount
    · rw [hblank.serve (hharmless hbefore) haccount hreply]
      exact hblank
    · cases r with
      | getRandName sex name result => exact hblank.getRandName hreply
      | _ => exact absurd trivial haccount
  | login account passwd u now heroKeys equipKeys =>
    rcases login_or_same ht with rfl | hin
    · exact hs hout
    · exact absurd (hin.symm.trans hout) (by decide)
  | register name account passwd u sns now heroKeys equipKeys =>
    rcases register_or_same ht with rfl | hin
    · exact hs hout
    · exact absurd (hin.symm.trans hout) (by decide)
  | others world records registry =>
    obtain rfl := Option.some.inj ht
    exact blank_others (hs hout) hout world records registry

theorem needsLogin_of_blank {e : SessionEvent} (hs : s.loginStatus = false → s.Blank)
    (hharmless : s.HarmlessEvent cfg e) : s.NeedsLogin cfg e := by
  cases e with
  | request r now =>
    intro haccount hout reply hreply
    rw [(hs hout).serve (hharmless hout) haccount hreply]
    exact ⟨rfl, rfl, rfl, rfl, rfl, rfl, rfl⟩
  | login => trivial
  | register => trivial
  | others => trivial

theorem blank_onConnect (world : World) (records : UInt32 → Records) (registry : Registry)
    (asset : Balances) (backpackNum recuiteType chanceNum : Int) (isMan : Bool) :
    (onConnect world records registry asset backpackNum recuiteType chanceNum isMan).Blank := by
  have hplayer : (onConnect world records registry asset backpackNum recuiteType chanceNum
      isMan).player = { asset, backpackNum } := World.player_setPlayer_self _
  refine ⟨?_, ?_, ?_, ?_, fun _ => rfl⟩
  · rw [hplayer]
    exact fun _ => rfl
  · rw [hplayer]
    exact fun _ => rfl
  · rw [hplayer]
    exact fun _ => rfl
  · rw [hplayer]
    exact fun _ => rfl

/-- In a run whose requests before the login are all harmless, none of them has an effect. -/
theorem needsLogin_of_harmless {world : World} {records : UInt32 → Records} {registry : Registry}
    {asset : Balances} {backpackNum recuiteType chanceNum : Int} {isMan : Bool}
    {es : List SessionEvent} (hharmless : Run.EachStep (step cfg) (HarmlessEvent cfg) (onConnect
      world records registry asset backpackNum recuiteType chanceNum isMan) es) :
    Run.EachStep (step cfg) (NeedsLogin cfg) (onConnect world records registry asset backpackNum
      recuiteType chanceNum isMan) es :=
  hharmless.of_kept (I := fun s => s.loginStatus = false → s.Blank)
    (fun _ _ _ hs hC ht => blank_step hs hC ht) (fun _ _ hs hC => needsLogin_of_blank hs hC)
    fun _ => blank_onConnect world records registry asset backpackNum recuiteType chanceNum isMan

theorem needsLogin_of_harmless_early : Run.EachStep (step {}) (NeedsLogin {})
    (onConnect {} (fun _ => {}) {} (fun _ => 0) 12 0 0 false)
      [.request (.buildUpgrade "farm") 0, .request (.getRandHero 1) 1,
        .request (.saleGoods 3 5) 2] := by
  refine needsLogin_of_harmless (Run.eachStep_of_forall _ ?_)
  intro e he s
  simp only [List.mem_cons, List.not_mem_nil, or_false] at he
  rcases he with rfl | rfl | rfl
  · exact fun _ => trivial
  · exact fun _ => trivial
  · exact fun _ => trivial

/-- The name is set though the answer is that it is not. -/
theorem not_needsLogin_setName :
    ¬ ∀ (cfg : Config) (world : World) (records : UInt32 → Records) (registry : Registry)
      (asset : Balances) (backpackNum recuiteType chanceNum : Int) (isMan : Bool)
      (es : List SessionEvent), Run.EachStep (step cfg) (NeedsLogin cfg) (onConnect world records
        registry asset backpackNum recuiteType chanceNum isMan) es := by
  intro hall
  have hrun := hall {} {} (fun _ => {}) {} (fun _ => 0) 12 0 0 false
    [.request (.setName "a") 0]
  have hserve : ((onConnect {} (fun _ => {}) {} (fun _ => 0) 12 0 0 false).serve {} 0
      (.setName "a")).map (fun reply => (reply.results, reply.worker.registry.nickname "a")) =
        some ([-1], some 0) := by decide
  obtain ⟨reply, hreply, hresult⟩ := Option.map_eq_some_iff.mp hserve
  obtain ⟨-, hname⟩ := Prod.mk.inj hresult
  have hstep := (hrun reply.worker (congrArg (Option.map ServiceReply.worker) hreply)).1
  have hsame := (hstep trivial rfl reply hreply).registry
  rw [hsame] at hname
  exact absurd hname (by decide)

end LoginWorker

end IceBridge.Gateway
