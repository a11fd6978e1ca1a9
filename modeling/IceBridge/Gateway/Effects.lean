import IceBridge.Gateway.Assets

/-! What the requests for a building do: nothing, or all that they are for. -/

namespace IceBridge.Gateway

namespace Player
variable (p : Player) (sn : String) (now : Int)

@[simp] theorem enTimer_asset : (p.enTimer sn now).asset = p.asset := by
  unfold enTimer
  split <;> rfl

@[simp] theorem enTimer_myBuild : (p.enTimer sn now).myBuild = p.myBuild := by
  unfold enTimer
  split <;> rfl

@[simp] theorem deleteTimer_asset : (p.deleteTimer sn).asset = p.asset := by
  unfold deleteTimer
  split <;> rfl

@[simp] theorem deleteTimer_myBuild : (p.deleteTimer sn).myBuild = p.myBuild := by
  unfold deleteTimer
  split <;> rfl

end Player

namespace Estate
variable {cfg : Config} {e t : Estate} {sn : String} {now : Int}

structure Wrote (S : Asset → Prop) (e t : Estate) : Prop where
  written : ∀ a, S a → t.store.asset a = t.player.asset a
  left : ∀ a, ¬ S a → t.store.asset a = e.store.asset a ∧ t.player.asset a = e.player.asset a

theorem Wrote.of_eq {S : Asset → Prop} (hS : ∀ a, ¬ S a) (hstore : t.store.asset = e.store.asset)
    (hplayer : t.player.asset = e.player.asset) : Wrote S e t :=
  ⟨fun a ha => absurd ha (hS a), fun a _ => ⟨congrFun hstore a, congrFun hplayer a⟩⟩

theorem Wrote.of_cases {S : Asset → Prop} {C : Prop}
    (h : ¬ C ∧ t = e ∨ C ∧ Wrote S e t) : Wrote (fun a => S a ∧ C) e t := by
  rcases h with ⟨hnot, rfl⟩ | ⟨hC, hwritten, hleft⟩
  · exact .of_eq (fun a ha => hnot ha.2) rfl rfl
  · exact ⟨fun a ha => hwritten a ha.1, fun a ha => hleft a fun hS => ha ⟨hS, hC⟩⟩

structure SameWorks (e t : Estate) : Prop where
  player : t.player =
    { e.player with asset := t.player.asset, buildNum := t.player.buildNum }
  store : t.store =
    { e.store with asset := t.store.asset, buildNum := t.store.buildNum }

structure Writes (e t : Estate) (sn : String) (b : Build) : Prop where
  myBuild : t.player.myBuild = Function.update e.player.myBuild sn (some b)
  build : t.store.build = Function.update e.store.build sn (some b)

def Orders (e t : Estate) (sn : String) (b : Build) (now : Int) : Prop :=
  ∃ u, e.SameWorks u ∧ (u.startBuild sn b now).SameWorks t ∧ b.status = 1 ∧ b.ctime = now

def Completes (cfg : Config) (e t : Estate) (sn : String) (now : Int) : Prop :=
  ∃ b b', e.player.myBuild sn = some b ∧ finished cfg b now = some b' ∧ e.Writes t sn b'

theorem Orders.writes {b : Build} (h : e.Orders t sn b now) : e.Writes t sn b := by
  obtain ⟨u, hu, ht, -, -⟩ := h
  have hmyBuild : t.player.myBuild = (u.startBuild sn b now).player.myBuild := by rw [ht.player]
  have hbuild : t.store.build = (u.startBuild sn b now).store.build := by rw [ht.store]
  refine ⟨?_, ?_⟩
  · rw [hmyBuild, show e.player.myBuild = u.player.myBuild by rw [hu.player]]
    unfold startBuild
    split_ifs
    · exact Player.enTimer_myBuild _ _ _
    · rfl
  · rw [hbuild, show e.store.build = u.store.build by rw [hu.store]]
    rfl

@[simp] theorem startBuild_player_asset (b : Build) :
    (e.startBuild sn b now).player.asset = e.player.asset := by
  unfold startBuild
  split_ifs
  · exact Player.enTimer_asset _ _ _
  · rfl

@[simp] theorem startBuild_store_asset (b : Build) :
    (e.startBuild sn b now).store.asset = e.store.asset := rfl

theorem buildTimerHandle_asset (ht : e.buildTimerHandle cfg sn now = some t) :
    t.player.asset = e.player.asset ∧ t.store.asset = e.store.asset := by
  unfold buildTimerHandle at ht
  split at ht
  · obtain rfl := Option.some.inj ht
    exact ⟨rfl, rfl⟩
  · obtain ⟨b, -, ht⟩ := Option.bind_eq_some_iff.mp ht
    obtain rfl := Option.some.inj ht
    exact ⟨Player.deleteTimer_asset _ _, rfl⟩

theorem buildTimerHandle_cases (ht : e.buildTimerHandle cfg sn now = some t) :
    e.player.myBuild sn = none ∧ t = e ∨ Completes cfg e t sn now := by
  unfold buildTimerHandle at ht
  split at ht
  · next hnone => exact .inl ⟨hnone, (Option.some.inj ht).symm⟩
  · next b hb =>
    obtain ⟨b', hb', ht⟩ := Option.bind_eq_some_iff.mp ht
    obtain rfl := Option.some.inj ht
    refine .inr ⟨b, b', hb, hb', ?_, rfl⟩
    exact Player.deleteTimer_myBuild _ _

def CanCreate (cfg : Config) (e : Estate) (type : Int) : Prop :=
  0 < type ∧ type < cfg.globalBuild.length ∧ ∃ b hall limit,
    cfg.build? type 0 = some b ∧ e.player.myBuild e.player.cityHallUuid = some hall ∧
    (∀ a, b.need a ≤ e.player.asset a) ∧ cfg.cityLimit? hall.buildLevel type = some limit ∧
    e.player.buildNum type < limit.maxNum

def CanUpgrade (cfg : Config) (e : Estate) (sn : String) : Prop :=
  ∃ hall b limit res, e.player.myBuild e.player.cityHallUuid = some hall ∧
    e.player.myBuild sn = some b ∧ cfg.cityLimit? hall.buildLevel b.buildType = some limit ∧
    b.buildLevel < limit.maxLevel ∧ b.status ≠ 1 ∧
    cfg.build? b.buildType b.buildLevel = some res ∧
    ∀ a, a ≠ .diamond → res.need a ≤ e.player.asset a

def CanFinish (e : Estate) (sn : String) (now : Int) : Prop :=
  ∃ b, e.player.myBuild sn = some b ∧ fastFinishCost b now ≤ e.player.asset .diamond ∧
    ((e.player.buildingTimer sn).isSome ∨ sn ∈ e.player.building)

theorem buildCreate_cases {type : Int} {r : Answer} (hr : e.buildCreate cfg type sn now = some r) :
    ¬ e.CanCreate cfg type ∧ r.estate = e ∨ e.CanCreate cfg type ∧
      Wrote (fun _ => True) e r.estate ∧ ∃ b, e.Orders r.estate sn b now ∧ b.buildLevel = 0 := by
  unfold buildCreate at hr
  dsimp only at hr
  split_ifs at hr with htype
  · obtain ⟨res, hres, hr⟩ := Option.bind_eq_some_iff.mp hr
    split at hr
    · next hnone =>
      refine .inl ⟨?_, Option.some.inj hr ▸ rfl⟩
      rintro ⟨-, -, _, hall, _, -, hhall, -⟩
      exact absurd (hnone.symm.trans hhall) (by simp)
    next hall hhall =>
    split_ifs at hr with hneed
    · obtain ⟨limit, hlimit, hr⟩ := Option.bind_eq_some_iff.mp hr
      split_ifs at hr with hcount
      · obtain rfl := Option.some.inj hr
        have hcan : e.CanCreate cfg type :=
          ⟨htype.1, htype.2, res, hall, limit, hres, hhall, hneed, hlimit, hcount⟩
        have hpaid : e.SameWorks (({ e with player := e.player.addAsset (-res.need) } :
            Estate).updateDiamond).setMaterial := ⟨rfl, rfl⟩
        refine .inr ⟨hcan, ⟨fun a _ => ?_, fun a ha => absurd trivial ha⟩,
          _, ⟨_, hpaid, ⟨rfl, rfl⟩, rfl, rfl⟩, rfl⟩
        simp only [startBuild_player_asset, startBuild_store_asset]
        cases a <;> simp [setMaterial, updateDiamond]
      · refine .inl ⟨?_, Option.some.inj hr ▸ rfl⟩
        rintro ⟨-, -, _, hall', limit', -, hhall', -, hlimit', hcount'⟩
        obtain rfl := Option.some.inj (hhall.symm.trans hhall')
        obtain rfl := Option.some.inj (hlimit.symm.trans hlimit')
        exact hcount hcount'
    · refine .inl ⟨?_, Option.some.inj hr ▸ rfl⟩
      rintro ⟨-, -, res', _, _, hres', -, hneed', -⟩
      obtain rfl := Option.some.inj (hres.symm.trans hres')
      exact hneed hneed'
  · exact .inl ⟨fun h => htype ⟨h.1, h.2.1⟩, Option.some.inj hr ▸ rfl⟩

theorem buildUpgrade_cases {r : Answer} (hr : e.buildUpgrade cfg sn now = some r) :
    ¬ e.CanUpgrade cfg sn ∧ r.estate = e ∨ e.CanUpgrade cfg sn ∧
      Wrote (fun a => a ≠ .diamond) e r.estate ∧ ∃ b old, e.Orders r.estate sn b now ∧
        e.player.myBuild sn = some old ∧ old.status ≠ 1 ∧ b.buildLevel = old.buildLevel := by
  unfold buildUpgrade at hr
  dsimp only at hr
  split at hr
  · next hall b hhall hb =>
    obtain ⟨limit, hlimit, hr⟩ := Option.bind_eq_some_iff.mp hr
    split_ifs at hr with hlevel
    · obtain ⟨res, hres, hr⟩ := Option.bind_eq_some_iff.mp hr
      split_ifs at hr with hneed
      · obtain rfl := Option.some.inj hr
        have hcan : e.CanUpgrade cfg sn :=
          ⟨hall, b, limit, res, hhall, hb, hlimit, hlevel.1, hlevel.2, hres, hneed⟩
        have hpaid : e.SameWorks ({ e with player := e.player.addAsset fun a =>
            if a = Asset.diamond then 0 else -res.need a } : Estate).setMaterial := ⟨rfl, rfl⟩
        refine .inr ⟨hcan, ⟨fun a ha => ?_, fun a ha => ?_⟩,
          _, b, ⟨_, hpaid, ⟨rfl, rfl⟩, rfl, rfl⟩, hb, hlevel.2, rfl⟩
        · simp only [startBuild_player_asset, startBuild_store_asset]
          simp [setMaterial, ha]
        · simp only [startBuild_player_asset, startBuild_store_asset]
          simp [setMaterial, Player.addAsset, not_not.mp ha]
      · refine .inl ⟨?_, Option.some.inj hr ▸ rfl⟩
        rintro ⟨_, b', _, res', -, hb', -, -, -, hres', hneed'⟩
        obtain rfl := Option.some.inj (hb.symm.trans hb')
        obtain rfl := Option.some.inj (hres.symm.trans hres')
        exact hneed hneed'
    · refine .inl ⟨?_, Option.some.inj hr ▸ rfl⟩
      rintro ⟨hall', b', limit', _, hhall', hb', hlimit', hlt, hstatus, -⟩
      obtain rfl := Option.some.inj (hb.symm.trans hb')
      obtain rfl := Option.some.inj (hhall.symm.trans hhall')
      obtain rfl := Option.some.inj (hlimit.symm.trans hlimit')
      exact hlevel ⟨hlt, hstatus⟩
  · next hnone =>
    refine .inl ⟨?_, Option.some.inj hr ▸ rfl⟩
    rintro ⟨hall, b, _, _, hhall, hb, -⟩
    exact hnone hall b hhall hb

theorem wrote_updateDiamond (amount : Int)
    (hplayer : t.player.asset = (e.player.addAsset (Pi.single .diamond amount)).asset)
    (hstore : t.store.asset = e.store.asset) :
    Wrote (fun a => a = .diamond) e t.updateDiamond := by
  refine ⟨fun a ha => ?_, fun a ha => ?_⟩
  · rw [ha]
    simp [updateDiamond]
  · simp [updateDiamond, ha, hplayer, hstore, Player.addAsset]

theorem fastFinish_cases {r : Answer} (hr : e.fastFinish cfg sn now = some r) :
    ¬ e.CanFinish sn now ∧ r.estate = e ∨ e.CanFinish sn now ∧
      Wrote (fun a => a = .diamond) e r.estate ∧ Completes cfg e r.estate sn now := by
  unfold fastFinish at hr
  dsimp only at hr
  split at hr
  · next hnone =>
    refine .inl ⟨?_, Option.some.inj hr ▸ rfl⟩
    rintro ⟨b, hb, -⟩
    exact absurd (hnone.symm.trans hb) (by simp)
  next b hb =>
  split_ifs at hr with hcost htimer hlist
  · obtain ⟨u, hu, hr⟩ := Option.bind_eq_some_iff.mp hr
    obtain rfl := Option.some.inj hr
    obtain ⟨hplayer, hstore⟩ := buildTimerHandle_asset hu
    refine .inr ⟨⟨b, hb, hcost, .inl htimer⟩, wrote_updateDiamond _ hplayer hstore, ?_⟩
    rcases buildTimerHandle_cases hu with ⟨hnone, -⟩ | hcompletes
    · exact absurd (hnone.symm.trans hb) (by simp)
    · obtain ⟨c, c', hc, hc', hwrites⟩ := hcompletes
      exact ⟨c, c', hc, hc', hwrites.myBuild, hwrites.build⟩
  · obtain ⟨b', hb', hr⟩ := Option.bind_eq_some_iff.mp hr
    obtain rfl := Option.some.inj hr
    exact .inr ⟨⟨b, hb, hcost, .inr hlist⟩, wrote_updateDiamond _ rfl rfl, b, b', hb, hb', rfl, rfl⟩
  · refine .inl ⟨?_, Option.some.inj hr ▸ rfl⟩
    rintro ⟨-, -, -, hpending⟩
    exact hpending.elim htimer hlist
  · refine .inl ⟨?_, Option.some.inj hr ▸ rfl⟩
    rintro ⟨b', hb', hcost', -⟩
    obtain rfl := Option.some.inj (hb.symm.trans hb')
    exact hcost hcost'

end Estate

end IceBridge.Gateway
