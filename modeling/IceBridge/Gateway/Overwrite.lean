import IceBridge.Gateway.Effects

/-! What is stored is what has been booked as long as each balance that the gateway writes is
the one it has read: a balance that the army worker has changed since is overwritten. -/

namespace IceBridge.Gateway

namespace Estate
variable {cfg : Config} {e t : Estate} {sn : String} {now : Int}

def CanHarvest (e : Estate) (sn : String) : Prop :=
  ∃ b, e.player.myBuild sn = some b ∧ b.bigType = 2 ∧ b.status = 0

def CanRecruit (cfg : Config) (e : Estate) (randomType : Int) : Prop :=
  0 < randomType ∧ randomType < cfg.heroUpdateConfig.length ∧
    ∃ diamond, cfg.heroUpdateConfig[(randomType - 1).toNat]? = some diamond ∧
      diamond ≤ e.player.asset .diamond

theorem wrote_buildCreate {type : Int} {r : Answer} (hr : e.buildCreate cfg type sn now = some r) :
    Wrote (fun _ => e.CanCreate cfg type) e r.estate := by
  have hcases : ¬ e.CanCreate cfg type ∧ r.estate = e ∨
      e.CanCreate cfg type ∧ Wrote (fun _ => True) e r.estate :=
    (buildCreate_cases hr).imp_right fun h => ⟨h.1, h.2.1⟩
  simpa only [true_and] using Wrote.of_cases hcases

theorem wrote_buildUpgrade {r : Answer} (hr : e.buildUpgrade cfg sn now = some r) :
    Wrote (fun a => a ≠ .diamond ∧ e.CanUpgrade cfg sn) e r.estate :=
  .of_cases ((buildUpgrade_cases hr).imp_right fun h => ⟨h.1, h.2.1⟩)

theorem wrote_getMyAsset {r : Answer} (hr : e.getMyAsset cfg sn now = some r) :
    Wrote (fun a => a ≠ .diamond ∧ e.CanHarvest sn) e r.estate := by
  refine .of_cases ?_
  unfold getMyAsset at hr
  split at hr
  · next hnone =>
    refine .inl ⟨?_, Option.some.inj hr ▸ rfl⟩
    rintro ⟨b, hb, -⟩
    exact absurd (hnone.symm.trans hb) (by simp)
  next b hb =>
  split at hr
  · next hkind =>
    obtain ⟨level, hlevel, hr⟩ := Option.bind_eq_some_iff.mp hr
    obtain rfl := Option.some.inj hr
    have hharvest : ∀ type amount, harvest type amount .diamond = 0 := by
      intro type amount
      unfold harvest
      split_ifs <;> simp
    refine .inr ⟨⟨b, hb, hkind.1, hkind.2⟩, fun a ha => ?_, fun a ha => ?_⟩
    · simp [refuse, setMaterial, setBuild, ha]
    · simp [refuse, setMaterial, setBuild, Player.addAsset, Player.setMyBuild, not_not.mp ha,
        hharvest]
  · next hkind =>
    refine .inl ⟨?_, Option.some.inj hr ▸ rfl⟩
    rintro ⟨b', hb', hbig, hstatus⟩
    obtain rfl := Option.some.inj (hb.symm.trans hb')
    exact hkind ⟨hbig, hstatus⟩

theorem wrote_fastFinish {r : Answer} (hr : e.fastFinish cfg sn now = some r) :
    Wrote (fun a => a = .diamond ∧ e.CanFinish sn now) e r.estate :=
  .of_cases ((fastFinish_cases hr).imp_right fun h => ⟨h.1, h.2.1⟩)

theorem wrote_recruit {randomType : Int} {r : Answer} (hr : e.recruit cfg randomType = some r) :
    Wrote (fun a => a = .diamond ∧ e.CanRecruit cfg randomType) e r.estate := by
  refine .of_cases ?_
  unfold recruit at hr
  split at hr
  · next htype =>
    obtain ⟨diamond, hdiamond, hr⟩ := Option.bind_eq_some_iff.mp hr
    split_ifs at hr with hcost
    · obtain rfl := Option.some.inj hr
      exact .inr ⟨⟨htype.1, htype.2, diamond, hdiamond, hcost⟩, wrote_updateDiamond _ rfl rfl⟩
    · refine .inl ⟨?_, Option.some.inj hr ▸ rfl⟩
      rintro ⟨-, -, diamond', hdiamond', hcost'⟩
      obtain rfl := Option.some.inj (hdiamond.symm.trans hdiamond')
      exact hcost hcost'
  · next htype => exact .inl ⟨fun h => htype ⟨h.1, h.2.1⟩, Option.some.inj hr ▸ rfl⟩

end Estate

namespace World
variable {cfg : Config} {w t : World} {u : UInt32}

def CanBuy (w : World) (u : UInt32) (goodsSn : String) : Prop :=
  ∃ i e, w.marketIndex goodsSn = some i ∧ w.gloabalMarket[i]? = some e ∧
    (w.player u).getBackpack ≠ none ∧ e.diamondCost ≤ (w.player u).asset .diamond

def HasDiamonds (w : World) (u : UInt32) (key : String) : Prop :=
  ∃ email, (w.player u).emailSaleList key = some email ∧ 0 < email.diamond

structure Wrote (S : Asset → Prop) (u : UInt32) (w t : World) : Prop where
  own : Estate.Wrote S (w.estate u) (t.estate u)
  other : ∀ v, v ≠ u → (t.store v).asset = (w.store v).asset ∧
    (t.player v).asset = (w.player v).asset

theorem wrote_refuse {S : Asset → Prop} (hS : ∀ a, ¬ S a) : Wrote S u w w :=
  ⟨Estate.Wrote.of_eq hS rfl rfl, fun _ _ => ⟨rfl, rfl⟩⟩

theorem wrote_onEstate {S : Asset → Prop} {handler : Estate → Option Answer} {o : Outcome}
    (hS : ∀ answer, handler (w.estate u) = some answer →
      Estate.Wrote S (w.estate u) answer.estate) (ho : w.onEstate u handler = some o) :
    Wrote S u w o.world := by
  obtain ⟨answer, hanswer, rfl⟩ := Option.map_eq_some_iff.mp ho
  refine ⟨?_, fun v hv => ?_⟩
  · have hestate : (w.setEstate u answer.estate).estate u = answer.estate := by
      simp [estate, setEstate]
    rw [hestate]
    exact hS answer hanswer
  · simp [setEstate, hv]

theorem wrote_buyMarketGoods {goodsSn key : String} {o : Outcome}
    (ho : w.buyMarketGoods u goodsSn key = some o) :
    Wrote (fun a => a = .diamond ∧ w.CanBuy u goodsSn) u w o.world := by
  unfold buyMarketGoods at ho
  simp only at ho
  split at ho
  · next hnone =>
    obtain rfl := Option.some.inj ho
    refine wrote_refuse fun a h => ?_
    obtain ⟨-, i, _, hi, -⟩ := h
    simp [hnone] at hi
  next i hi =>
  split at ho
  · next hnone =>
    obtain rfl := Option.some.inj ho
    refine wrote_refuse fun a h => ?_
    obtain ⟨-, i', e, hi', he, -⟩ := h
    obtain rfl := Option.some.inj (hi.symm.trans hi')
    simp [hnone] at he
  · next hnone =>
    obtain rfl := Option.some.inj ho
    refine wrote_refuse fun a h => ?_
    obtain ⟨-, _, _, -, -, hb, -⟩ := h
    exact hb hnone
  next e b he hb =>
  split at ho
  · next hcost =>
    obtain ⟨key', -, ho⟩ := Option.bind_eq_some_iff.mp ho
    obtain rfl := Option.some.inj ho
    have hcan : w.CanBuy u goodsSn := ⟨i, e, hi, he, by simp [hb], hcost⟩
    refine ⟨⟨fun a ha => ?_, fun a ha => ?_⟩, fun v hv => ?_⟩
    · simp [estate, setEmailSale_store, setEmailSale_player, delMarket_frame, updateDiamond,
        setPlayer, Player.put, ha.1]
    · have hne : a ≠ .diamond := fun h => ha ⟨h, hcan⟩
      simp [estate, setEmailSale_store, setEmailSale_player, delMarket_frame, updateDiamond,
        setPlayer, Player.put, Player.addAsset, hne]
    · simp [setEmailSale_store, setEmailSale_player, delMarket_frame, updateDiamond,
        setPlayer, hv]
  · next hcost =>
    obtain rfl := Option.some.inj ho
    refine wrote_refuse fun a h => ?_
    obtain ⟨-, i', e', hi', he', -, hcost'⟩ := h
    obtain rfl := Option.some.inj (hi.symm.trans hi')
    obtain rfl := Option.some.inj (he.symm.trans he')
    exact hcost hcost'

theorem wrote_getEmailGoods (key : String) :
    Wrote (fun a => a = .diamond ∧ w.HasDiamonds u key) u w (w.getEmailGoods u key).world := by
  cases hemail : (w.player u).emailSaleList key with
  | none =>
    simp only [getEmailGoods, hemail]
    refine wrote_refuse fun a h => ?_
    obtain ⟨-, email, h, -⟩ := h
    simp [hemail] at h
  | some email =>
    by_cases hd : email.diamond ≤ 0
    · have hnot : ∀ a, ¬ (a = Asset.diamond ∧ w.HasDiamonds u key) := by
        rintro a ⟨-, email', h, hpos⟩
        obtain rfl := Option.some.inj (hemail.symm.trans h)
        omega
      cases hb : (w.player u).getBackpack with
      | none =>
        simp only [getEmailGoods, hemail, if_pos hd, hb]
        refine ⟨Estate.Wrote.of_eq hnot rfl ?_, fun v hv => ⟨rfl, ?_⟩⟩ <;>
          simp [estate, delEmailSale_player]
      | some b =>
        simp only [getEmailGoods, hemail, if_pos hd, hb]
        refine ⟨Estate.Wrote.of_eq hnot rfl ?_, fun v hv => ⟨rfl, ?_⟩⟩
        · simp [estate, delEmailSale_player, Player.put]
        · simp [delEmailSale_player, hv]
    · have hcan : w.HasDiamonds u key := ⟨email, hemail, not_le.mp hd⟩
      simp only [getEmailGoods, hemail, if_neg hd]
      refine ⟨⟨fun a ha => ?_, fun a ha => ?_⟩, fun v hv => ⟨?_, ?_⟩⟩
      · simp [estate, delEmailSale, updateDiamond, setPlayer, Player.addAsset, ha.1]
      · have hne : a ≠ .diamond := fun h => ha ⟨h, hcan⟩
        simp [estate, delEmailSale, updateDiamond, setPlayer, Player.addAsset, hne]
      · simp [delEmailSale, updateDiamond, setPlayer, hv]
      · simp [delEmailSale_player, updateDiamond, hv]

end World

namespace Books
variable {cfg : Config} {b t : Books} {u : UInt32}

def Sets (cfg : Config) (w : World) : AssetEvent → Asset → Prop
  | .buildCreate u type _ _, _ => (w.estate u).CanCreate cfg type
  | .buildUpgrade u sn _, a => a ≠ .diamond ∧ (w.estate u).CanUpgrade cfg sn
  | .getMyAsset u sn _, a => a ≠ .diamond ∧ (w.estate u).CanHarvest sn
  | .buyMarketGoods u goodsSn _, a => a = .diamond ∧ w.CanBuy u goodsSn
  | .fastFinish u sn now, a => a = .diamond ∧ (w.estate u).CanFinish sn now
  | .recruit u randomType, a => a = .diamond ∧ (w.estate u).CanRecruit cfg randomType
  | .getEmailGoods u key, a => a = .diamond ∧ w.HasDiamonds u key
  | .addSoldiers .., _ | .delSoliders .., _ | .completeAtOnce .., _ => False

def user : AssetEvent → UInt32
  | .buildCreate u .. | .buildUpgrade u .. | .getMyAsset u .. | .buyMarketGoods u ..
  | .fastFinish u .. | .recruit u .. | .getEmailGoods u .. | .addSoldiers u ..
  | .delSoliders u .. | .completeAtOnce u .. => u

def UpToDate (cfg : Config) (b : Books) (e : AssetEvent) : Prop :=
  ∀ a, Sets cfg b.world e a →
    (b.world.player (user e)).asset a = (b.world.store (user e)).asset a

/-- What is stored is what was there at first and what has been booked. -/
def Balanced (initial : UInt32 → Balances) (b : Books) : Prop :=
  ∀ u a, (b.world.store u).asset a = initial u a + b.booked u a

theorem balanced_request_iff {initial : UInt32 → Balances} {S : Asset → Prop}
    {handler : Option Outcome} (hb : Balanced initial b) (ht : b.request u handler = some t)
    (hwrote : ∀ o, handler = some o → World.Wrote S u b.world o.world) :
    Balanced initial t ↔
      ∀ a, S a → (b.world.player u).asset a = (b.world.store u).asset a := by
  obtain ⟨w, hw, ht⟩ := Option.bind_eq_some_iff.mp ht
  obtain rfl := Option.some.inj ht
  obtain ⟨-, o, ho, rfl⟩ := World.request_eq_some hw
  obtain ⟨⟨hset, hleft⟩, hother⟩ := hwrote o ho
  constructor
  · intro hbal a ha
    have hnew := hbal u a
    have hold := hb u a
    have hwritten := hset a ha
    simp only [World.estate] at hwritten
    simp only [Function.update_self, Pi.add_apply, Pi.sub_apply] at hnew
    omega
  · intro hupToDate v a
    have hold := hb v a
    by_cases hv : v = u
    · subst hv
      simp only [Function.update_self, Pi.add_apply, Pi.sub_apply]
      by_cases ha : S a
      · have hwritten := hset a ha
        have hread := hupToDate a ha
        simp only [World.estate] at hwritten
        omega
      · obtain ⟨hstore, hplayer⟩ := hleft a ha
        simp only [World.estate] at hstore hplayer
        omega
    · rw [(hother v hv).1]
      simp only [Function.update_of_ne hv]
      exact hold

theorem balanced_call {initial : UInt32 → Balances} {result : Bool × Balances}
    {change : Balances} (hb : Balanced initial b)
    (hresult : ∀ a, result.2 a =
      (b.world.store u).asset a + if result.1 then change a else 0) :
    Balanced initial (b.call u result change) := by
  intro v a
  have hold := hb v a
  by_cases hv : v = u
  · subst hv
    have hnew := hresult a
    cases hok : result.1 <;> simp [call, World.setStored, hok] at hnew ⊢ <;> omega
  · cases hok : result.1 <;> simp [call, World.setStored, hok, hv, hold]

theorem step_addSoldiers (need : Balances) (num : Int) :
    b.step cfg (.addSoldiers u need num) = some (b.call u
      (Balances.manUserResource 2 (World.soldierCost need num) (b.world.store u).asset)
      (material (-World.soldierCost need num))) := rfl

theorem balanced_step_iff {initial : UInt32 → Balances} {e : AssetEvent}
    (hb : Balanced initial b) (ht : b.step cfg e = some t) :
    Balanced initial t ↔ UpToDate cfg b e := by
  cases e with
  | buildCreate u type sn now =>
    exact balanced_request_iff hb ht fun o ho =>
      World.wrote_onEstate (fun _ h => Estate.wrote_buildCreate h) ho
  | buildUpgrade u sn now =>
    exact balanced_request_iff hb ht fun o ho =>
      World.wrote_onEstate (fun _ h => Estate.wrote_buildUpgrade h) ho
  | getMyAsset u sn now =>
    exact balanced_request_iff hb ht fun o ho =>
      World.wrote_onEstate (fun _ h => Estate.wrote_getMyAsset h) ho
  | buyMarketGoods u goodsSn emailUuid =>
    exact balanced_request_iff hb ht fun o ho => World.wrote_buyMarketGoods ho
  | fastFinish u sn now =>
    exact balanced_request_iff hb ht fun o ho =>
      World.wrote_onEstate (fun _ h => Estate.wrote_fastFinish h) ho
  | recruit u randomType =>
    exact balanced_request_iff hb ht fun o ho =>
      World.wrote_onEstate (fun _ h => Estate.wrote_recruit h) ho
  | getEmailGoods u emailUuid =>
    refine balanced_request_iff hb ht fun o ho => ?_
    obtain rfl := Option.some.inj ho
    exact World.wrote_getEmailGoods emailUuid
  | addSoldiers u need num =>
    rw [step_addSoldiers] at ht
    obtain rfl := Option.some.inj ht
    refine iff_of_true (balanced_call hb fun a => ?_) fun a ha => ha.elim
    rw [Balances.manUserResource_two]
    by_cases hw : (b.world.store u).asset .wood < World.soldierCost need num .wood
    · simp [if_pos hw]
    · rw [if_neg hw]
      by_cases ha : a = .diamond
      · simp [Balances.less, material, ha]
      · simp [Balances.less, material, ha, sub_eq_add_neg]
  | delSoliders u need num =>
    obtain rfl := Option.some.inj ht
    refine iff_of_true (balanced_call hb fun a => ?_) fun a ha => ha.elim
    rw [Balances.manPlayerResources, Balances.manUserResource_one]
    by_cases ha : a = .diamond <;> simp [Balances.more, material, ha]
  | completeAtOnce u buildTotalSecond seconds =>
    obtain rfl := Option.some.inj ht
    refine iff_of_true (balanced_call hb fun a => ?_) fun a ha => ha.elim
    unfold Balances.subDiamond
    by_cases hlow : (b.world.store u).asset .diamond < World.completeCost buildTotalSecond seconds
    · simp [if_pos hlow]
    · rw [if_neg hlow]
      by_cases ha : a = .diamond
      · simp [ha, sub_eq_add_neg]
      · simp [ha]

/-- Along any run of requests and calls for any players every stored balance is the initial one
and what has been booked since, exactly when each request that sets a balance finds it in the
session as it is stored. -/
theorem balanced_run_iff (cfg : Config) (w : World) (es : List AssetEvent) :
    Run.Always (step cfg) (Balanced fun u => (w.store u).asset) { world := w } es ↔
      Run.EachStep (step cfg) (UpToDate cfg) { world := w } es := by
  refine Run.always_iff_eachStep (I := fun _ => True) (fun _ _ _ _ _ => trivial)
    (fun s e t _ hs ht => balanced_step_iff hs ht) trivial ?_ es
  intro u a
  simp

/-- The diamonds of `completeAtOnce` are back once the gateway has taken those of a recruit. -/
theorem not_balanced_recruit :
    ¬ ∀ (cfg : Config) (w : World) (es : List AssetEvent),
      (∀ u, (w.store u).asset = (w.player u).asset) →
      Run.Always (step cfg) (Balanced fun u => (w.store u).asset) { world := w } es := by
  intro hall
  have hrun := hall { heroUpdateConfig := [10, 100] }
    { player := fun _ => { asset := Pi.single .diamond 100 }
      store := fun _ => { asset := Pi.single .diamond 100 } }
    [.completeAtOnce 1 600 0, .recruit 1 1] fun _ => rfl
  have hend := (hrun.2 _ rfl).2 _ rfl 1 .diamond
  revert hend
  decide

end Books

end IceBridge.Gateway
