import IceBridge.Gateway.Market
import IceBridge.Gateway.Places
import Mathlib.Algebra.BigOperators.Group.Finset.Basic
import Mathlib.Algebra.Order.Ring.Int

/-! What a purchase pays and what it delivers. The seller gets the price of the listing that has
moved into the place of the one sold, and the first of the two extra values of an equip is lost
on its way through the market. -/

namespace IceBridge.Gateway

namespace World
variable {w t r : World} {u v : UInt32} {o : Outcome} {e last : MarketGoods} {sn key : String}

def bought (w : World) (u : UInt32) (e : MarketGoods) (b : ℕ) : World :=
  let p := (w.player u).addAsset (Pi.single .diamond (-e.diamondCost))
  ((w.setPlayer u p).updateDiamond u).setPlayer u (p.put b
    { position := b, equipSn := e.equipSn, diamondCost := 10,
      attr := { e.attr with extral1Value := e.attr.extral2Value } })

theorem bought_player (b : ℕ) : (w.bought u e b).player v = if v = u then
    ((w.player u).addAsset (Pi.single .diamond (-e.diamondCost))).put b
      { position := b, equipSn := e.equipSn, diamondCost := 10,
        attr := { e.attr with extral1Value := e.attr.extral2Value } }
    else w.player v := by
  by_cases hv : v = u <;> simp [bought, updateDiamond, hv]

theorem bought_store_of_ne {b : ℕ} (hv : v ≠ u) : (w.bought u e b).store v = w.store v :=
  Function.update_of_ne hv _ _

theorem bought_fields (b : ℕ) : (w.bought u e b).online = w.online ∧
    (w.bought u e b).emailSale = w.emailSale ∧ (w.bought u e b).findUserUuid = w.findUserUuid :=
  ⟨rfl, rfl, rfl⟩

/-- What is read at the place of the listing that was sold is the price of the last one: either
that is there now, or the place is past the end and still has what it had. -/
theorem Indexed.diamondCost_moved (hw : w.Indexed) {i : ℕ} (hi : w.marketIndex sn = some i)
    (he : w.gloabalMarket[i]? = some e) (hlast : w.gloabalMarket.getLast? = some last)
    (hmarket : t.gloabalMarket = w.gloabalMarket) (hindex : t.marketIndex = w.marketIndex) :
    ((t.delMarket sn).gloabalMarket[i]?.getD e).diamondCost = last.diamondCost := by
  obtain ⟨last', hlast', hlt, hdel⟩ := hw.delMarket_eq hi hmarket hindex
  rw [List.getLast?_eq_getElem?] at hlast
  obtain rfl := Option.some.inj (hlast'.symm.trans hlast)
  rw [hdel, Index.getElem?_moveLast, if_pos rfl]
  split_ifs with hend
  · rfl
  · have hlen : w.gloabalMarket.length - 1 = i := by omega
    rw [hlen, he] at hlast
    rw [Option.some.inj hlast]
    rfl

theorem Indexed.buyMarketGoods_eq (hw : w.Indexed) (he : w.listing sn = some e)
    (hlast : w.gloabalMarket.getLast? = some last) (ho : w.buyMarketGoods u sn key = some o)
    (hresult : o.result = some 0) : ∃ b, (w.player u).getBackpack = some b ∧
      w.emailSale (w.findUserUuid e.player) key = none ∧
      o.world = ((w.bought u e b).delMarket sn).setEmailSale (w.findUserUuid e.player) key
        { diamond := last.diamondCost, otherName := (w.player u).name } := by
  obtain ⟨i, hi, hgoods, hsn⟩ := hw.index_of_listing he
  have hrefuse : ∀ {result : Int}, result ≠ 0 → some (w.refuse result) ≠ some o := by
    intro result hne ho
    rw [← Option.some.inj ho] at hresult
    exact hne (Option.some.inj hresult)
  unfold buyMarketGoods at ho
  simp only [hi, hgoods] at ho
  split at ho
  · next heq => exact absurd heq (by simp)
  · exact absurd ho (hrefuse (by decide))
  · next e' b he' hb =>
    obtain rfl := Option.some.inj he'
    split_ifs at ho
    · obtain ⟨key', hkey, hdone⟩ := Option.bind_eq_some_iff.mp ho
      obtain ⟨rfl, hunused⟩ := createEmailUuid_eq hkey
      obtain rfl := Option.some.inj hdone
      -- the email is written after the deletion, with what `e` refers to by then
      have hmoved := hw.diamondCost_moved (t := w.bought u e b) hi hgoods hlast rfl rfl
      rw [(delMarket_frame _).2.2.2.1] at hunused
      refine ⟨b, hb, hunused, ?_⟩
      rw [← hsn] at hmoved ⊢
      rw [← hmoved]
      rfl
    · exact absurd ho (hrefuse (by decide))

/-! ## The price -/

def diamonds (w : World) (u : UInt32) : Int :=
  if w.online u then (w.player u).asset .diamond else (w.store u).asset .diamond

def unclaimed (w : World) (x : UInt32 × String) : Int :=
  ((w.emailSale x.1 x.2).map EmailSale.diamond).getD 0

def total (w : World) (users : Finset UInt32) (emails : Finset (UInt32 × String)) : Int :=
  ∑ u ∈ users, w.diamonds u + ∑ x ∈ emails, w.unclaimed x

/-- `u` has paid what `seller` finds in the email under `key`, and no diamond is made or lost. -/
structure Settled (w t : World) (u seller : UInt32) (key : String) : Prop where
  paid : ∃ email, t.emailSale seller key = some email ∧ email.diamond = w.diamonds u - t.diamonds u
  total : ∀ users emails, u ∈ users → (seller, key) ∈ emails →
    t.total users emails = w.total users emails

theorem sum_changed {ι : Type*} [DecidableEq ι] {s : Finset ι} {f g : ι → Int} {a : ι}
    (ha : a ∈ s) (hsame : ∀ x, x ≠ a → g x = f x) :
    ∑ x ∈ s, g x = ∑ x ∈ s, f x + (g a - f a) := by
  have hrest : ∑ x ∈ s.erase a, g x = ∑ x ∈ s.erase a, f x :=
    Finset.sum_congr rfl fun x hx => hsame x (Finset.ne_of_mem_erase hx)
  have hg := Finset.add_sum_erase s g ha
  have hf := Finset.add_sum_erase s f ha
  omega

section purchase
variable {b : ℕ} {seller : UInt32} {email : EmailSale}

theorem emailSale_purchase : (((w.bought u e b).delMarket sn).setEmailSale seller key
    email).emailSale = Function.update w.emailSale seller
      (Function.update (w.emailSale seller) key (some email.written)) := by
  rw [setEmailSale_emailSale, (delMarket_frame sn).2.2.2.1]
  rfl

theorem player_purchase : (((w.bought u e b).delMarket sn).setEmailSale seller key
    email).player v = { (w.bought u e b).player v with
      emailSaleList := if v = seller ∧ w.online seller then
        Function.update (w.player v).emailSaleList key (some email.written)
        else (w.player v).emailSaleList } := by
  obtain ⟨hplayer, honline, -⟩ := delMarket_frame (w := w.bought u e b) sn
  rw [setEmailSale_player, hplayer, honline, bought_player]
  by_cases hv : v = u
  · simp [hv, Player.put, Player.addAsset, bought_fields]
  · simp [hv, bought_fields]

theorem diamonds_purchase (honline : w.online u = true) : (((w.bought u e b).delMarket
    sn).setEmailSale seller key email).diamonds v =
      if v = u then w.diamonds u - e.diamondCost else w.diamonds v := by
  have hframe := delMarket_frame (w := w.bought u e b) sn
  have hstate : (((w.bought u e b).delMarket sn).setEmailSale seller key email).online =
      w.online := (setEmailSale_fields _ _ _).2.2.2.trans hframe.2.1
  have hstore : (((w.bought u e b).delMarket sn).setEmailSale seller key email).store =
      (w.bought u e b).store := (setEmailSale_store _ _ _).trans hframe.2.2.1
  unfold diamonds
  rw [hstate, hstore, player_purchase, bought_player]
  by_cases hv : v = u
  · simp [hv, honline, Player.put, Player.addAsset]
    omega
  · rw [if_neg hv, if_neg hv, bought_store_of_ne hv]

theorem unclaimed_purchase (x : UInt32 × String) :
    (((w.bought u e b).delMarket sn).setEmailSale seller key email).unclaimed x =
      if x = (seller, key) then email.diamond else w.unclaimed x := by
  unfold unclaimed
  rw [emailSale_purchase]
  obtain ⟨v, k⟩ := x
  by_cases hv : v = seller
  · by_cases hk : k = key <;> simp [hv, hk, EmailSale.written]
  · simp [hv]

theorem total_purchase (honline : w.online u = true) (hunused : w.emailSale seller key = none)
    {users : Finset UInt32} {emails : Finset (UInt32 × String)} (hu : u ∈ users)
    (hkey : (seller, key) ∈ emails) :
    (((w.bought u e b).delMarket sn).setEmailSale seller key email).total users emails =
      w.total users emails - e.diamondCost + email.diamond := by
  have hnone : w.unclaimed (seller, key) = 0 := by simp [unclaimed, hunused]
  unfold World.total
  rw [sum_changed hu fun v hv => by rw [diamonds_purchase honline, if_neg hv],
    sum_changed hkey fun x hx => by rw [unclaimed_purchase, if_neg hx],
    diamonds_purchase honline, unclaimed_purchase, if_pos rfl, if_pos rfl, hnone]
  omega

end purchase

/-- The seller gets what the buyer has paid exactly when the listing costs as much as the last. -/
theorem purchase_settled_iff (hw : w.Indexed) (honline : w.online u = true) (he : w.listing sn = some e)
    (hlast : w.gloabalMarket.getLast? = some last) (ho : w.buyMarketGoods u sn key = some o)
    (hresult : o.result = some 0) :
    Settled w o.world u (w.findUserUuid e.player) key ↔ last.diamondCost = e.diamondCost := by
  obtain ⟨b, -, hunused, hworld⟩ := hw.buyMarketGoods_eq he hlast ho hresult
  rw [hworld]
  constructor
  · intro h
    -- the buyer and the new email are all that changes, so their total decides
    have htotal := h.total {u} {(w.findUserUuid e.player, key)} (Finset.mem_singleton_self u)
      (Finset.mem_singleton_self _)
    rw [total_purchase honline hunused (Finset.mem_singleton_self u)
      (Finset.mem_singleton_self _)] at htotal
    dsimp only at htotal
    omega
  · intro hcost
    constructor
    · refine ⟨_, by rw [emailSale_purchase, Function.update_self, Function.update_self], ?_⟩
      rw [diamonds_purchase honline, if_pos rfl]
      show last.diamondCost = _
      omega
    · intro users emails hu hkey
      rw [total_purchase honline hunused hu hkey]
      dsimp only
      omega

def twoListings : World :=
  let w : World := { player := fun _ => { asset := fun _ => 10 }, findUserUuid := fun _ => 2 }
  (w.setMarket ⟨"a", 5, "x", {}, 86400⟩).setMarket ⟨"b", 7, "y", {}, 86400⟩

theorem indexed_twoListings : twoListings.Indexed :=
  Indexed.setMarket (Indexed.setMarket Index.indexes_nil (by decide)) (by decide)

theorem purchase_settled_iff_last : ∃ o, twoListings.buyMarketGoods 1 "y" "email" = some o ∧
    o.result = some 0 ∧ (Settled twoListings o.world 1 2 "email" ↔ (7 : Int) = 7) := by
  have hbuy : (twoListings.buyMarketGoods 1 "y" "email").map Outcome.result = some (some 0) := by
    decide +kernel
  obtain ⟨o, ho, hresult⟩ := Option.map_eq_some_iff.mp hbuy
  exact ⟨o, ho, hresult, purchase_settled_iff (e := ⟨"b", 7, "y", {}, 86400⟩) indexed_twoListings rfl rfl rfl
    ho hresult⟩

/-- The first of the two is sold: its seller gets the price of the second. -/
theorem not_purchase_settled_first : ¬ ∀ (w : World) (u : UInt32) (sn key : String) (e : MarketGoods)
    (o : Outcome), w.Indexed → w.online u = true → w.listing sn = some e →
      w.buyMarketGoods u sn key = some o → o.result = some 0 →
      Settled w o.world u (w.findUserUuid e.player) key := by
  intro h
  have hbuy : (twoListings.buyMarketGoods 1 "x" "email").map (fun o => (o.result,
      (o.world.emailSale 2 "email").map EmailSale.diamond, o.world.diamonds 1)) =
        some (some 0, some 7, 5) := by decide +kernel
  obtain ⟨o, ho, hstate⟩ := Option.map_eq_some_iff.mp hbuy
  obtain ⟨hresult, hstate⟩ := Prod.mk.inj hstate
  obtain ⟨hemail, hdiamonds⟩ := Prod.mk.inj hstate
  obtain ⟨email, hpaid, hdiamond⟩ := (h twoListings 1 "x" "email" ⟨"a", 5, "x", {}, 86400⟩ o
    indexed_twoListings rfl rfl ho hresult).paid
  have hseller : o.world.emailSale 2 "email" = some email := hpaid
  have hbefore : twoListings.diamonds 1 = 10 := rfl
  rw [hseller] at hemail
  have hseven : email.diamond = 7 := Option.some.inj hemail
  omega

/-! ## The equip -/

def Receives (w t : World) (u : UInt32) (e : Equip) : Prop :=
  ∃ b, (w.player u).backpackStatus b = false ∧ (t.player u).backpackStatus b = true ∧
    ((t.player u).myBackpack b).equipSn = e.equipSn ∧ ((t.player u).myBackpack b).attr = e.attr

theorem receives_iff_of_put {b : ℕ} {x e : Equip} (hb : (w.player u).getBackpack = some b)
    (hstatus : (t.player u).backpackStatus = Function.update (w.player u).backpackStatus b true)
    (hslot : (t.player u).myBackpack b = x) :
    Receives w t u e ↔ x.equipSn = e.equipSn ∧ x.attr = e.attr := by
  constructor
  · rintro ⟨b', hfree, hused, hsn, hattr⟩
    -- no other slot has been filled
    have hbb : b' = b := by
      by_contra hne
      rw [hstatus, Function.update_of_ne hne, hfree] at hused
      exact Bool.noConfusion hused
    rw [hbb, hslot] at hsn hattr
    exact ⟨hsn, hattr⟩
  · rintro ⟨hsn, hattr⟩
    refine ⟨b, getBackpack_free hb, ?_, ?_, ?_⟩
    · rw [hstatus, Function.update_self]
    · rw [hslot, hsn]
    · rw [hslot, hattr]

theorem not_receives {e : Equip}
    (hstatus : (t.player u).backpackStatus = (w.player u).backpackStatus) :
    ¬ Receives w t u e := by
  rintro ⟨b, hfree, hused, -⟩
  rw [hstatus, hfree] at hused
  exact Bool.noConfusion hused

/-- Both ways back write the value of the second extra attribute to the first one too. -/
theorem crossed_eq_iff (attr : EquipAttr) :
    { attr with extral1Value := attr.extral2Value } = attr ↔
      attr.extral1Value = attr.extral2Value := by
  constructor
  · intro h
    exact (congrArg EquipAttr.extral1Value h).symm
  · intro h
    cases attr
    simpa using h.symm

theorem setEquip_attr (e : Equip) : (setEquip e).attr = e.attr := by
  unfold setEquip
  split_ifs <;> rfl

/-- The listing under `sn` is the one it was; only its time may have gone by. -/
def StillOn (w t : World) (sn : String) : Prop :=
  ∃ n, t.listing sn = (w.listing sn).map fun res => { res with remainTime := n }

theorem listing_setMarket (res : MarketGoods) :
    (w.setMarket res).listing res.equipSn = some res := by
  simp [listing, setMarket]

theorem saleGoods_eq {position diamondCost : Int}
    (hsale : w.saleGoods u position diamondCost = some o) (hsold : o.result = some 0) :
    ∃ res, o.world.listing res.equipSn = some res ∧
      res.equipSn = ((w.player u).myBackpack position.toNat).equipSn ∧
      res.attr = ((w.player u).myBackpack position.toNat).attr := by
  rcases saleGoods_cases hsale with ⟨result, hneg, rfl⟩ | ⟨-, rfl⟩
  · have hzero := Option.some.inj hsold
    omega
  · exact ⟨_, listing_setMarket _, rfl, rfl⟩

theorem receives_buyMarketGoods_iff (hw : w.Indexed) (he : w.listing sn = some e)
    (ho : w.buyMarketGoods v sn key = some o) (hresult : o.result = some 0) {x : Equip}
    (hsn : e.equipSn = x.equipSn) (hattr : e.attr = x.attr) :
    Receives w o.world v x ↔ x.attr.extral1Value = x.attr.extral2Value := by
  obtain ⟨last, hlast⟩ : ∃ last, w.gloabalMarket.getLast? = some last := by
    cases hlast : w.gloabalMarket.getLast? with
    | some last => exact ⟨last, rfl⟩
    | none =>
      rw [List.getLast?_eq_none_iff] at hlast
      have hmem := (hw.listing_iff.mp he).1
      rw [hlast] at hmem
      exact absurd hmem List.not_mem_nil
  obtain ⟨b, hb, -, hworld⟩ := hw.buyMarketGoods_eq he hlast ho hresult
  have hslot : (o.world.player v).myBackpack b =
      { position := b, equipSn := e.equipSn, diamondCost := 10,
        attr := { e.attr with extral1Value := e.attr.extral2Value } } := by
    rw [hworld, player_purchase, bought_player, if_pos rfl]
    simp [Player.put]
  rw [receives_iff_of_put hb _ hslot]
  · rw [hattr, crossed_eq_iff]
    exact and_iff_right hsn
  · rw [hworld, player_purchase, bought_player, if_pos rfl]
    rfl

theorem backpack_getEmailGoods {b : ℕ} {email : EmailSale}
    (hemail : (w.player u).emailSaleList key = some email) (hd : email.diamond ≤ 0)
    (hb : (w.player u).getBackpack = some b) :
    ((w.getEmailGoods u key).world.player u).backpackStatus =
        Function.update (w.player u).backpackStatus b true ∧
      ((w.getEmailGoods u key).world.player u).myBackpack b =
        setEquip { email.equip with witchPannle := 0, position := b } := by
  simp [getEmailGoods, hemail, hd, hb, delEmailSale, Player.put]

theorem backpackStatus_getEmailGoods {email : EmailSale}
    (hemail : (w.player u).emailSaleList key = some email) (hd : email.diamond ≤ 0)
    (hb : (w.player u).getBackpack = none) :
    ((w.getEmailGoods u key).world.player u).backpackStatus = (w.player u).backpackStatus := by
  simp [getEmailGoods, hemail, hd, hb, delEmailSale]

theorem receives_getEmailGoods_iff (ht : w.pushNotify e key = some t) {x : Equip}
    (hsn : e.equipSn = x.equipSn) (hattr : e.attr = x.attr)
    (hmail : (r.player (w.findUserUuid e.player)).emailSaleList key =
      t.emailSale (w.findUserUuid e.player) key) :
    Receives r (r.getEmailGoods (w.findUserUuid e.player) key).world (w.findUserUuid e.player) x ↔
      x.attr.extral1Value = x.attr.extral2Value ∧
        (r.player (w.findUserUuid e.player)).getBackpack ≠ none := by
  obtain ⟨key', hkey, hsent⟩ := Option.bind_eq_some_iff.mp ht
  obtain ⟨rfl, -⟩ := createEmailUuid_eq hkey
  obtain rfl := Option.some.inj hsent
  rw [setEmailSale_emailSale, Function.update_self, Function.update_self] at hmail
  generalize w.findUserUuid e.player = seller at hmail ⊢
  cases hb : (r.player seller).getBackpack with
  | none =>
    -- the email is deleted all the same
    have hlost := not_receives (e := x) (backpackStatus_getEmailGoods hmail le_rfl hb)
    simpa using hlost
  | some b =>
    obtain ⟨hstatus, hslot⟩ := backpack_getEmailGoods hmail le_rfl hb
    rw [receives_iff_of_put hb hstatus hslot]
    simp [EmailSale.written, setEquip_attr, hsn, hattr, crossed_eq_iff]

/-! What a request does to the market: nothing, or it adds or deletes one listing. -/

theorem delMarket_gloabalMarket (hmarket : t.gloabalMarket = w.gloabalMarket)
    (hindex : t.marketIndex = w.marketIndex) :
    (t.delMarket sn).gloabalMarket = (w.delMarket sn).gloabalMarket := by
  unfold delMarket
  rw [hmarket, hindex]
  split
  · exact hmarket
  · split
    · split_ifs <;> rfl
    · exact hmarket

theorem gloabalMarket_buyMarketGoods (ho : w.buyMarketGoods u sn key = some o) :
    o.world.gloabalMarket = w.gloabalMarket ∨
      ∃ sn', o.world.gloabalMarket = (w.delMarket sn').gloabalMarket := by
  unfold buyMarketGoods at ho
  dsimp only at ho
  split at ho
  · exact .inl (Option.some.inj ho ▸ rfl)
  split at ho
  · exact .inl (Option.some.inj ho ▸ rfl)
  · exact .inl (Option.some.inj ho ▸ rfl)
  · next e b _ _ =>
    split_ifs at ho
    · obtain ⟨key', -, ho⟩ := Option.bind_eq_some_iff.mp ho
      right
      refine ⟨e.equipSn, ?_⟩
      rw [← Option.some.inj ho]
      refine (setEmailSale_fields _ _ _).1.trans (delMarket_gloabalMarket rfl rfl)
    · exact .inl (Option.some.inj ho ▸ rfl)

theorem gloabalMarket_getEmailGoods :
    (w.getEmailGoods u key).world.gloabalMarket = w.gloabalMarket := by
  unfold getEmailGoods
  dsimp only
  split
  · rfl
  · next email _ =>
    split_ifs
    · cases (w.player u).getBackpack <;> rfl
    · rfl

theorem gloabalMarket_goodsStep {d : GoodsEvent} (ht : w.goodsStep d = some t) :
    t.gloabalMarket = w.gloabalMarket ∨ (∃ res, t.gloabalMarket = w.gloabalMarket ++ [res]) ∨
      ∃ sn, t.gloabalMarket = (w.delMarket sn).gloabalMarket := by
  cases d with
  | openBox u sn attr =>
    obtain ⟨-, o, ho, rfl⟩ := request_eq_some ht
    rcases openBox_cases ho with ⟨_, -, rfl⟩ | ⟨b, sn', -, -, rfl⟩ <;> exact .inl rfl
  | dressEquip u whichHero backpackPosition heroPosition =>
    obtain ⟨-, o, ho, rfl⟩ := request_eq_some ht
    rcases dressEquip_cases ho with ⟨_, -, rfl⟩ | ⟨h, i, -, -, ho⟩
    · exact .inl rfl
    · obtain ⟨-, p, rfl, -⟩ := dressAt_writes ho
      exact .inl rfl
  | unloadEquip u whichHero position =>
    obtain ⟨-, o, ho, rfl⟩ := request_eq_some ht
    rcases unloadEquip_cases ho with ⟨_, -, rfl⟩ | ⟨h, e, b, -, -, -, -, rfl⟩ <;> exact .inl rfl
  | saleGoods u position diamondCost =>
    obtain ⟨-, o, ho, rfl⟩ := request_eq_some ht
    rcases saleGoods_cases ho with ⟨_, -, rfl⟩ | ⟨-, rfl⟩
    · exact .inl rfl
    · exact .inr (.inl ⟨_, rfl⟩)
  | buyMarketGoods u goodsSn emailUuid =>
    obtain ⟨-, o, ho, rfl⟩ := request_eq_some ht
    rcases gloabalMarket_buyMarketGoods ho with hsame | hdel
    · exact .inl hsame
    · exact .inr (.inr hdel)
  | getEmailGoods u emailUuid =>
    obtain ⟨-, o, ho, rfl⟩ := request_eq_some ht
    obtain rfl := Option.some.inj ho
    exact .inl gloabalMarket_getEmailGoods
  | pushNotify i emailUuid =>
    obtain ⟨e, -, ht⟩ := Option.bind_eq_some_iff.mp ht
    exact .inr (.inr ⟨e.equipSn, gloabalMarket_pushNotify ht⟩)

theorem Consistent.listing_goodsStep {d : GoodsEvent} (hw : w.Consistent)
    (hroom : w.RoomForEquip d) (ht : w.goodsStep d = some t) (he : w.listing sn = some e)
    (hthere : (t.listing sn).isSome = true) : t.listing sn = some e := by
  have hindexed := (consistent_goodsStep hw ht hroom).indexed
  obtain ⟨hmem, hsn⟩ := hw.indexed.listing_iff.mp he
  rcases gloabalMarket_goodsStep ht with hsame | ⟨res, hpush⟩ | ⟨sn', hdel⟩
  · exact hindexed.listing_iff.mpr ⟨hsame ▸ hmem, hsn⟩
  · exact hindexed.listing_iff.mpr ⟨hpush ▸ List.mem_append_left _ hmem, hsn⟩
  · -- what is still listed under `sn` has not been deleted, and was listed before
    obtain ⟨e', he'⟩ := Option.isSome_iff_exists.mp hthere
    obtain ⟨hmem', hsn'⟩ := hindexed.listing_iff.mp he'
    rw [hdel, (hw.indexed.delMarket sn').2.mem_iff] at hmem'
    have hold := hw.indexed.listing_iff.mpr ⟨List.mem_of_mem_filter hmem', hsn'⟩
    rw [he', ← hold, he]

/-- The equip that was sold stays on the market, and no email with an equip is opened in vain. -/
def Keeps (sn : String) (w : World) (d : GoodsEvent) : Prop :=
  w.RoomForEquip d ∧ ∀ t, w.goodsStep d = some t → (t.listing sn).isSome = true

theorem stillOn_run (hw : w.Consistent) (he : w.listing sn = some e) {ds : List GoodsEvent}
    (hkeeps : Run.EachStep goodsStep (Keeps sn) w ds) (ht : Run.exec goodsStep w ds = some t) :
    t.Consistent ∧ w.StillOn t sn := by
  have hrun := Run.always_of_eachStep (I := fun t => t.Consistent ∧ t.listing sn = some e)
    (fun s d t hs hC ht => ⟨consistent_goodsStep hs.1 ht hC.1,
      hs.1.listing_goodsStep hC.1 ht hs.2 (hC.2 t ht)⟩) ⟨hw, he⟩ hkeeps
  obtain ⟨hconsistent, hlisted⟩ := (Run.always_iff_prefixes w ds).mp hrun ds (List.prefix_refl ds) t ht
  refine ⟨hconsistent, e.remainTime, ?_⟩
  rw [hlisted, he]
  rfl

/-- An equip that is sold, and then bought or sent back, is what it was exactly when its two extra
values are equal; and to be sent back it needs a free slot. -/
theorem returned_iff {position diamondCost : Int} {x : Equip}
    (hx : (w.player u).myBackpack position.toNat = x)
    (hsale : w.saleGoods u position diamondCost = some o) (hsold : o.result = some 0)
    (ht : t.Indexed) (hlisted : o.world.StillOn t x.equipSn) :
    (∀ v key bought, t.buyMarketGoods v x.equipSn key = some bought → bought.result = some 0 →
      (Receives t bought.world v x ↔ x.attr.extral1Value = x.attr.extral2Value)) ∧
    ∀ value key sent opened, t.listing x.equipSn = some value →
      t.pushNotify value key = some sent →
      (opened.player (t.findUserUuid value.player)).emailSaleList key =
        sent.emailSale (t.findUserUuid value.player) key →
      (Receives opened (opened.getEmailGoods (t.findUserUuid value.player) key).world
          (t.findUserUuid value.player) x ↔
        x.attr.extral1Value = x.attr.extral2Value ∧
          (opened.player (t.findUserUuid value.player)).getBackpack ≠ none) := by
  subst hx
  obtain ⟨res, hres, hsn, hattr⟩ := saleGoods_eq hsale hsold
  obtain ⟨n, hn⟩ := hlisted
  rw [← hsn, hres] at hn
  constructor
  · intro v key bought hbuy hresult
    rw [← hsn] at hbuy
    exact receives_buyMarketGoods_iff ht hn hbuy hresult hsn hattr
  · intro value key sent opened hvalue hsent hmail
    rw [← hsn, hn] at hvalue
    obtain rfl := Option.some.inj hvalue
    exact receives_getEmailGoods_iff hsent hsn hattr hmail

def unequal : Equip := { equipSn := "x", attr := { extral1Value := 3, extral2Value := 8 } }

def stall : World where
  player u :=
    { asset := fun _ => 10, backpackStatus := fun i => u = 1 ∧ i = 0, myBackpack := fun _ => unequal }

def onSale : World :=
  (stall.setPlayer 1 ((stall.player 1).take 0)).setMarket ⟨"", 5, "x", unequal.attr, 86400⟩

theorem saleGoods_stall : stall.saleGoods 1 0 5 = some { world := onSale, result := some 0 } := rfl

theorem indexed_onSale : onSale.Indexed := Indexed.setMarket Index.indexes_nil (by decide)

theorem stillOn_onSale : onSale.StillOn onSale "x" := ⟨86400, rfl⟩

theorem exists_buyMarketGoods_onSale :
    ∃ bought, onSale.buyMarketGoods 2 "x" "email" = some bought ∧ bought.result = some 0 := by
  have hbuy : (onSale.buyMarketGoods 2 "x" "email").map Outcome.result = some (some 0) := by
    decide +kernel
  exact Option.map_eq_some_iff.mp hbuy

theorem returned_iff_bought : ∃ bought, onSale.buyMarketGoods 2 "x" "email" = some bought ∧
    (Receives onSale bought.world 2 unequal ↔ (3 : Int) = 8) := by
  obtain ⟨bought, hbuy, hresult⟩ := exists_buyMarketGoods_onSale
  have hreturned := returned_iff (x := unequal) rfl saleGoods_stall rfl indexed_onSale stillOn_onSale
  exact ⟨bought, hbuy, hreturned.1 2 "email" bought hbuy hresult⟩

theorem not_returned_bought : ¬ ∀ (w t : World) (u v : UInt32) (position diamondCost : Int)
    (key : String) (o bought : Outcome), w.saleGoods u position diamondCost = some o →
      o.result = some 0 → t.Indexed →
      o.world.StillOn t ((w.player u).myBackpack position.toNat).equipSn →
      t.buyMarketGoods v ((w.player u).myBackpack position.toNat).equipSn key = some bought →
      bought.result = some 0 →
      Receives t bought.world v ((w.player u).myBackpack position.toNat) := by
  intro h
  obtain ⟨bought, hbuy, hresult⟩ := exists_buyMarketGoods_onSale
  have hreceived : Receives onSale bought.world 2 unequal :=
    h stall onSale 1 2 0 5 "email" _ bought saleGoods_stall rfl indexed_onSale stillOn_onSale hbuy
      hresult
  have hlisted : onSale.listing "x" = some ⟨"", 5, "x", unequal.attr, 86400⟩ := rfl
  have hequal := (receives_buyMarketGoods_iff (x := unequal) indexed_onSale hlisted hbuy hresult rfl
    rfl).mp hreceived
  exact absurd hequal (by decide)

end World

end IceBridge.Gateway
