import IceBridge.Gateway.Market
import IceBridge.Lib.Holdings

/-! Every equip is in one place. Each request exchanges two places, or two and then two more
when the market closes the gap that a listing leaves; only an email that is opened with a full
backpack takes an equip out of the world. -/

namespace IceBridge.Gateway

inductive Place
  | backpack (u : UInt32) (i : ℕ)
  | hero (u : UInt32) (heroUuid : String) (i : ℕ)
  | market (i : ℕ)
  | email (u : UInt32) (key : String)
  deriving DecidableEq

@[simp] theorem setEquip_equipSn (e : Equip) : (setEquip e).equipSn = e.equipSn := by
  unfold setEquip
  split_ifs <;> rfl

@[simp] theorem setEquip_witchPannle (e : Equip) : (setEquip e).witchPannle = e.witchPannle := by
  unfold setEquip
  split_ifs <;> rfl

namespace World
variable {w t : World} {u : UInt32}

def holds (w : World) : Place → Option String
  | .backpack u i =>
    if (w.player u).backpackStatus i then some ((w.player u).myBackpack i).equipSn else none
  | .hero u heroUuid i => (((w.player u).heroEquip heroUuid)[i]?).bind fun e =>
    if e.witchPannle = 1 then some e.equipSn else none
  | .market i => (w.gloabalMarket[i]?).map MarketGoods.equipSn
  | .email u key => (w.emailSale u key).bind fun email =>
    if email.diamond ≤ 0 then some email.equip.equipSn else none

structure Consistent (w : World) : Prop where
  once : Holdings.InOnePlace w.holds w.created
  known : Holdings.Known w.holds w.created
  index : ∀ sn i, w.marketIndex sn = some i ↔ w.holds (.market i) = some sn
  cost : ∀ e ∈ w.gloabalMarket, 0 < e.diamondCost
  mail : ∀ u, w.online u = true → (w.player u).emailSaleList = w.emailSale u

theorem Consistent.eq_of_holds {p q : Place} {sn : String} (hw : w.Consistent)
    (hp : w.holds p = some sn) (hq : w.holds q = some sn) : p = q :=
  (hw.once sn (hw.known p sn hp)).unique hp hq

theorem Consistent.indexed (hw : w.Consistent) : w.Indexed := by
  intro sn i
  rw [hw.index sn i, List.getElem?_map]
  rfl

theorem Consistent.perm {σ : Equiv.Perm Place} (hw : w.Consistent)
    (hholds : t.holds = w.holds ∘ σ) (hcreated : t.created = w.created)
    (hindex : ∀ sn i, t.marketIndex sn = some i ↔ t.holds (.market i) = some sn)
    (hcost : ∀ e ∈ t.gloabalMarket, 0 < e.diamondCost)
    (hmail : ∀ u, t.online u = true → (t.player u).emailSaleList = t.emailSale u) :
    t.Consistent := by
  refine ⟨?_, ?_, hindex, hcost, hmail⟩
  · rw [hholds, hcreated]
    exact Holdings.inOnePlace_perm hw.once _
  · rw [hholds, hcreated]
    exact Holdings.known_perm hw.known _

theorem Consistent.setPlayer {p : Player} {a b : Place} (hw : w.Consistent)
    (hmail : p.emailSaleList = (w.player u).emailSaleList)
    (hholds : (w.setPlayer u p).holds = w.holds ∘ Equiv.swap a b) :
    (w.setPlayer u p).Consistent := by
  refine hw.perm hholds rfl (fun sn i => hw.index sn i) hw.cost fun v hv => ?_
  rw [setPlayer_player]
  split_ifs with hvu
  · rw [hmail, setPlayer_emailSale, hvu]
    exact hw.mail u (hvu ▸ hv)
  · exact hw.mail v hv

theorem getBackpack_free {p : Player} {b : ℕ} (hb : p.getBackpack = some b) :
    p.backpackStatus b = false := by
  unfold Player.getBackpack at hb
  split_ifs at hb
  simpa using List.find?_some hb

theorem holds_backpack_free {b : ℕ} (hb : (w.player u).getBackpack = some b) :
    w.holds (.backpack u b) = none := by
  simp [holds, getBackpack_free hb]

theorem holds_put (e : Equip) (b : ℕ) :
    (w.setPlayer u ((w.player u).put b e)).holds =
      Function.update w.holds (.backpack u b) (some e.equipSn) := by
  funext p
  cases p with
  | backpack v i =>
    by_cases hv : v = u <;> by_cases hi : i = b <;> simp [holds, Player.put, hv, hi]
  | hero v heroUuid i => by_cases hv : v = u <;> simp [holds, Player.put, hv]
  | market i => simp [holds]
  | email v key => simp [holds]

theorem consistent_openBox {o : Outcome} {sn : String} {attr : EquipAttr} (hw : w.Consistent)
    (ho : w.openBox u sn attr = some o) : o.world.Consistent := by
  rcases openBox_cases ho with ⟨_, -, rfl⟩ | ⟨b, sn', hb, hsn, rfl⟩
  · exact hw
  · unfold createSn at hsn
    split_ifs at hsn with hnew
    obtain rfl := Option.some.inj hsn
    have hholds := holds_put (w := w) (u := u)
      { whereUuid := "NoEquipUUID", position := b, equipSn := sn, attr, diamondCost := 10 } b
    refine ⟨?_, ?_, hw.index, hw.cost, fun v hv => ?_⟩
    · change Holdings.InOnePlace (holds (w.setPlayer u _)) (sn :: w.created)
      rw [hholds]
      exact Holdings.inOnePlace_put hw.once hw.known (holds_backpack_free hb) hnew
    · change Holdings.Known (holds (w.setPlayer u _)) (sn :: w.created)
      rw [hholds]
      exact Holdings.known_put hw.known
    · by_cases hvu : v = u
      · subst hvu
        simpa [Player.put] using hw.mail v hv
      · simpa [hvu] using hw.mail v hv

theorem setSlot_slot_of_ne (p : Player) {heroUuid v : String} {i j : ℕ} (e : Equip)
    (hne : ¬ (v = heroUuid ∧ j = i)) :
    ((p.setSlot heroUuid i e).heroEquip v)[j]? = (p.heroEquip v)[j]? := by
  unfold Player.setSlot
  by_cases hv : v = heroUuid
  · have hij : i ≠ j := by
      rintro rfl
      exact hne ⟨hv, rfl⟩
    simp [hv, hij]
  · simp [hv]

theorem holds_setPlayer_of_ne {p : Player} {heroUuid : String} {b i : ℕ} {q : Place}
    (hback : ∀ j, j ≠ b → p.backpackStatus j = (w.player u).backpackStatus j ∧
      p.myBackpack j = (w.player u).myBackpack j)
    (hhero : ∀ v j, ¬ (v = heroUuid ∧ j = i) →
      (p.heroEquip v)[j]? = ((w.player u).heroEquip v)[j]?)
    (hqb : q ≠ .backpack u b) (hqh : q ≠ .hero u heroUuid i) :
    (w.setPlayer u p).holds q = w.holds q := by
  cases q with
  | backpack v j =>
    by_cases hv : v = u
    · have hj : j ≠ b := by
        rintro rfl
        exact hqb (by rw [hv])
      simp [holds, hv, hback j hj]
    · simp [holds, hv]
  | hero v uuid j =>
    by_cases hv : v = u
    · have hslot : ¬ (uuid = heroUuid ∧ j = i) := by
        rintro ⟨rfl, rfl⟩
        exact hqh (by rw [hv])
      simp [holds, hv, hhero uuid j hslot]
    · simp [holds, hv]
  | market j => rfl
  | email v key => rfl

theorem consistent_dressAt {o : Outcome} {h : Hero} {b i : ℕ} (hw : w.Consistent)
    (hb : (w.player u).backpackStatus b = true) (ho : w.dressAt u h b i = some o) :
    o.world.Consistent := by
  unfold dressAt at ho
  obtain ⟨e1, he1, ho⟩ := Option.bind_eq_some_iff.mp ho
  have hlt : i < ((w.player u).heroEquip h.heroUuid).length := (List.getElem?_eq_some_iff.mp he1).1
  split_ifs at ho with hoccupied <;> obtain rfl := Option.some.inj ho
  · refine hw.setPlayer (a := .backpack u b) (b := .hero u h.heroUuid i) (by rfl) ?_
    apply Holdings.eq_comp_swap
    · simp [holds, Player.put, Player.setSlot, he1, hoccupied]
    · simp [holds, Player.put, Player.setSlot, hlt, hb]
    · intro q hqb hqh
      refine holds_setPlayer_of_ne (fun j hj => ?_) (fun v j hne => ?_) hqb hqh
      · simp [Player.put, Player.setSlot, hj]
      · exact setSlot_slot_of_ne _ _ hne
  · refine hw.setPlayer (a := .backpack u b) (b := .hero u h.heroUuid i) (by rfl) ?_
    apply Holdings.eq_comp_swap
    · simp [holds, Player.take, Player.setSlot, he1, hoccupied]
    · simp [holds, Player.take, Player.setSlot, hlt, hb]
    · intro q hqb hqh
      refine holds_setPlayer_of_ne (fun j hj => ?_) (fun v j hne => ?_) hqb hqh
      · simp [Player.take, Player.setSlot, hj]
      · exact setSlot_slot_of_ne _ _ hne

theorem consistent_dressEquip {o : Outcome} {whichHero backpackPosition heroPosition : Int}
    (hw : w.Consistent)
    (ho : w.dressEquip u whichHero backpackPosition heroPosition = some o) :
    o.world.Consistent := by
  rcases dressEquip_cases ho with ⟨_, -, rfl⟩ | ⟨h, i, hb, -, ho⟩
  · exact hw
  · exact consistent_dressAt hw hb ho

theorem consistent_unloadEquip {o : Outcome} {whichHero position : Int} (hw : w.Consistent)
    (ho : w.unloadEquip u whichHero position = some o) : o.world.Consistent := by
  rcases unloadEquip_cases ho with ⟨_, -, rfl⟩ | ⟨h, e, b, -, he, hone, hb, rfl⟩
  · exact hw
  · have hlt := (List.getElem?_eq_some_iff.mp he).1
    have hfree := getBackpack_free hb
    refine hw.setPlayer (a := .hero u h.heroUuid position.toNat) (b := .backpack u b)
      (by rfl) ?_
    apply Holdings.eq_comp_swap
    · simp [holds, Player.put, Player.setSlot, hlt, hfree]
    · simp [holds, Player.put, Player.setSlot, he, hone]
    · intro q hqh hqb
      refine holds_setPlayer_of_ne (fun j hj => ?_) (fun v j hne => ?_) hqb hqh
      · simp [Player.put, Player.setSlot, hj]
      · exact setSlot_slot_of_ne _ _ hne

theorem consistent_setMarket {b : ℕ} {res : MarketGoods} (hw : w.Consistent)
    (hb : (w.player u).backpackStatus b = true)
    (hsn : res.equipSn = ((w.player u).myBackpack b).equipSn) (hcost : 0 < res.diamondCost) :
    ((w.setPlayer u ((w.player u).take b)).setMarket res).Consistent := by
  set n := w.gloabalMarket.length with hn
  have hmarket : ∀ i, ((w.setPlayer u ((w.player u).take b)).setMarket res).holds (.market i) =
      if i = n then some res.equipSn else w.holds (.market i) := by
    intro i
    by_cases hi : i = n
    · simp [holds, setMarket, hi, hn]
    · rcases Nat.lt_or_gt_of_ne hi with hlt | hgt
      · simp [holds, setMarket, hi, List.getElem?_append_left hlt]
      · have hlong : (w.gloabalMarket ++ [res]).length ≤ i := by
          rw [List.length_append, List.length_singleton]
          omega
        simp [holds, setMarket, hi, List.getElem?_eq_none hlong,
          List.getElem?_eq_none (show w.gloabalMarket.length ≤ i by omega)]
  refine hw.perm (σ := Equiv.swap (.backpack u b) (.market n)) (Holdings.eq_comp_swap ?_ ?_ ?_) rfl
    (fun sn i => ?_) (fun e he => ?_) (fun v hv => ?_)
  · simp [holds, setMarket, Player.take, hn]
  · rw [hmarket, if_pos rfl, hsn]
    simp [holds, hb]
  · intro q hqb hqm
    cases q with
    | backpack v j =>
      by_cases hv : v = u
      · have hj : j ≠ b := by
          rintro rfl
          exact hqb (by rw [hv])
        simp [holds, setMarket, Player.take, hv, hj]
      · simp [holds, setMarket, hv]
    | hero v heroUuid j => by_cases hv : v = u <;> simp [holds, setMarket, Player.take, hv]
    | market j =>
      have hj : j ≠ n := by
        rintro rfl
        exact hqm rfl
      rw [hmarket, if_neg hj]
    | email v key => simp [holds, setMarket]
  · have hsold : w.holds (.backpack u b) = some res.equipSn := by simp [holds, hb, hsn]
    have hend : w.holds (.market n) = none := by simp [holds, hn]
    rw [hmarket]
    change Function.update w.marketIndex res.equipSn (some n) sn = some i ↔ _
    by_cases hres : sn = res.equipSn
    · rw [hres, Function.update_self]
      by_cases hi : i = n
      · simp [hi]
      · have hother : w.holds (.market i) ≠ some res.equipSn := fun hmi =>
          Place.noConfusion (hw.eq_of_holds hmi hsold)
        simp [hi, hother, eq_comm]
    · rw [Function.update_of_ne hres, hw.index]
      by_cases hi : i = n
      · simp [hi, hend, Ne.symm hres]
      · rw [if_neg hi]
  · rcases List.mem_append.mp he with he | he
    · exact hw.cost e he
    · rw [List.mem_singleton.mp he]
      exact hcost
  · by_cases hvu : v = u
    · subst hvu
      simpa [setMarket, Player.take] using hw.mail v hv
    · simpa [setMarket, hvu] using hw.mail v hv

theorem consistent_saleGoods {o : Outcome} {position diamondCost : Int} (hw : w.Consistent)
    (ho : w.saleGoods u position diamondCost = some o) : o.world.Consistent := by
  rcases saleGoods_cases ho with ⟨_, -, rfl⟩ | ⟨hb, rfl⟩
  · exact hw
  · refine consistent_setMarket hw hb rfl ?_
    dsimp only
    split_ifs <;> omega

/-- The place of the last listing is empty, and the listing is where the one deleted was. -/
theorem holds_market_delMarket {sn : String} {i : ℕ} (hw : w.Consistent)
    (hi : w.marketIndex sn = some i) (hmarket : t.gloabalMarket = w.gloabalMarket)
    (hindex : t.marketIndex = w.marketIndex) (j : ℕ) :
    (t.delMarket sn).holds (.market j) =
      if j = w.gloabalMarket.length - 1 then none
      else if j = i then w.holds (.market (w.gloabalMarket.length - 1))
      else w.holds (.market j) := by
  obtain ⟨last, hlast, hlt, hdel⟩ := hw.indexed.delMarket_eq hi hmarket hindex
  rw [hdel]
  simp only [holds, Index.getElem?_moveLast, hlast]
  by_cases hj : j + 1 < w.gloabalMarket.length
  · have hne : j ≠ w.gloabalMarket.length - 1 := by omega
    rw [if_pos hj, if_neg hne]
    split_ifs <;> rfl
  · rw [if_neg hj]
    by_cases hne : j = w.gloabalMarket.length - 1
    · simp [hne]
    · have hnone : w.gloabalMarket[j]? = none := List.getElem?_eq_none (by omega)
      have hji : j ≠ i := by omega
      simp [hne, hji, hnone]

theorem index_delMarket {sn : String} (hw : w.Consistent)
    (hmarket : t.gloabalMarket = w.gloabalMarket) (hindex : t.marketIndex = w.marketIndex)
    (sn' : String) (j : ℕ) :
    (t.delMarket sn).marketIndex sn' = some j ↔ (t.delMarket sn).holds (.market j) = some sn' := by
  have hdel := ((hw.indexed.of_eq hmarket hindex).delMarket sn).1
  rw [hdel sn' j, List.getElem?_map]
  rfl

theorem holds_setEmailSale (uuid : UInt32) (key : String) (email : EmailSale) :
    (w.setEmailSale uuid key email).holds = Function.update w.holds (.email uuid key)
      (if email.diamond ≤ 0 then some email.equip.equipSn else none) := by
  funext q
  cases q with
  | backpack v i => simp [holds, setEmailSale_player]
  | hero v heroUuid i => simp [holds, setEmailSale_player]
  | market i => simp [holds, (setEmailSale_fields uuid key email).1]
  | email v k =>
    by_cases hv : v = uuid
    · by_cases hk : k = key
      · by_cases hd : email.diamond ≤ 0 <;>
          simp [holds, setEmailSale_emailSale, hv, hk, EmailSale.written, hd]
      · simp [holds, setEmailSale_emailSale, hv, hk]
    · simp [holds, setEmailSale_emailSale, hv]

theorem mail_setEmailSale (uuid : UInt32) (key : String) (email : EmailSale)
    (hmail : ∀ u, w.online u = true → (w.player u).emailSaleList = w.emailSale u) (v : UInt32)
    (hv : (w.setEmailSale uuid key email).online v = true) :
    ((w.setEmailSale uuid key email).player v).emailSaleList =
      (w.setEmailSale uuid key email).emailSale v := by
  rw [(setEmailSale_fields uuid key email).2.2.2] at hv
  rw [setEmailSale_player, setEmailSale_emailSale]
  by_cases hvu : v = uuid
  · subst hvu
    simp [hv, hmail v hv]
  · simp [hvu, hmail v hv]

theorem cost_delMarket (sn : String) (hw : w.Consistent)
    (hmarket : t.gloabalMarket = w.gloabalMarket) (hindex : t.marketIndex = w.marketIndex) :
    ∀ e ∈ (t.delMarket sn).gloabalMarket, 0 < e.diamondCost := by
  intro e he
  rw [((hw.indexed.of_eq hmarket hindex).delMarket sn).2.mem_iff, hmarket] at he
  exact hw.cost e (List.mem_of_mem_filter he)

theorem consistent_delMarket {r : World} {sn : String} {i : ℕ} {d : Place} (hw : w.Consistent)
    (hi : w.marketIndex sn = some i) (hmarket : t.gloabalMarket = w.gloabalMarket)
    (hindex : t.marketIndex = w.marketIndex)
    (hrmarket : r.gloabalMarket = (t.delMarket sn).gloabalMarket)
    (hrindex : r.marketIndex = (t.delMarket sn).marketIndex) (hcreated : r.created = w.created)
    (hd : ∀ j, d ≠ .market j) (hempty : w.holds d = none) (hput : r.holds d = some sn)
    (hrest : ∀ q, q ≠ d → (∀ j, q ≠ .market j) → r.holds q = w.holds q)
    (hmail : ∀ u, r.online u = true → (r.player u).emailSaleList = r.emailSale u) :
    r.Consistent := by
  have hheld := (hw.index sn i).mp hi
  have hrholds : ∀ j, r.holds (.market j) = (t.delMarket sn).holds (.market j) := by
    intro j
    simp only [holds, hrmarket]
  have hdel := holds_market_delMarket hw hi hmarket hindex
  refine hw.perm (σ := (Equiv.swap (.market i) (.market (w.gloabalMarket.length - 1))).trans
    (Equiv.swap d (.market i))) ?_ hcreated (fun sn' j => ?_) ?_ hmail
  · apply Holdings.eq_comp_swap_swap (hd _) hempty
    · rw [hput, hheld]
    · rw [hrholds, hdel, if_pos rfl]
    · intro hil
      have hne : i ≠ w.gloabalMarket.length - 1 := fun h => hil (by rw [h])
      rw [hrholds, hdel, if_neg hne, if_pos rfl]
    · intro q hqd hqi hql
      cases q with
      | market j =>
        have hjl : j ≠ w.gloabalMarket.length - 1 := by
          rintro rfl
          exact hql rfl
        have hji : j ≠ i := by
          rintro rfl
          exact hqi rfl
        rw [hrholds, hdel, if_neg hjl, if_neg hji]
      | backpack v j => exact hrest _ hqd fun j h => Place.noConfusion h
      | hero v heroUuid j => exact hrest _ hqd fun j h => Place.noConfusion h
      | email v key => exact hrest _ hqd fun j h => Place.noConfusion h
  · rw [hrindex, hrholds]
    exact index_delMarket hw hmarket hindex sn' j
  · rw [hrmarket]
    exact cost_delMarket sn hw hmarket hindex

theorem consistent_pushNotify {i : ℕ} {value : MarketGoods} {key : String} (hw : w.Consistent)
    (hi : w.gloabalMarket[i]? = some value) (ht : w.pushNotify value key = some t) :
    t.Consistent := by
  obtain ⟨key', hkey, ht'⟩ := Option.bind_eq_some_iff.mp ht
  obtain ⟨hkk, hunused⟩ := createEmailUuid_eq hkey
  subst hkk
  obtain rfl := Option.some.inj ht'
  set uuid := w.findUserUuid value.player
  have hsn := (hw.index value.equipSn i).mpr (by simp [holds, hi])
  obtain ⟨hplayer, honline, -, hemail, -, hcreated⟩ := delMarket_frame (w := w) value.equipSn
  set m := w.delMarket value.equipSn
  obtain ⟨hfmarket, hfindex, hfcreated, hfonline⟩ := setEmailSale_fields (w := m) uuid key'
    { diamond := 0, otherName := "MySelf", equip :=
      { witchPannle := 2, whereUuid := key', equipSn := value.equipSn, diamondCost := 10,
        attr := { value.attr with extral1Value := value.attr.extral2Value } } }
  refine consistent_delMarket (t := w) (d := .email uuid key') hw hsn rfl rfl hfmarket hfindex
    (hfcreated.trans hcreated) (fun j h => Place.noConfusion h) ?_ ?_ ?_ ?_
  · simp [holds, hunused]
  · rw [holds_setEmailSale, Function.update_self]
    simp
  · intro q hqd hqm
    rw [holds_setEmailSale, Function.update_of_ne hqd]
    cases q with
    | market j => exact absurd rfl (hqm j)
    | backpack v j => simp only [holds, hplayer]
    | hero v heroUuid j => simp only [holds, hplayer]
    | email v k => simp only [holds, hemail]
  · refine mail_setEmailSale (w := m) uuid key' _ fun v hv => ?_
    rw [hplayer, hemail]
    exact hw.mail v (honline ▸ hv)

theorem consistent_buyMarketGoods {o : Outcome} {goodsSn key : String} (hw : w.Consistent)
    (ho : w.buyMarketGoods u goodsSn key = some o) : o.world.Consistent := by
  unfold buyMarketGoods at ho
  simp only at ho
  split at ho
  · obtain rfl := Option.some.inj ho
    exact hw
  next i hi =>
  split at ho
  · obtain rfl := Option.some.inj ho
    exact hw
  · obtain rfl := Option.some.inj ho
    exact hw
  next e b he hb =>
  split at ho
  swap
  · obtain rfl := Option.some.inj ho
    exact hw
  obtain ⟨key', hkey, ho'⟩ := Option.bind_eq_some_iff.mp ho
  obtain ⟨hkk, hunused⟩ := createEmailUuid_eq hkey
  subst hkk
  obtain rfl := Option.some.inj ho'
  dsimp only
  have hsn : w.marketIndex e.equipSn = some i := (hw.index e.equipSn i).mpr (by simp [holds, he])
  set p := (w.player u).addAsset (Pi.single .diamond (-e.diamondCost))
  set t := ((w.setPlayer u p).updateDiamond u).setPlayer u (p.put b
    { position := b, equipSn := e.equipSn, diamondCost := 10,
      attr := { e.attr with extral1Value := e.attr.extral2Value } }) with ht
  obtain ⟨hplayer, honline, -, hemail, -, hcreated⟩ := delMarket_frame (w := t) e.equipSn
  have hcost := cost_delMarket (t := t) e.equipSn hw rfl rfl
  set m := t.delMarket e.equipSn
  set uuid := w.findUserUuid e.player
  -- what is read at position `i` is the cost of a listing
  have hdiamond : ¬ (m.gloabalMarket[i]?.getD e).diamondCost ≤ 0 := by
    rw [not_le]
    cases hmi : m.gloabalMarket[i]? with
    | none => exact hw.cost e (List.mem_of_getElem? he)
    | some e' => exact hcost e' (List.mem_of_getElem? hmi)
  have hholds : (m.setEmailSale uuid key'
      { diamond := (m.gloabalMarket[i]?.getD e).diamondCost, otherName := (w.player u).name }).holds
        = m.holds := by
    have hnone : m.holds (.email uuid key') = none := by
      simp [holds, hunused]
    rw [holds_setEmailSale, if_neg hdiamond, ← hnone, Function.update_eq_self]
  obtain ⟨hfmarket, hfindex, hfcreated, hfonline⟩ := setEmailSale_fields (w := m) uuid key'
    { diamond := (m.gloabalMarket[i]?.getD e).diamondCost, otherName := (w.player u).name }
  refine consistent_delMarket (t := t) (d := .backpack u b) hw hsn rfl rfl hfmarket hfindex
    (hfcreated.trans hcreated) (fun j h => Place.noConfusion h) (holds_backpack_free hb) ?_ ?_ ?_
  · rw [hholds]
    simp [holds, hplayer, ht, Player.put]
  · intro q hqd hqm
    rw [hholds]
    cases q with
    | market j => exact absurd rfl (hqm j)
    | backpack v j =>
      by_cases hv : v = u
      · have hj : j ≠ b := by
          rintro rfl
          exact hqd (by rw [hv])
        simp [holds, hplayer, ht, Player.put, p, Player.addAsset, hv, hj]
      · simp [holds, hplayer, ht, updateDiamond, hv]
    | hero v heroUuid j =>
      by_cases hv : v = u
      · simp [holds, hplayer, ht, Player.put, p, Player.addAsset, hv]
      · simp [holds, hplayer, ht, updateDiamond, hv]
    | email v k => simp [holds, hemail, ht, updateDiamond]
  · refine mail_setEmailSale (w := m) uuid key' _ fun v hv => ?_
    rw [hplayer, hemail]
    rw [honline] at hv
    by_cases hvu : v = u
    · subst hvu
      simpa [ht, updateDiamond, Player.put, p, Player.addAsset] using hw.mail v hv
    · simpa [ht, updateDiamond, hvu] using hw.mail v hv

theorem holds_delEmailSale (key : String) :
    (w.delEmailSale u key).holds = Function.update w.holds (.email u key) none := by
  funext q
  cases q with
  | backpack v i => simp [holds, delEmailSale_player]
  | hero v heroUuid i => simp [holds, delEmailSale_player]
  | market i => simp [holds, delEmailSale]
  | email v k => 
    by_cases hv : v = u
    · by_cases hk : k = key <;> simp [holds, delEmailSale, hv, hk]
    · simp [holds, delEmailSale, hv]

theorem mail_delEmailSale (key : String)
    (hmail : ∀ u, w.online u = true → (w.player u).emailSaleList = w.emailSale u) (v : UInt32)
    (hv : w.online v = true) :
    ((w.delEmailSale u key).player v).emailSaleList = (w.delEmailSale u key).emailSale v := by
  rw [delEmailSale_player]
  by_cases hvu : v = u
  · subst hvu
    simp [delEmailSale, hmail v hv]
  · simp [delEmailSale, hvu, hmail v hv]

theorem consistent_delEmailSale {key : String} {σ : Equiv.Perm Place} (hw : w.Consistent)
    (hmarket : t.gloabalMarket = w.gloabalMarket) (hindex : t.marketIndex = w.marketIndex)
    (hcreated : t.created = w.created)
    (hmail : ∀ u, t.online u = true → (t.player u).emailSaleList = t.emailSale u)
    (hholds : (t.delEmailSale u key).holds = w.holds ∘ σ) :
    (t.delEmailSale u key).Consistent := by
  refine hw.perm hholds hcreated (fun sn i => ?_) ?_ fun v hv => mail_delEmailSale key hmail v hv
  · change t.marketIndex sn = some i ↔ (t.gloabalMarket[i]?).map MarketGoods.equipSn = some sn
    rw [hindex, hmarket]
    exact hw.index sn i
  · change ∀ e ∈ t.gloabalMarket, 0 < e.diamondCost
    rw [hmarket]
    exact hw.cost

theorem consistent_getEmailGoods_diamond {key : String} {email : EmailSale} (hw : w.Consistent)
    (honline : w.online u = true) (hemail : (w.player u).emailSaleList key = some email)
    (hd : 0 < email.diamond) : (w.getEmailGoods u key).world.Consistent := by
  have hstored : w.emailSale u key = some email := by rw [← hw.mail u honline, hemail]
  have hnone : w.holds (.email u key) = none := by simp [holds, hstored, hd]
  simp only [getEmailGoods, hemail, if_neg (not_le.mpr hd)]
  refine consistent_delEmailSale (σ := Equiv.refl _) hw rfl rfl rfl (fun v hv => ?_) ?_
  · by_cases hvu : v = u
    · subst hvu
      simpa [updateDiamond, Player.addAsset] using hw.mail v hv
    · simpa [updateDiamond, hvu] using hw.mail v hv
  · rw [holds_delEmailSale]
    funext q
    by_cases hq : q = .email u key
    · rw [hq, Function.update_self]
      exact hnone.symm
    · rw [Function.update_of_ne hq]
      cases q with
      | backpack v i => by_cases hv : v = u <;> simp [holds, updateDiamond, Player.addAsset, hv]
      | hero v heroUuid i =>
        by_cases hv : v = u <;> simp [holds, updateDiamond, Player.addAsset, hv]
      | market i => rfl
      | email v k => rfl

theorem consistent_getEmailGoods_equip {key : String} {email : EmailSale} {b : ℕ}
    (hw : w.Consistent) (honline : w.online u = true)
    (hemail : (w.player u).emailSaleList key = some email) (hd : email.diamond ≤ 0)
    (hb : (w.player u).getBackpack = some b) : (w.getEmailGoods u key).world.Consistent := by
  have hstored : w.emailSale u key = some email := by rw [← hw.mail u honline, hemail]
  simp only [getEmailGoods, hemail, if_pos hd, hb]
  refine consistent_delEmailSale (σ := Equiv.swap (.backpack u b) (.email u key)) hw rfl rfl rfl
    (fun v hv => ?_) ?_
  · by_cases hvu : v = u
    · subst hvu
      simpa [Player.put] using hw.mail v hv
    · simpa [hvu] using hw.mail v hv
  · rw [holds_delEmailSale, holds_put]
    apply Holdings.eq_comp_swap
    · simp [holds, hstored, hd]
    · rw [Function.update_self, holds_backpack_free hb]
    · intro q hqb hqe
      rw [Function.update_of_ne hqe, Function.update_of_ne hqb]

theorem not_inOnePlace_getEmailGoods {key : String} {email : EmailSale} (hw : w.Consistent)
    (honline : w.online u = true) (hemail : (w.player u).emailSaleList key = some email)
    (hd : email.diamond ≤ 0) (hfull : (w.player u).getBackpack = none) :
    ¬ Holdings.InOnePlace (w.getEmailGoods u key).world.holds
      (w.getEmailGoods u key).world.created := by
  have hstored : w.emailSale u key = some email := by rw [← hw.mail u honline, hemail]
  have hheld : w.holds (.email u key) = some email.equip.equipSn := by simp [holds, hstored, hd]
  simp only [getEmailGoods, hemail, if_pos hd, hfull]
  rw [holds_delEmailSale]
  exact Holdings.not_inOnePlace_drop hw.once hw.known hheld

def RoomForEquip (w : World) : GoodsEvent → Prop
  | .getEmailGoods u key => ∀ email, (w.player u).emailSaleList key = some email →
      email.diamond ≤ 0 → (w.player u).getBackpack ≠ none
  | _ => True

theorem consistent_goodsStep {e : GoodsEvent} (hw : w.Consistent) (ht : w.goodsStep e = some t)
    (hC : w.RoomForEquip e) : t.Consistent := by
  cases e with
  | openBox u sn attr =>
    obtain ⟨-, o, ho, rfl⟩ := request_eq_some ht
    exact consistent_openBox hw ho
  | dressEquip u whichHero backpackPosition heroPosition =>
    obtain ⟨-, o, ho, rfl⟩ := request_eq_some ht
    exact consistent_dressEquip hw ho
  | unloadEquip u whichHero position =>
    obtain ⟨-, o, ho, rfl⟩ := request_eq_some ht
    exact consistent_unloadEquip hw ho
  | saleGoods u position diamondCost =>
    obtain ⟨-, o, ho, rfl⟩ := request_eq_some ht
    exact consistent_saleGoods hw ho
  | buyMarketGoods u goodsSn emailUuid =>
    obtain ⟨-, o, ho, rfl⟩ := request_eq_some ht
    exact consistent_buyMarketGoods hw ho
  | getEmailGoods u key =>
    obtain ⟨honline, o, ho, rfl⟩ := request_eq_some ht
    obtain rfl := Option.some.inj ho
    cases hemail : (w.player u).emailSaleList key with
    | none =>
      simp only [getEmailGoods, hemail]
      exact hw
    | some email =>
      by_cases hd : email.diamond ≤ 0
      · obtain ⟨b, hb⟩ := Option.ne_none_iff_exists'.mp (hC email hemail hd)
        exact consistent_getEmailGoods_equip hw honline hemail hd hb
      · exact consistent_getEmailGoods_diamond hw honline hemail (not_le.mp hd)
  | pushNotify i key =>
    obtain ⟨value, hi, ht⟩ := Option.bind_eq_some_iff.mp ht
    exact consistent_pushNotify hw hi ht

theorem not_inOnePlace_goodsStep {e : GoodsEvent} (hw : w.Consistent)
    (ht : w.goodsStep e = some t) (hC : ¬ w.RoomForEquip e) :
    ¬ Holdings.InOnePlace t.holds t.created := by
  cases e with
  | getEmailGoods u key =>
    obtain ⟨honline, o, ho, rfl⟩ := request_eq_some ht
    obtain rfl := Option.some.inj ho
    simp only [RoomForEquip, not_forall, not_not] at hC
    obtain ⟨email, hemail, hd, hfull⟩ := hC
    exact not_inOnePlace_getEmailGoods hw honline hemail hd hfull
  | openBox | dressEquip | unloadEquip | saleGoods | buyMarketGoods | pushNotify =>
    exact absurd trivial hC

theorem consistent_empty {w : World} (hback : ∀ u i, (w.player u).backpackStatus i = false)
    (hhero : ∀ u h, ∀ e ∈ (w.player u).heroEquip h, e.witchPannle ≠ 1)
    (hmail : ∀ u, (w.player u).emailSaleList = fun _ => none) (hsale : w.emailSale = fun _ _ => none)
    (hmarket : w.gloabalMarket = []) (hindex : w.marketIndex = fun _ => none)
    (hcreated : w.created = []) : w.Consistent := by
  have hnone : ∀ q, w.holds q = none := by
    intro q
    cases q with
    | backpack v i => simp [holds, hback]
    | hero v heroUuid i =>
      cases hi : ((w.player v).heroEquip heroUuid)[i]? with
      | none => simp [holds, hi]
      | some e => simp [holds, hi, hhero v heroUuid e (List.mem_of_getElem? hi)]
    | market i => simp [holds, hmarket]
    | email v k => simp [holds, hsale]
  refine ⟨?_, ?_, ?_, ?_, ?_⟩
  · simp [Holdings.InOnePlace, hcreated]
  · simp [Holdings.Known, hnone]
  · simp [hindex, hnone]
  · simp [hmarket]
  · simp [hmail, hsale]

theorem inOnePlace_run_iff (hw : w.Consistent) (es : List GoodsEvent) :
    Run.Always goodsStep (fun w => Holdings.InOnePlace w.holds w.created) w es ↔
      Run.EachStep goodsStep RoomForEquip w es :=
  Run.always_iff_eachStep_of_kept (J := Consistent) (fun _ hw => hw.once)
    (fun _ _ _ hw ht hC => consistent_goodsStep hw ht hC)
    (fun _ _ _ hw ht hC => not_inOnePlace_goodsStep hw ht hC) hw es

/-- Along a run every equip that a box gave is in one place, unless an email with an equip is
opened when the backpack is full. -/
theorem each_in_one_place_iff (hw : w.Consistent) (es : List GoodsEvent) :
    Run.Always goodsStep (fun w => ∀ sn ∈ w.created, ∃! p, w.holds p = some sn) w es ↔
      Run.EachStep goodsStep RoomForEquip w es :=
  inOnePlace_run_iff hw es

def openingDay : World := { findUserUuid := fun _ => 1 }

theorem consistent_openingDay : openingDay.Consistent :=
  consistent_empty (fun _ _ => rfl) (fun _ _ _ he => absurd he List.not_mem_nil) (fun _ => rfl)
    rfl rfl rfl rfl

theorem each_in_one_place_sale :
    Run.Always goodsStep (fun w => ∀ sn ∈ w.created, ∃! p, w.holds p = some sn) openingDay
      [.openBox 1 "sword" {}, .saleGoods 1 0 5, .pushNotify 0 "email", .getEmailGoods 1 "email"] := by
  refine (each_in_one_place_iff consistent_openingDay _).mpr ?_
  refine fun _ ht => ⟨trivial, ?_⟩
  obtain rfl := Option.some.inj ht
  refine fun _ ht => ⟨trivial, ?_⟩
  obtain rfl := Option.some.inj ht
  refine fun _ ht => ⟨trivial, ?_⟩
  obtain rfl := Option.some.inj ht
  exact fun _ _ => ⟨fun _ _ _ => by decide, trivial⟩

def fullBackpack : List GoodsEvent :=
  [.openBox 1 "sword" {}, .saleGoods 1 0 5, .pushNotify 0 "email"] ++
    ["a", "b", "c", "d", "e", "f", "g", "h", "i", "j", "k", "l"].map fun sn => .openBox 1 sn {}

theorem lost_with_full_backpack :
    ¬ ∀ w : World, w.Consistent → ∀ es : List GoodsEvent,
      Run.Always goodsStep (fun w => ∀ sn ∈ w.created, ∃! p, w.holds p = some sn) w es := by
  intro h
  have hrun := (inOnePlace_run_iff consistent_openingDay _).mp
    (h openingDay consistent_openingDay (fullBackpack ++ [.getEmailGoods 1 "email"]))
  have hfull : (Run.exec goodsStep openingDay fullBackpack).map (fun t => (t.online 1,
      (t.player 1).getBackpack, ((t.player 1).emailSaleList "email").map EmailSale.diamond)) =
        some (true, none, some 0) := by decide +kernel
  obtain ⟨t, ht, hstate⟩ := Option.map_eq_some_iff.mp hfull
  obtain ⟨honline, hstate⟩ := Prod.mk.inj hstate
  obtain ⟨hback, hemail⟩ := Prod.mk.inj hstate
  obtain ⟨email, hemail, hd⟩ := Option.map_eq_some_iff.mp hemail
  have hlast := (hrun.of_exec ht) _ (by simp [goodsStep, request, honline]; rfl)
  exact hlast.1 email hemail hd.le hback

end World

end IceBridge.Gateway
