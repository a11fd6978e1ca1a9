import IceBridge.Gateway.Places
import IceBridge.Gateway.Services

/-! What heroes wear. A slot of a hero is open when its number is below `cur_goods_space`. The
client names the slot or has `find_hero_equip_sn` search for one, which goes over all the slots,
those that are not open too. -/

namespace IceBridge.Gateway

def NothingWorn (slots : List Equip) : Prop := ∀ e ∈ slots, e.witchPannle ≠ 1

namespace Player
variable {p q : Player} {g h : Hero} {i : ℕ} {e : Equip}

/-- The equips that the hero wears are in open slots, and each has the hero and its slot noted. -/
def Fits (p : Player) (h : Hero) : Prop :=
  ∀ (j : ℕ) e, (p.heroEquip h.heroUuid)[j]? = some e → e.witchPannle = 1 →
    (j : Int) < h.curGoodsSpace ∧ e.whereUuid = h.heroUuid ∧ e.position = j

theorem fits_congr (hslots : q.heroEquip h.heroUuid = p.heroEquip h.heroUuid) :
    q.Fits h ↔ p.Fits h := by
  unfold Fits
  rw [hslots]

theorem fits_setSlot_iff (hp : p.Fits h) (hlt : i < (p.heroEquip h.heroUuid).length) :
    (p.setSlot h.heroUuid i e).Fits h ↔ (e.witchPannle = 1 →
      (i : Int) < h.curGoodsSpace ∧ e.whereUuid = h.heroUuid ∧ e.position = i) := by
  constructor
  · intro hfits
    refine hfits i e ?_
    simp [setSlot, hlt]
  · intro he j e' he' hworn
    by_cases hj : j = i
    · subst hj
      have hset : ((p.setSlot h.heroUuid j e).heroEquip h.heroUuid)[j]? = some e := by
        simp [setSlot, hlt]
      obtain rfl := Option.some.inj (hset.symm.trans he')
      exact he hworn
    · rw [World.setSlot_slot_of_ne p e fun hsame => hj hsame.2] at he'
      exact hp j e' he' hworn

theorem fits_setSlot_of_ne (hne : g.heroUuid ≠ h.heroUuid) :
    (p.setSlot h.heroUuid i e).Fits g ↔ p.Fits g :=
  fits_congr (Function.update_of_ne hne _ _)

end Player

theorem setEquip_of_named {e : Equip} (hblank : e.whereUuid ≠ "") (hblank' : e.whereUuid ≠ "  ") :
    setEquip e = e :=
  if_neg fun hor => hor.elim hblank hblank'

namespace World
variable {w t : World} {u : UInt32}

def Fitted (w : World) : Prop := ∀ u i h, (w.player u).myHero i = some h → (w.player u).Fits h

structure Named (w : World) : Prop where
  apart : ∀ u i j g h, (w.player u).myHero i = some g → (w.player u).myHero j = some h →
    g.heroUuid = h.heroUuid → i = j
  named : ∀ u i h, (w.player u).myHero i = some h → h.heroUuid ≠ "" ∧ h.heroUuid ≠ "  "

theorem myHero_of_player {p : Player} (ht : t.player = Function.update w.player u p)
    (hmine : p.myHero = (w.player u).myHero) (v : UInt32) :
    (t.player v).myHero = (w.player v).myHero := by
  rw [ht, Function.update_apply]
  split_ifs with hv
  · rw [hv, hmine]
  · rfl

structure SameWear (w t : World) : Prop where
  myHero : ∀ v, (t.player v).myHero = (w.player v).myHero
  heroEquip : ∀ v, (t.player v).heroEquip = (w.player v).heroEquip

namespace SameWear

theorem refl (w : World) : SameWear w w := ⟨fun _ => rfl, fun _ => rfl⟩

theorem trans {r : World} (h : SameWear w t) (h' : SameWear t r) : SameWear w r :=
  ⟨fun v => (h'.myHero v).trans (h.myHero v), fun v => (h'.heroEquip v).trans (h.heroEquip v)⟩

theorem of_player {p : Player} (ht : t.player = Function.update w.player u p)
    (hmine : p.myHero = (w.player u).myHero)
    (hslots : p.heroEquip = (w.player u).heroEquip) : SameWear w t := by
  refine ⟨myHero_of_player ht hmine, fun v => ?_⟩
  rw [ht, Function.update_apply]
  split_ifs with hv
  · rw [hv, hslots]
  · rfl

theorem delMarket (w : World) (sn : String) : SameWear w (w.delMarket sn) := by
  have hplayer := (delMarket_frame (w := w) sn).1
  exact ⟨fun v => by rw [hplayer], fun v => by rw [hplayer]⟩

theorem setEmailSale (w : World) (uuid : UInt32) (key : String) (email : EmailSale) :
    SameWear w (w.setEmailSale uuid key email) :=
  ⟨fun v => by rw [setEmailSale_player], fun v => by rw [setEmailSale_player]⟩

theorem delEmailSale (w : World) (u : UInt32) (key : String) :
    SameWear w (w.delEmailSale u key) :=
  ⟨fun v => by rw [delEmailSale_player], fun v => by rw [delEmailSale_player]⟩

theorem refused {o : Outcome} (ho : o.Refused w) : SameWear w o.world := by
  obtain ⟨result, -, rfl⟩ := ho
  exact refl w

theorem openBox {o : Outcome} {sn : String} {attr : EquipAttr}
    (ho : w.openBox u sn attr = some o) : SameWear w o.world := by
  rcases openBox_cases ho with hrefused | ⟨b, sn', -, -, rfl⟩
  · exact refused hrefused
  · exact of_player rfl rfl rfl

theorem saleGoods {o : Outcome} {position diamondCost : Int}
    (ho : w.saleGoods u position diamondCost = some o) : SameWear w o.world := by
  rcases saleGoods_cases ho with hrefused | ⟨-, rfl⟩
  · exact refused hrefused
  · exact of_player rfl rfl rfl

theorem buyMarketGoods {o : Outcome} {goodsSn key : String}
    (ho : w.buyMarketGoods u goodsSn key = some o) : SameWear w o.world := by
  unfold World.buyMarketGoods at ho
  dsimp only at ho
  split at ho
  · exact Option.some.inj ho ▸ refl w
  split at ho
  · exact Option.some.inj ho ▸ refl w
  · exact Option.some.inj ho ▸ refl w
  split_ifs at ho
  · obtain ⟨key', -, ho⟩ := Option.bind_eq_some_iff.mp ho
    obtain rfl := Option.some.inj ho
    refine SameWear.trans ?_ (setEmailSale _ _ _ _)
    refine SameWear.trans ?_ (delMarket _ _)
    exact of_player (Function.update_idem _ _ _) rfl rfl
  · exact Option.some.inj ho ▸ refl w

theorem getEmailGoods (w : World) (u : UInt32) (key : String) :
    SameWear w (w.getEmailGoods u key).world := by
  unfold World.getEmailGoods
  dsimp only
  split
  · exact refl w
  refine SameWear.trans ?_ (delEmailSale _ _ _)
  split
  · split
    · exact refl w
    · exact of_player rfl rfl rfl
  · exact of_player rfl rfl rfl

theorem pushNotify {value : MarketGoods} {key : String} (ht : w.pushNotify value key = some t) :
    SameWear w t := by
  obtain ⟨key', -, ht⟩ := Option.bind_eq_some_iff.mp ht
  obtain rfl := Option.some.inj ht
  exact (delMarket w _).trans (setEmailSale _ _ _ _)

theorem fitted_iff (h : SameWear w t) : t.Fitted ↔ w.Fitted := by
  unfold Fitted
  refine forall_congr' fun v => forall₂_congr fun i hero => ?_
  rw [h.myHero]
  exact imp_congr_right fun _ => Player.fits_congr (by rw [h.heroEquip])

end SameWear

theorem fitted_setPlayer_iff {p : Player} {h : Hero} {e : Equip} {i k : ℕ} (hnamed : w.Named)
    (hw : w.Fitted) (hh : (w.player u).myHero k = some h)
    (hlt : i < ((w.player u).heroEquip h.heroUuid).length)
    (hmine : p.myHero = (w.player u).myHero)
    (hslots : p.heroEquip = ((w.player u).setSlot h.heroUuid i e).heroEquip) :
    (w.setPlayer u p).Fitted ↔ (e.witchPannle = 1 →
      (i : Int) < h.curGoodsSpace ∧ e.whereUuid = h.heroUuid ∧ e.position = i) := by
  have hfits : ∀ g, p.Fits g ↔ ((w.player u).setSlot h.heroUuid i e).Fits g :=
    fun g => Player.fits_congr (by rw [hslots])
  rw [← Player.fits_setSlot_iff (hw u k h hh) hlt, ← hfits]
  constructor
  · intro hfitted
    have hself := hfitted u k h
    rw [player_setPlayer_self, hmine] at hself
    exact hself hh
  · intro hself v j g hg
    by_cases hv : v = u
    · subst hv
      rw [player_setPlayer_self] at hg ⊢
      rw [hmine] at hg
      by_cases huuid : g.heroUuid = h.heroUuid
      · obtain rfl := hnamed.apart v j k g h hg hh huuid
        obtain rfl := Option.some.inj (hg.symm.trans hh)
        exact hself
      · exact (hfits g).mpr ((Player.fits_setSlot_of_ne huuid).mpr (hw v j g hg))
    · rw [setPlayer_player, if_neg hv] at hg ⊢
      exact hw v j g hg

theorem fitted_dressAt_iff {o : Outcome} {h : Hero} {b i k : ℕ} (hnamed : w.Named)
    (hw : w.Fitted) (hh : (w.player u).myHero k = some h) (ho : w.dressAt u h b i = some o) :
    o.world.Fitted ↔ (i : Int) < h.curGoodsSpace := by
  obtain ⟨hlt, p, rfl, hmine, -, hslots⟩ := dressAt_writes ho
  obtain ⟨hblank, hblank'⟩ := hnamed.named u k h hh
  rw [setEquip_of_named hblank hblank'] at hslots
  rw [fitted_setPlayer_iff hnamed hw hh hlt hmine hslots]
  exact ⟨fun hslot => (hslot rfl).1, fun hopen _ => ⟨hopen, rfl, rfl⟩⟩

theorem fitted_unloadEquip {o : Outcome} {whichHero position : Int} (hnamed : w.Named)
    (hw : w.Fitted) (ho : w.unloadEquip u whichHero position = some o) : o.world.Fitted := by
  rcases unloadEquip_cases ho with ⟨_, -, rfl⟩ | ⟨h, e, b, hh, he, -, -, rfl⟩
  · exact hw
  · have hlt := (List.getElem?_eq_some_iff.mp he).1
    refine (fitted_setPlayer_iff (e := { e with witchPannle := -1 }) hnamed hw hh hlt ?_ ?_).mpr ?_
    · rfl
    · rfl
    · exact fun hworn => absurd hworn (show (-1 : Int) ≠ 1 by decide)

/-! ## The search -/

structure Searches (w : World) (u : UInt32) (whichHero backpackPosition : Int) (h : Hero) :
    Prop where
  low : 0 ≤ backpackPosition
  high : backpackPosition < (w.player u).backpackNum
  first : 1 ≤ whichHero
  last : whichHero ≤ 5
  status : (w.player u).backpackStatus backpackPosition.toNat = true
  myHero : (w.player u).myHero (whichHero - 1).toNat = some h
  space : -1 < h.curGoodsSpace

theorem dressEquip_of_searches {whichHero backpackPosition : Int} {h : Hero} {o : Outcome}
    (hs : w.Searches u whichHero backpackPosition h)
    (ho : w.dressEquip u whichHero backpackPosition (-1) = some o) :
    (match ((w.player u).heroEquip h.heroUuid).findIdx? fun e => e.witchPannle ≠ 1 with
      | none => some (w.refuse (-4))
      | some i => w.dressAt u h backpackPosition.toNat i) = some o := by
  obtain ⟨hlow, hhigh, hfirst, hlast, hstatus, hh, hspace⟩ := hs
  unfold dressEquip at ho
  dsimp only at ho
  rw [if_neg (by omega)] at ho
  split at ho
  · exact absurd ho (by simp)
  rw [hstatus, hh] at ho
  dsimp only at ho
  rwa [if_neg (not_le.mpr hspace), if_pos rfl] at ho

theorem dressEquip_slot {whichHero backpackPosition heroPosition : Int} {o : Outcome}
    (ho : w.dressEquip u whichHero backpackPosition heroPosition = some o) :
    o.Refused w ∨ ∃ h i, (w.player u).myHero (whichHero - 1).toNat = some h ∧
      w.dressAt u h backpackPosition.toNat i = some o ∧
      (heroPosition = -1 ∧ w.Searches u whichHero backpackPosition h ∧
          ((w.player u).heroEquip h.heroUuid).findIdx? (fun e => e.witchPannle ≠ 1) = some i ∨
        (i : Int) < h.curGoodsSpace) := by
  unfold dressEquip at ho
  dsimp only at ho
  split at ho
  · exact .inl (refused (by decide) ho)
  next hrange =>
  split at ho
  · exact absurd ho (by simp)
  split at ho
  · next h hb hh =>
    split at ho
    · exact .inl (refused (by decide) ho)
    next hspace =>
    split at ho
    · next hsearch =>
      split at ho
      · exact .inl (refused (by decide) ho)
      · next i hi =>
        refine .inr ⟨h, i, hh, ho, .inl ⟨hsearch, ?_, hi⟩⟩
        exact ⟨by omega, by omega, by omega, by omega, hb, hh, by omega⟩
    split at ho
    · exact absurd ho (by simp)
    · exact .inr ⟨h, heroPosition.toNat, hh, ho, .inr (by omega)⟩
  · exact .inl (refused (by decide) ho)

/-- When a slot is searched for, an open one is free or the hero has none that is free. -/
def OpenSlotFree (w : World) : GoodsEvent → Prop
  | .dressEquip u whichHero backpackPosition heroPosition => heroPosition = -1 →
    ∀ h, w.Searches u whichHero backpackPosition h →
      (∃ (i : ℕ) (e : Equip), ((w.player u).heroEquip h.heroUuid)[i]? = some e ∧
        (i : Int) < h.curGoodsSpace ∧ e.witchPannle ≠ 1) ∨
      ∀ e ∈ (w.player u).heroEquip h.heroUuid, e.witchPannle = 1
  | _ => True

theorem fitted_dressEquip_iff {whichHero backpackPosition heroPosition : Int} {o : Outcome}
    (hnamed : w.Named) (hw : w.Fitted)
    (ho : w.dressEquip u whichHero backpackPosition heroPosition = some o) :
    o.world.Fitted ↔ w.OpenSlotFree (.dressEquip u whichHero backpackPosition heroPosition) := by
  constructor
  · rintro hfitted rfl h hs
    have hdress := dressEquip_of_searches hs ho
    split at hdress
    · next hnone =>
      refine .inr fun e he => ?_
      simpa using List.findIdx?_eq_none_iff.mp hnone e he
    · next i hi =>
      obtain ⟨hlt, hfree, -⟩ := List.findIdx?_eq_some_iff_getElem.mp hi
      refine .inl ⟨i, _, List.getElem?_eq_getElem hlt, ?_, by simpa using hfree⟩
      exact (fitted_dressAt_iff hnamed hw hs.myHero hdress).mp hfitted
  · intro hC
    rcases dressEquip_slot ho with ⟨_, -, rfl⟩ | ⟨h, i, hh, hdress, ⟨rfl, hs, hi⟩ | hopen⟩
    · exact hw
    · refine (fitted_dressAt_iff hnamed hw hh hdress).mpr ?_
      obtain ⟨hlt, hfree, hfirst⟩ := List.findIdx?_eq_some_iff_getElem.mp hi
      rcases hC rfl h hs with ⟨j, e, he, hspace, hunworn⟩ | hall
      · -- the search has not gone past the open slot
        have hle : i ≤ j := by
          by_contra hlt'
          obtain ⟨hj, rfl⟩ := List.getElem?_eq_some_iff.mp he
          exact hfirst j (not_le.mp hlt') (by simpa using hunworn)
        omega
      · exact absurd (hall _ (List.getElem_mem hlt)) (by simpa using hfree)
    · exact (fitted_dressAt_iff hnamed hw hh hdress).mpr hopen

theorem goodsStep_cases {e : GoodsEvent} (ht : w.goodsStep e = some t) :
    (∃ u whichHero backpackPosition heroPosition o,
      e = .dressEquip u whichHero backpackPosition heroPosition ∧
      w.dressEquip u whichHero backpackPosition heroPosition = some o ∧ o.world = t) ∨
    (∃ u whichHero position o, e = .unloadEquip u whichHero position ∧
      w.unloadEquip u whichHero position = some o ∧ o.world = t) ∨
    SameWear w t ∧ w.OpenSlotFree e := by
  cases e with
  | dressEquip u whichHero backpackPosition heroPosition =>
    obtain ⟨-, o, ho, rfl⟩ := request_eq_some ht
    exact .inl ⟨u, whichHero, backpackPosition, heroPosition, o, rfl, ho, rfl⟩
  | unloadEquip u whichHero position =>
    obtain ⟨-, o, ho, rfl⟩ := request_eq_some ht
    exact .inr (.inl ⟨u, whichHero, position, o, rfl, ho, rfl⟩)
  | openBox u sn attr =>
    obtain ⟨-, o, ho, rfl⟩ := request_eq_some ht
    exact .inr (.inr ⟨SameWear.openBox ho, trivial⟩)
  | saleGoods u position diamondCost =>
    obtain ⟨-, o, ho, rfl⟩ := request_eq_some ht
    exact .inr (.inr ⟨SameWear.saleGoods ho, trivial⟩)
  | buyMarketGoods u goodsSn emailUuid =>
    obtain ⟨-, o, ho, rfl⟩ := request_eq_some ht
    exact .inr (.inr ⟨SameWear.buyMarketGoods ho, trivial⟩)
  | getEmailGoods u key =>
    obtain ⟨-, o, ho, rfl⟩ := request_eq_some ht
    obtain rfl := Option.some.inj ho
    exact .inr (.inr ⟨SameWear.getEmailGoods w u key, trivial⟩)
  | pushNotify i key =>
    obtain ⟨value, -, ht⟩ := Option.bind_eq_some_iff.mp ht
    exact .inr (.inr ⟨SameWear.pushNotify ht, trivial⟩)

theorem fitted_goodsStep_iff {e : GoodsEvent} (hnamed : w.Named) (hw : w.Fitted)
    (ht : w.goodsStep e = some t) : t.Fitted ↔ w.OpenSlotFree e := by
  rcases goodsStep_cases ht with ⟨u, whichHero, backpackPosition, heroPosition, o, rfl, ho, rfl⟩ |
    ⟨u, whichHero, position, o, rfl, ho, rfl⟩ | ⟨hsame, hC⟩
  · exact fitted_dressEquip_iff hnamed hw ho
  · exact iff_of_true (fitted_unloadEquip hnamed hw ho) trivial
  · exact iff_of_true (hsame.fitted_iff.mpr hw) hC

theorem Named.of_myHero (hw : w.Named) (hmine : ∀ v, (t.player v).myHero = (w.player v).myHero) :
    t.Named := by
  refine ⟨fun v => ?_, fun v => ?_⟩
  · rw [hmine]
    exact hw.apart v
  · rw [hmine]
    exact hw.named v

theorem myHero_dressAt {o : Outcome} {h : Hero} {b i : ℕ} (ho : w.dressAt u h b i = some o)
    (v : UInt32) : (o.world.player v).myHero = (w.player v).myHero := by
  obtain ⟨-, p, rfl, hmine, -⟩ := dressAt_writes ho
  exact myHero_of_player (by rfl) hmine v

theorem Named.goodsStep {e : GoodsEvent} (hw : w.Named) (ht : w.goodsStep e = some t) :
    t.Named := by
  refine hw.of_myHero fun v => ?_
  rcases goodsStep_cases ht with ⟨u, whichHero, backpackPosition, heroPosition, o, -, ho, rfl⟩ |
    ⟨u, whichHero, position, o, -, ho, rfl⟩ | ⟨hsame, -⟩
  · rcases dressEquip_cases ho with ⟨_, -, rfl⟩ | ⟨h, i, -, -, hdress⟩
    · rfl
    · exact myHero_dressAt hdress v
  · rcases unloadEquip_cases ho with ⟨_, -, rfl⟩ | ⟨h, e, b, -, -, -, -, rfl⟩
    · rfl
    · exact myHero_of_player (by rfl) (by rfl) v
  · exact hsame.myHero v

/-- Along a run of requests what heroes wear fits, if and only if no search goes on to a slot that
is not open. -/
theorem fitted_run_iff (hnamed : w.Named) (hw : w.Fitted) (es : List GoodsEvent) :
    Run.Always goodsStep Fitted w es ↔ Run.EachStep goodsStep OpenSlotFree w es :=
  Run.always_iff_eachStep (I := Named) (fun _ _ _ hnamed ht => hnamed.goodsStep ht)
    (fun _ _ _ hnamed hw ht => fitted_goodsStep_iff hnamed hw ht) hnamed hw es

def recruited (space : Int) : World := {
  player := fun _ =>
    { backpackStatus := fun i => i = 0 ∨ i = 1
      myBackpack := fun i => { equipSn := if i = 0 then "sword" else "helmet", position := i }
      myHero := fun i => if i = 0 then some { heroUuid := "h", curGoodsSpace := space } else none
      heroEquip := fun _ => LoginWorker.emptySlots } }

theorem named_recruited (space : Int) : (recruited space).Named := by
  refine ⟨fun u i j g h hg hh _ => ?_, fun u i h hh => ?_⟩
  · dsimp only [recruited] at hg hh
    split_ifs at hg hh with hi hj
    exact hi.trans hj.symm
  · dsimp only [recruited] at hh
    split_ifs at hh
    obtain rfl := Option.some.inj hh
    exact (by decide : "h" ≠ "" ∧ "h" ≠ "  ")

theorem fitted_recruited (space : Int) : (recruited space).Fitted := by
  intro u i h hh j e he hworn
  have hempty : e = { witchPannle := -1 } :=
    List.eq_of_mem_replicate (List.mem_of_getElem? he)
  rw [hempty] at hworn
  exact absurd hworn (by decide)

theorem fitted_run_two : Run.Always goodsStep Fitted (recruited 2)
    [.dressEquip 1 1 0 (-1), .dressEquip 1 1 1 (-1), .unloadEquip 1 1 0] := by
  refine (fitted_run_iff (named_recruited 2) (fitted_recruited 2) _).mpr ?_
  refine fun t ht => ⟨?_, ?_⟩
  · rintro - h hs
    obtain rfl := Option.some.inj hs.myHero
    exact .inl ⟨0, _, rfl, by decide, by decide⟩
  obtain rfl := Option.some.inj ht
  refine fun t ht => ⟨?_, ?_⟩
  · rintro - h hs
    obtain rfl := Option.some.inj hs.myHero
    exact .inl ⟨1, _, rfl, by decide, by decide⟩
  exact fun _ _ => ⟨trivial, trivial⟩

/-- With one slot open, the second equip comes into the slot behind it. -/
theorem not_fitted_second : ¬ ∀ w : World, w.Named → w.Fitted → ∀ es : List GoodsEvent,
    Run.Always goodsStep Fitted w es := by
  intro hall
  have hrun := hall (recruited 1) (named_recruited 1) (fitted_recruited 1)
    [.dressEquip 1 1 0 (-1), .dressEquip 1 1 1 (-1)]
  have hworn := ((hrun.2 _ rfl).2 _ rfl) 1 0 { heroUuid := "h", curGoodsSpace := 1 } rfl 1 _ rfl rfl
  exact absurd hworn.1 (by decide)

end World

end IceBridge.Gateway
