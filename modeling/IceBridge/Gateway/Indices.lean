import IceBridge.Gateway.Heroes

/-! The indices that the services for equips, the market and the heroes use, in the order in
which they use them, and which requests make them leave their arrays. -/

namespace IceBridge.Gateway

inductive Access
  /-- Of `my_backpack` or `backpack_status`. -/
  | backpack (i : Int)
  | myHero (i : Int)
  | randHero (i : Int)
  | heroEquip (heroUuid : String) (i : Int)
  deriving DecidableEq

def Access.InBounds (p : Player) : Access → Prop
  | .backpack i => 0 ≤ i ∧ i < 64
  | .myHero i => 0 ≤ i ∧ i < 6
  | .randHero i => 0 ≤ i ∧ i < 3
  | .heroEquip heroUuid i => 0 ≤ i ∧ i < (p.heroEquip heroUuid).length

namespace Player

def freeAccess (p : Player) : List Access :=
  (p.getBackpack.map fun i : ℕ => Access.backpack i).toList

def getBackpackAccesses (p : Player) : List Access :=
  if p.backpackNum < 12 ∨ 64 < p.backpackNum then []
  else
    ((List.range p.backpackNum.toNat).takeWhile p.backpackStatus).map
      (fun i : ℕ => Access.backpack i) ++ p.freeAccess

def findHeroEquipAccesses (p : Player) (heroUuid : String) : List Access :=
  let slots := p.heroEquip heroUuid
  (List.range (min (slots.findIdx (fun e => e.witchPannle ≠ 1) + 1) slots.length)).map
    fun i : ℕ => .heroEquip heroUuid i

def dressEquipAccesses (p : Player) (whichHero backpackPosition heroPosition : Int) :
    List Access :=
  if backpackPosition < 0 ∨ p.backpackNum ≤ backpackPosition ∨ whichHero < 1 ∨ 5 < whichHero then
    []
  else .backpack backpackPosition ::
    if !p.backpackStatus backpackPosition.toNat then []
    else .myHero (whichHero - 1) ::
      match p.myHero (whichHero - 1).toNat with
      | none => []
      | some h =>
        if h.curGoodsSpace ≤ heroPosition then []
        else if heroPosition = -1 then
          p.findHeroEquipAccesses h.heroUuid ++
            match (p.heroEquip h.heroUuid).findIdx? fun e => e.witchPannle ≠ 1 with
            | none => []
            | some i => [.backpack backpackPosition, .heroEquip h.heroUuid i]
        else [.backpack backpackPosition, .heroEquip h.heroUuid heroPosition]

def unloadEquipAccesses (p : Player) (whichHero position : Int) : List Access :=
  if whichHero < 1 ∨ 5 < whichHero ∨ position < 0 ∨ 5 < position then []
  else .myHero (whichHero - 1) ::
    match p.myHero (whichHero - 1).toNat with
    | none => []
    | some h => .heroEquip h.heroUuid position ::
      if ((p.heroEquip h.heroUuid)[position.toNat]?).any fun e => e.witchPannle ≠ 1 then []
      else p.getBackpackAccesses ++ p.freeAccess

def saleGoodsAccesses (p : Player) (position : Int) : List Access :=
  if 0 ≤ position ∨ p.backpackNum < 64 then [.backpack position] else []

/-- The list `email_sale_list` is no array. -/
def getEmailGoodsAccesses (p : Player) (key : String) : List Access :=
  match p.emailSaleList key with
  | none => []
  | some email => if email.diamond ≤ 0 then p.getBackpackAccesses ++ p.freeAccess else []

def getRandHeroAccesses (p : Player) (heroSn : Int) : List Access :=
  if 0 < heroSn ∧ heroSn < 4 then
    ((List.range 5).takeWhile fun i => (p.myHero i).isSome).map (fun i : ℕ => Access.myHero i) ++
      match (List.range 5).find? fun i => (p.myHero i).isNone with
      | none => []
      | some position => [.myHero position, .randHero (heroSn - 1)]
  else []

/-- With the loop that moves the heroes up, and `move_hero`. -/
def dropHeroAccesses (p : Player) (heroSn : Int) : List Access :=
  if heroSn ≤ 0 ∧ 6 < heroSn then []
  else .myHero (heroSn - 1) ::
    match p.myHero (heroSn - 1).toNat with
    | none => []
    | some h =>
      if (p.heroEquip h.heroUuid).length ≠ 0 then []
      else ((List.range 6).drop (heroSn - 1).toNat).map fun i : ℕ => .myHero i

end Player

namespace LoginWorker

def Request.Indexes : Request → Prop
  | .dressEquip .. | .unloadEquip .. | .saleGoods .. | .getRandHero .. | .dropHero .. |
    .getEmailGoods .. | .openBox .. => True
  | _ => False

def accesses (s : LoginWorker) : Request → List Access
  | .dressEquip whichHero backpackPosition heroPosition =>
    s.player.dressEquipAccesses whichHero backpackPosition heroPosition
  | .unloadEquip whichHero position => s.player.unloadEquipAccesses whichHero position
  | .saleGoods position _ => s.player.saleGoodsAccesses position
  | .getRandHero heroSn => s.player.getRandHeroAccesses heroSn
  | .dropHero heroSn => s.player.dropHeroAccesses heroSn
  | .getEmailGoods emailUuid => s.player.getEmailGoodsAccesses emailUuid
  | .openBox _ _ => s.player.getBackpackAccesses ++ s.player.freeAccess
  | _ => []

def requested (s : LoginWorker) : Request → List Access
  | .dressEquip whichHero backpackPosition heroPosition =>
    .backpack backpackPosition :: .myHero (whichHero - 1) ::
      match s.player.myHero (whichHero - 1).toNat with
      | none => []
      | some h => if heroPosition = -1 then [] else [.heroEquip h.heroUuid heroPosition]
  | .unloadEquip whichHero position => .myHero (whichHero - 1) ::
      match s.player.myHero (whichHero - 1).toNat with
      | none => []
      | some h => [.heroEquip h.heroUuid position]
  | .saleGoods position _ => [.backpack position]
  | .getRandHero heroSn => [.randHero (heroSn - 1)]
  | .dropHero heroSn => [.myHero (heroSn - 1)]
  | _ => []

def Rejects (cfg : Config) (s : LoginWorker) (now : Int) (r : Request) : Prop :=
  ∃ result, s.serve cfg now r = some (s.refuse result) ∧ result < 0

/-- The service stays inside the arrays, and a request that names an element outside of them is
rejected. -/
structure Checked (cfg : Config) (s : LoginWorker) (now : Int) (r : Request) : Prop where
  inside : ∀ a ∈ s.accesses r, a.InBounds s.player
  rejected : ∀ a ∈ s.requested r, ¬ a.InBounds s.player → s.Rejects cfg now r

def StaysInside (s : LoginWorker) : Request → Prop
  | .dressEquip whichHero backpackPosition heroPosition =>
    0 ≤ backpackPosition → backpackPosition < s.player.backpackNum → 1 ≤ whichHero →
      whichHero ≤ 5 → backpackPosition < 64 ∧
        (s.player.backpackStatus backpackPosition.toNat = true →
          ∀ h, s.player.myHero (whichHero - 1).toNat = some h →
            heroPosition < h.curGoodsSpace → -1 ≤ heroPosition ∧ heroPosition < 6)
  | .saleGoods position _ =>
    0 ≤ position ∧ position < 64 ∨ position < 0 ∧ 64 ≤ s.player.backpackNum
  | .dropHero heroSn => 1 ≤ heroSn ∧ heroSn ≤ 6
  | _ => True

end LoginWorker

/-! ## The searches -/

namespace Player
variable {p : Player}

theorem getBackpack_lt {b : ℕ} (hb : p.getBackpack = some b) : b < 64 := by
  unfold getBackpack at hb
  split_ifs at hb with hnum
  have hlt := List.mem_range.mp (List.mem_of_find?_eq_some hb)
  omega

theorem inBounds_freeAccess : ∀ a ∈ p.freeAccess, a.InBounds p := by
  intro a ha
  obtain ⟨b, hb, rfl⟩ := Option.map_eq_some_iff.mp (Option.mem_toList.mp ha)
  have hlt := getBackpack_lt hb
  exact ⟨by omega, by omega⟩

theorem inBounds_getBackpack : ∀ a ∈ p.getBackpackAccesses, a.InBounds p := by
  intro a ha
  unfold getBackpackAccesses at ha
  split_ifs at ha with hnum
  · exact absurd ha List.not_mem_nil
  rcases List.mem_append.mp ha with hscan | hfree
  · obtain ⟨i, hi, rfl⟩ := List.mem_map.mp hscan
    have hlt := List.mem_range.mp ((List.takeWhile_prefix _).subset hi)
    exact ⟨by omega, by omega⟩
  · exact inBounds_freeAccess a hfree

theorem inBounds_findHeroEquip (heroUuid : String) :
    ∀ a ∈ p.findHeroEquipAccesses heroUuid, a.InBounds p := by
  intro a ha
  obtain ⟨i, hi, rfl⟩ := List.mem_map.mp ha
  have hlt := List.mem_range.mp hi
  exact ⟨by omega, by omega⟩

end Player

/-! ## The services -/

namespace LoginWorker
variable {cfg : Config} {s t : LoginWorker} {now : Int}

theorem staysInside_dressEquip_iff {whichHero backpackPosition heroPosition : Int}
    (hcheck : ¬ (backpackPosition < 0 ∨ s.player.backpackNum ≤ backpackPosition ∨
      whichHero < 1 ∨ 5 < whichHero)) :
    s.StaysInside (.dressEquip whichHero backpackPosition heroPosition) ↔
      backpackPosition < 64 ∧ (s.player.backpackStatus backpackPosition.toNat = true →
        ∀ h, s.player.myHero (whichHero - 1).toNat = some h →
          heroPosition < h.curGoodsSpace → -1 ≤ heroPosition ∧ heroPosition < 6) :=
  ⟨fun h => h (by omega) (by omega) (by omega) (by omega), fun h _ _ _ _ => h⟩

theorem inside_dressEquip_iff (hs : s.Slotted) (whichHero backpackPosition heroPosition : Int) :
    (∀ a ∈ s.player.dressEquipAccesses whichHero backpackPosition heroPosition,
        a.InBounds s.player) ↔
      s.StaysInside (.dressEquip whichHero backpackPosition heroPosition) := by
  unfold Player.dressEquipAccesses
  by_cases hcheck : backpackPosition < 0 ∨ s.player.backpackNum ≤ backpackPosition ∨
      whichHero < 1 ∨ 5 < whichHero
  · rw [if_pos hcheck]
    refine iff_of_true (fun a ha => absurd ha List.not_mem_nil) ?_
    intro hb hnum hlow hhigh
    omega
  rw [if_neg hcheck, staysInside_dressEquip_iff hcheck]
  constructor
  · intro hinside
    obtain ⟨hfirst, hrest⟩ := List.forall_mem_cons.mp hinside
    refine ⟨hfirst.2, ?_⟩
    intro hstatus h hh hspace
    rw [hstatus, hh] at hrest
    obtain ⟨-, hrest⟩ := List.forall_mem_cons.mp hrest
    dsimp only at hrest
    rw [if_neg (by omega)] at hrest
    split_ifs at hrest
    · omega
    · have hlast := hrest (.heroEquip h.heroUuid heroPosition) (by simp)
      have hlength := hs _ h hh
      unfold Access.InBounds at hlast
      omega
  · rintro ⟨hb, hpos⟩
    have hbackpack : (Access.backpack backpackPosition).InBounds s.player := ⟨by omega, hb⟩
    refine List.forall_mem_cons.mpr ⟨hbackpack, ?_⟩
    cases hstatus : s.player.backpackStatus backpackPosition.toNat with
    | false => exact fun a ha => absurd ha List.not_mem_nil
    | true =>
      refine List.forall_mem_cons.mpr ⟨⟨by omega, by omega⟩, ?_⟩
      cases hh : s.player.myHero (whichHero - 1).toNat with
      | none => exact fun a ha => absurd ha List.not_mem_nil
      | some h =>
        have hlength := hs _ h hh
        dsimp only
        split_ifs
        · exact fun a ha => absurd ha List.not_mem_nil
        · intro a ha
          rcases List.mem_append.mp ha with hsearch | hfound
          · exact Player.inBounds_findHeroEquip h.heroUuid a hsearch
          · split at hfound
            · exact absurd hfound List.not_mem_nil
            · next i hi =>
              obtain ⟨hlt, -⟩ := List.findIdx?_eq_some_iff_getElem.mp hi
              rcases List.mem_cons.mp hfound with rfl | hslot
              · exact hbackpack
              · obtain rfl := List.mem_singleton.mp hslot
                exact ⟨by omega, by omega⟩
        · have hrange := hpos hstatus h hh (by omega)
          refine List.forall_mem_cons.mpr ⟨hbackpack, List.forall_mem_singleton.mpr ?_⟩
          exact ⟨by omega, by omega⟩

theorem world_dressEquip {whichHero backpackPosition heroPosition : Int}
    (hcheck : ¬ (backpackPosition < 0 ∨ s.player.backpackNum ≤ backpackPosition ∨
      whichHero < 1 ∨ 5 < whichHero)) (hb : backpackPosition < 64) :
    s.world.dressEquip s.playerUuid whichHero backpackPosition heroPosition =
      match s.player.backpackStatus backpackPosition.toNat,
        s.player.myHero (whichHero - 1).toNat with
      | true, some h =>
        if h.curGoodsSpace ≤ heroPosition then some (s.world.refuse (-3))
        else if heroPosition = -1 then
          match (s.player.heroEquip h.heroUuid).findIdx? fun e => e.witchPannle ≠ 1 with
          | none => some (s.world.refuse (-4))
          | some i => s.world.dressAt s.playerUuid h backpackPosition.toNat i
        else if heroPosition < 0 then none
        else s.world.dressAt s.playerUuid h backpackPosition.toNat heroPosition.toNat
      | _, _ => some (s.world.refuse (-2)) := by
  unfold World.dressEquip
  exact (if_neg hcheck).trans (if_neg (by omega))

theorem dressEquip_checked {whichHero backpackPosition heroPosition : Int} {h : Hero}
    (hcheck : ¬ (backpackPosition < 0 ∨ s.player.backpackNum ≤ backpackPosition ∨
      whichHero < 1 ∨ 5 < whichHero)) (hb : backpackPosition < 64)
    (hh : s.player.myHero (whichHero - 1).toNat = some h)
    (hspace : s.player.backpackStatus backpackPosition.toNat = true →
      h.curGoodsSpace ≤ heroPosition) :
    s.Rejects cfg now (.dressEquip whichHero backpackPosition heroPosition) := by
  have hworld := @world_dressEquip s whichHero backpackPosition heroPosition hcheck hb
  rw [hh] at hworld
  cases hstatus : s.player.backpackStatus backpackPosition.toNat with
  | false =>
    rw [hstatus] at hworld
    exact ⟨-2, dressEquip_refuse hworld, by decide⟩
  | true =>
    rw [hstatus] at hworld
    exact ⟨-3, dressEquip_refuse (hworld.trans (if_pos (hspace hstatus))), by decide⟩

theorem rejected_dressEquip (hs : s.Slotted) {whichHero backpackPosition heroPosition : Int}
    (hstays : s.StaysInside (.dressEquip whichHero backpackPosition heroPosition)) :
    ∀ a ∈ s.requested (.dressEquip whichHero backpackPosition heroPosition),
      ¬ a.InBounds s.player →
        s.Rejects cfg now (.dressEquip whichHero backpackPosition heroPosition) := by
  intro a ha hout
  by_cases hcheck : backpackPosition < 0 ∨ s.player.backpackNum ≤ backpackPosition ∨
      whichHero < 1 ∨ 5 < whichHero
  · exact ⟨-1, dressEquip_refuse (if_pos hcheck), by decide⟩
  obtain ⟨hb, hpos⟩ := (staysInside_dressEquip_iff hcheck).mp hstays
  rcases List.mem_cons.mp ha with rfl | ha
  · exact absurd ⟨by omega, hb⟩ hout
  rcases List.mem_cons.mp ha with rfl | ha
  · exact absurd ⟨by omega, by omega⟩ hout
  split at ha
  · exact absurd ha List.not_mem_nil
  · next h hh =>
    have hlength := hs _ h hh
    split_ifs at ha
    · exact absurd ha List.not_mem_nil
    obtain rfl := List.mem_singleton.mp ha
    refine dressEquip_checked hcheck hb hh ?_
    intro hstatus
    by_contra hspace
    have hrange := hpos hstatus h hh (by omega)
    exact hout ⟨by omega, by omega⟩

theorem inside_unloadEquip (hs : s.Slotted) (whichHero position : Int) :
    ∀ a ∈ s.player.unloadEquipAccesses whichHero position, a.InBounds s.player := by
  unfold Player.unloadEquipAccesses
  split_ifs with hcheck
  · exact fun a ha => absurd ha List.not_mem_nil
  refine List.forall_mem_cons.mpr ⟨⟨by omega, by omega⟩, ?_⟩
  split
  · exact fun a ha => absurd ha List.not_mem_nil
  · next h hh =>
    have hlength := hs _ h hh
    refine List.forall_mem_cons.mpr ⟨⟨by omega, by omega⟩, ?_⟩
    intro a ha
    split_ifs at ha
    · exact absurd ha List.not_mem_nil
    rcases List.mem_append.mp ha with hsearch | hfree
    · exact Player.inBounds_getBackpack a hsearch
    · exact Player.inBounds_freeAccess a hfree

theorem rejected_unloadEquip (hs : s.Slotted) (whichHero position : Int) :
    ∀ a ∈ s.requested (.unloadEquip whichHero position), ¬ a.InBounds s.player →
      s.Rejects cfg now (.unloadEquip whichHero position) := by
  intro a ha hout
  have hcheck : whichHero < 1 ∨ 5 < whichHero ∨ position < 0 ∨ 5 < position := by
    by_contra hcheck
    rcases List.mem_cons.mp ha with rfl | ha
    · exact hout ⟨by omega, by omega⟩
    split at ha
    · exact absurd ha List.not_mem_nil
    · next h hh =>
      have hlength := hs _ h hh
      obtain rfl := List.mem_singleton.mp ha
      exact hout ⟨by omega, by omega⟩
  exact ⟨-1, unloadEquip_refuse (by decide) (if_pos hcheck), by decide⟩

theorem inside_saleGoods_iff (position diamondCost : Int) :
    (∀ a ∈ s.player.saleGoodsAccesses position, a.InBounds s.player) ↔
      s.StaysInside (.saleGoods position diamondCost) := by
  unfold Player.saleGoodsAccesses
  by_cases hcheck : 0 ≤ position ∨ s.player.backpackNum < 64
  · rw [if_pos hcheck]
    constructor
    · intro hinside
      exact .inl (hinside _ (List.mem_singleton.mpr rfl))
    · rintro (hin | hout)
      · exact List.forall_mem_singleton.mpr hin
      · omega
  · rw [if_neg hcheck]
    exact iff_of_true (fun a ha => absurd ha List.not_mem_nil) (.inr ⟨by omega, by omega⟩)

theorem rejected_saleGoods {position diamondCost : Int}
    (hstays : s.StaysInside (.saleGoods position diamondCost)) :
    ∀ a ∈ s.requested (.saleGoods position diamondCost), ¬ a.InBounds s.player →
      s.Rejects cfg now (.saleGoods position diamondCost) := by
  intro a ha hout
  obtain rfl := List.mem_singleton.mp ha
  rcases hstays with hin | ⟨hneg, hfull⟩
  · exact absurd hin hout
  · refine ⟨-1, saleGoods_refuse (by decide) (if_neg ?_), by decide⟩
    show ¬ (0 ≤ position ∨ s.player.backpackNum < 64)
    omega

theorem inside_getRandHero (heroSn : Int) :
    ∀ a ∈ s.player.getRandHeroAccesses heroSn, a.InBounds s.player := by
  unfold Player.getRandHeroAccesses
  split_ifs with hcheck
  · intro a ha
    rcases List.mem_append.mp ha with hsearch | hfound
    · obtain ⟨i, hi, rfl⟩ := List.mem_map.mp hsearch
      have hlt := List.mem_range.mp ((List.takeWhile_prefix _).subset hi)
      exact ⟨by omega, by omega⟩
    · split at hfound
      · exact absurd hfound List.not_mem_nil
      · next position hposition =>
        have hlt := List.mem_range.mp (List.mem_of_find?_eq_some hposition)
        rcases List.mem_cons.mp hfound with rfl | hslot
        · exact ⟨by omega, by omega⟩
        · obtain rfl := List.mem_singleton.mp hslot
          exact ⟨by omega, by omega⟩
  · exact fun a ha => absurd ha List.not_mem_nil

theorem rejected_getRandHero (heroSn : Int) :
    ∀ a ∈ s.requested (.getRandHero heroSn), ¬ a.InBounds s.player →
      s.Rejects cfg now (.getRandHero heroSn) := by
  intro a ha hout
  obtain rfl := List.mem_singleton.mp ha
  refine ⟨-2, congrArg some (if_neg ?_), by decide⟩
  intro hcheck
  exact hout ⟨by omega, by omega⟩

theorem inside_dropHero_iff (heroSn : Int) :
    (∀ a ∈ s.player.dropHeroAccesses heroSn, a.InBounds s.player) ↔
      s.StaysInside (.dropHero heroSn) := by
  unfold Player.dropHeroAccesses
  rw [if_neg (by omega)]
  constructor
  · intro hinside
    obtain ⟨hlow, hhigh⟩ := (List.forall_mem_cons.mp hinside).1
    exact ⟨by omega, by omega⟩
  · rintro ⟨hlow, hhigh⟩
    refine List.forall_mem_cons.mpr ⟨⟨by omega, by omega⟩, ?_⟩
    intro a ha
    split at ha
    · exact absurd ha List.not_mem_nil
    · split_ifs at ha
      · exact absurd ha List.not_mem_nil
      obtain ⟨i, hi, rfl⟩ := List.mem_map.mp ha
      have hlt := List.mem_range.mp (List.mem_of_mem_drop hi)
      exact ⟨by omega, by omega⟩

theorem inside_getEmailGoods (emailUuid : String) :
    ∀ a ∈ s.player.getEmailGoodsAccesses emailUuid, a.InBounds s.player := by
  unfold Player.getEmailGoodsAccesses
  intro a ha
  split at ha
  · exact absurd ha List.not_mem_nil
  · split_ifs at ha
    · rcases List.mem_append.mp ha with hsearch | hfree
      · exact Player.inBounds_getBackpack a hsearch
      · exact Player.inBounds_freeAccess a hfree
    · exact absurd ha List.not_mem_nil

theorem inside_openBox :
    ∀ a ∈ s.player.getBackpackAccesses ++ s.player.freeAccess, a.InBounds s.player := by
  intro a ha
  rcases List.mem_append.mp ha with hsearch | hfree
  · exact Player.inBounds_getBackpack a hsearch
  · exact Player.inBounds_freeAccess a hfree

namespace Slotted

theorem inside_iff (hs : s.Slotted) {r : Request} (hr : r.Indexes) :
    (∀ a ∈ s.accesses r, a.InBounds s.player) ↔ s.StaysInside r := by
  cases r with
  | dressEquip whichHero backpackPosition heroPosition =>
    exact inside_dressEquip_iff hs whichHero backpackPosition heroPosition
  | unloadEquip whichHero position =>
    exact iff_of_true (inside_unloadEquip hs whichHero position) trivial
  | saleGoods position diamondCost => exact inside_saleGoods_iff position diamondCost
  | getRandHero heroSn => exact iff_of_true (inside_getRandHero heroSn) trivial
  | dropHero heroSn => exact inside_dropHero_iff heroSn
  | getEmailGoods emailUuid => exact iff_of_true (inside_getEmailGoods emailUuid) trivial
  | openBox sn attr => exact iff_of_true inside_openBox trivial
  | setName _ | bindEmail _ _ | buildStatusList _ | buildCreate _ _ | buildUpgrade _
  | getMyAsset _ | getRandName _ _ _ | lookMarketGoods _ | buyMarketGoods _ _ | recruit _ _
  | fastFinish _ | appointHero _ _ | cancelHero _ => exact hr.elim

theorem rejected (hs : s.Slotted) {r : Request} (hr : r.Indexes) (hstays : s.StaysInside r) :
    ∀ a ∈ s.requested r, ¬ a.InBounds s.player → s.Rejects cfg now r := by
  cases r with
  | dressEquip whichHero backpackPosition heroPosition => exact rejected_dressEquip hs hstays
  | unloadEquip whichHero position => exact rejected_unloadEquip hs whichHero position
  | saleGoods position diamondCost => exact rejected_saleGoods hstays
  | getRandHero heroSn => exact rejected_getRandHero heroSn
  | dropHero heroSn =>
    intro a ha hout
    obtain rfl := List.mem_singleton.mp ha
    obtain ⟨hlow, hhigh⟩ := hstays
    exact absurd ⟨by omega, by omega⟩ hout
  | getEmailGoods emailUuid => exact fun a ha => absurd ha List.not_mem_nil
  | openBox sn attr => exact fun a ha => absurd ha List.not_mem_nil
  | setName _ | bindEmail _ _ | buildStatusList _ | buildCreate _ _ | buildUpgrade _
  | getMyAsset _ | getRandName _ _ _ | lookMarketGoods _ | buyMarketGoods _ _ | recruit _ _
  | fastFinish _ | appointHero _ _ | cancelHero _ => exact hr.elim

theorem checked_iff (hs : s.Slotted) {r : Request} (hr : r.Indexes) :
    s.Checked cfg now r ↔ s.StaysInside r :=
  ⟨fun h => (hs.inside_iff hr).mp h.inside,
    fun h => ⟨(hs.inside_iff hr).mpr h, hs.rejected hr h⟩⟩

end Slotted

/-! ## The model has no next state exactly when an index is outside its array -/

theorem dressAt_isSome {w : World} {u : UInt32} {h : Hero} {b i : ℕ} :
    (w.dressAt u h b i).isSome ↔ i < ((w.player u).heroEquip h.heroUuid).length := by
  unfold World.dressAt
  dsimp only
  by_cases hi : i < ((w.player u).heroEquip h.heroUuid).length
  · rw [List.getElem?_eq_getElem hi, Option.bind_eq_bind, Option.bind_some]
    refine iff_of_true ?_ hi
    split_ifs
    · rfl
    · rfl
  · rw [List.getElem?_eq_none (by omega)]
    exact iff_of_false Bool.false_ne_true hi

theorem dressEquip_isSome {whichHero backpackPosition heroPosition : Int} :
    (s.dressEquip whichHero backpackPosition heroPosition).isSome =
      (s.world.dressEquip s.playerUuid whichHero backpackPosition heroPosition).isSome := by
  unfold dressEquip
  cases s.world.dressEquip s.playerUuid whichHero backpackPosition heroPosition with
  | none => rfl
  | some o =>
    rw [Option.bind_eq_bind, Option.bind_some]
    split
    · rfl
    · rfl

theorem world_dressEquip_isSome (hs : s.Slotted) {whichHero backpackPosition heroPosition : Int} :
    (s.world.dressEquip s.playerUuid whichHero backpackPosition heroPosition).isSome ↔
      s.StaysInside (.dressEquip whichHero backpackPosition heroPosition) := by
  by_cases hcheck : backpackPosition < 0 ∨ s.player.backpackNum ≤ backpackPosition ∨
      whichHero < 1 ∨ 5 < whichHero
  · have hrefused : s.world.dressEquip s.playerUuid whichHero backpackPosition heroPosition =
        some (s.world.refuse (-1)) := if_pos hcheck
    rw [hrefused]
    refine iff_of_true rfl ?_
    intro hb hnum hlow hhigh
    omega
  rw [staysInside_dressEquip_iff hcheck]
  by_cases hb : backpackPosition < 64
  · rw [world_dressEquip hcheck hb, and_iff_right hb]
    split
    · next h hstatus hh =>
      have hlength := hs _ h hh
      have hone : (s.player.backpackStatus backpackPosition.toNat = true →
          ∀ h, s.player.myHero (whichHero - 1).toNat = some h →
            heroPosition < h.curGoodsSpace → -1 ≤ heroPosition ∧ heroPosition < 6) ↔
          (heroPosition < h.curGoodsSpace → -1 ≤ heroPosition ∧ heroPosition < 6) := by
        constructor
        · exact fun hall => hall hstatus h hh
        · intro hspace _ g hg
          rwa [← Option.some.inj (hh.symm.trans hg)]
      rw [hone]
      split_ifs with hspace hfind hneg
      · exact iff_of_true rfl fun hlt => absurd hspace (by omega)
      · refine iff_of_true ?_ fun _ => ⟨by omega, by omega⟩
        split
        · rfl
        · next i hi =>
          obtain ⟨hlt, -⟩ := List.findIdx?_eq_some_iff_getElem.mp hi
          exact dressAt_isSome.mpr hlt
      · refine iff_of_false Bool.false_ne_true fun hlt => ?_
        have hrange := hlt (by omega)
        omega
      · rw [dressAt_isSome]
        show heroPosition.toNat < (s.player.heroEquip h.heroUuid).length ↔ _
        omega
    · next hnone =>
      refine iff_of_true rfl ?_
      intro hstatus h hh
      exact absurd hh (hnone h hstatus)
  · have hundefined : s.world.dressEquip s.playerUuid whichHero backpackPosition heroPosition =
        none := (if_neg hcheck).trans (if_pos (by omega))
    rw [hundefined]
    exact iff_of_false Bool.false_ne_true fun h => hb h.1

theorem unloadEquip_isSome (hs : s.Slotted) (whichHero position : Int) :
    (s.unloadEquip whichHero position).isSome := by
  have hworld : (s.world.unloadEquip s.playerUuid whichHero position).isSome := by
    unfold World.unloadEquip
    dsimp only
    split_ifs with hcheck
    · rfl
    split
    · rfl
    · next h hh =>
      have hlength := hs _ h hh
      have hlt : position.toNat < ((s.world.player s.playerUuid).heroEquip h.heroUuid).length := by
        show position.toNat < (s.player.heroEquip h.heroUuid).length
        omega
      rw [List.getElem?_eq_getElem hlt, Option.bind_eq_bind, Option.bind_some]
      split_ifs
      · rfl
      split
      · rfl
      · rfl
  obtain ⟨o, ho⟩ := Option.isSome_iff_exists.mp hworld
  unfold unloadEquip
  rw [ho, Option.bind_eq_bind, Option.bind_some]
  split
  · rfl
  · rfl

theorem saleGoods_isSome {position diamondCost : Int} :
    (s.saleGoods position diamondCost).isSome ↔
      s.StaysInside (.saleGoods position diamondCost) := by
  have hworld : (s.world.saleGoods s.playerUuid position diamondCost).isSome ↔
      s.StaysInside (.saleGoods position diamondCost) := by
    unfold World.saleGoods StaysInside player
    dsimp only
    split
    · split
      · exact iff_of_false Bool.false_ne_true (by omega)
      · refine iff_of_true ?_ (by omega)
        split
        · rfl
        · rfl
    · exact iff_of_true rfl (by omega)
  rw [← hworld]
  unfold saleGoods
  cases s.world.saleGoods s.playerUuid position diamondCost with
  | none => exact Iff.rfl
  | some o =>
    rw [Option.bind_eq_bind, Option.bind_some]
    refine iff_of_true ?_ rfl
    obtain ⟨reply, hreply⟩ : ∃ reply, s.onGoods (some o) (fun _ => []) = some reply := ⟨_, rfl⟩
    rw [hreply, Option.bind_eq_bind, Option.bind_some]
    split_ifs
    · rfl
    · rfl

theorem dropHero_isSome {heroSn : Int} :
    (s.dropHero heroSn).isSome ↔ 1 ≤ heroSn ∧ heroSn ≤ 6 := by
  unfold dropHero
  rw [if_neg (by omega)]
  by_cases hbounds : heroSn < 1 ∨ 6 < heroSn
  · rw [if_pos hbounds]
    exact iff_of_false Bool.false_ne_true (by omega)
  · rw [if_neg hbounds]
    refine iff_of_true ?_ (by omega)
    dsimp only
    split
    · rfl
    · split
      · rfl
      · rfl

theorem openBox_isSome {sn : String} {attr : EquipAttr} (hnew : sn ∉ s.world.created) :
    (s.openBox sn attr).isSome := by
  have hworld : (s.world.openBox s.playerUuid sn attr).isSome := by
    unfold World.openBox World.createSn
    split
    · rfl
    · rw [if_neg hnew]
      rfl
  obtain ⟨o, ho⟩ := Option.isSome_iff_exists.mp hworld
  unfold openBox
  rw [ho, Option.bind_eq_bind, Option.bind_some]
  rfl

/-- The service ends for exactly those requests that the indices allow. -/
theorem Slotted.serve_isSome_iff (hs : s.Slotted) {r : Request} (hr : r.Indexes)
    (hnew : ∀ sn attr, r = .openBox sn attr → sn ∉ s.world.created) :
    (s.serve cfg now r).isSome ↔ ∀ a ∈ s.accesses r, a.InBounds s.player := by
  rw [hs.inside_iff hr]
  cases r with
  | dressEquip whichHero backpackPosition heroPosition =>
    have hserve : (s.serve cfg now (.dressEquip whichHero backpackPosition heroPosition)).isSome =
        _ := dressEquip_isSome
    rw [hserve]
    exact world_dressEquip_isSome hs
  | unloadEquip whichHero position =>
    exact iff_of_true (unloadEquip_isSome hs whichHero position) trivial
  | saleGoods position diamondCost => exact saleGoods_isSome
  | getRandHero heroSn => exact iff_of_true rfl trivial
  | dropHero heroSn => exact dropHero_isSome
  | getEmailGoods emailUuid => exact iff_of_true rfl trivial
  | openBox sn attr => exact iff_of_true (openBox_isSome (hnew sn attr rfl)) trivial
  | setName _ | bindEmail _ _ | buildStatusList _ | buildCreate _ _ | buildUpgrade _
  | getMyAsset _ | getRandName _ _ _ | lookMarketGoods _ | buyMarketGoods _ _ | recruit _ _
  | fastFinish _ | appointHero _ _ | cancelHero _ => exact hr.elim

/-! ## Runs -/

namespace Slotted

theorem of_sameHeroes (hs : s.Slotted) (h : SameHeroes s.player t.player) : t.Slotted := by
  intro i g hg
  rw [h.myHero] at hg
  rw [h.slots]
  exact hs i g hg

theorem setHero {i j : ℕ} {h g : Hero} (hs : s.Slotted) (hh : s.player.myHero i = some h)
    (hg : g.heroUuid = h.heroUuid) : (s.setHero j g).Slotted := by
  intro k f hf
  rw [player_setHero] at hf ⊢
  dsimp only at hf ⊢
  rw [Function.update_apply] at hf
  split_ifs at hf
  · obtain rfl := Option.some.inj hf
    rw [hg]
    exact hs i h hh
  · exact hs k f hf

theorem recruit {randomType : Int} {new : NewHeroes} {reply : ServiceReply} (hs : s.Slotted)
    (hr : s.recruit cfg randomType new = some reply) : reply.worker.Slotted := by
  obtain ⟨reply', hreply, hr⟩ := Option.bind_eq_some_iff.mp hr
  have hs' : reply'.worker.Slotted := hs.of_sameHeroes
    (sameRoster_onEstate (fun _ _ => Estate.sameHeroes_recruit) hreply).heroes
  split_ifs at hr
  · exact Option.some.inj hr ▸ hs'
  · obtain rfl := Option.some.inj hr
    exact List.foldlRecOn (motive := Slotted) _ _ hs' fun t ht i _ => ht

theorem getRandHero (hs : s.Slotted) (heroSn : Int) : (s.getRandHero heroSn).worker.Slotted := by
  unfold LoginWorker.getRandHero
  split_ifs
  · split
    · next position h hposition hh =>
      set p : Player := { s.player with
        heroEquip := Function.update s.player.heroEquip h.heroUuid emptySlots }
      have hplayer : ∀ r, ({ s.setPlayer p with randHero := r } : LoginWorker).player = p :=
        fun _ => player_setPlayer p
      intro j g hg
      dsimp only [accept] at hg ⊢
      rw [player_setHero, hplayer] at hg ⊢
      show (Function.update s.player.heroEquip h.heroUuid emptySlots g.heroUuid).length = 6
      have hupdate : Function.update s.player.myHero position
          (some { h with whereIs := 0, heroSn := position + 1 }) j = some g := hg
      rw [Function.update_apply] at hupdate ⊢
      split_ifs with huuid
      · rfl
      · split_ifs at hupdate
        · obtain rfl := Option.some.inj hupdate
          exact absurd rfl huuid
        · exact hs j g hupdate
    · exact hs
  · exact hs

theorem appointHero (hs : s.Slotted) (heroUuid : String) (jobTitle : Int) :
    (s.appointHero heroUuid jobTitle).worker.Slotted :=
  appointHero_keeps (fun _ _ _ _ hs hh => hs.setHero hh rfl) hs heroUuid jobTitle

theorem cancelHero (hs : s.Slotted) (heroUuid : String) :
    (s.cancelHero heroUuid).worker.Slotted :=
  cancelHero_keeps (fun _ _ _ _ hs hh => hs.setHero hh rfl) hs heroUuid

theorem serve {r : Request} {reply : ServiceReply} (hs : s.Slotted)
    (hr : s.serve cfg now r = some reply) : reply.worker.Slotted := by
  by_cases hother : r.ForHeroes
  · cases r with
    | recruit randomType new => exact hs.recruit hr
    | getRandHero heroSn => exact Option.some.inj hr ▸ hs.getRandHero heroSn
    | dropHero heroSn => exact (hs.dropHero hr).symm ▸ hs
    | appointHero heroUuid jobTitle => exact Option.some.inj hr ▸ hs.appointHero heroUuid jobTitle
    | cancelHero heroUuid => exact Option.some.inj hr ▸ hs.cancelHero heroUuid
    | _ => exact absurd hother id
  · exact hs.of_sameHeroes (sameRoster_serve hr hother).heroes

theorem loginHandle2 {uuid : UInt32} {heroKeys equipKeys : List String} (hs : s.Slotted)
    (ht : s.loginHandle2 cfg uuid now heroKeys equipKeys = some t) : t.Slotted := by
  obtain ⟨m, hm, hloaded⟩ := loginHandle2_loaded ht
  have hloading : s.loading.Slotted := hs
  have hslotted := slotted_getEquipList hloading hm
  intro i h hh
  rw [hloaded.myHero] at hh
  rw [hloaded.heroEquip]
  exact hslotted i h hh

theorem login {account passwd : String} {uuid : UInt32} {heroKeys equipKeys : List String}
    (hs : s.Slotted) (ht : s.login cfg account passwd uuid now heroKeys equipKeys = some t) :
    t.Slotted := by
  unfold LoginWorker.login at ht
  dsimp only at ht
  split_ifs at ht
  · exact Option.some.inj ht ▸ hs
  · exact Option.some.inj ht ▸ hs
  · exact hs.loginHandle2 ht

theorem register {name account passwd : String} {uuid : UInt32}
    {sns heroKeys equipKeys : List String} (hs : s.Slotted)
    (ht : s.register cfg name account passwd uuid sns now heroKeys equipKeys = some t) :
    t.Slotted := by
  unfold LoginWorker.register at ht
  split_ifs at ht
  · exact Option.some.inj ht ▸ hs
  · obtain ⟨⟨set, u⟩, hu, ht⟩ := Option.bind_eq_some_iff.mp ht
    obtain ⟨hplayer, -, -⟩ := setUserName_same hu
    refine loginHandle2 ?_ ht
    intro i h hh
    have hplayer' : u.world.player s.playerUuid = s.player := by
      rw [hplayer]
      rfl
    have hmine : (u.world.player s.playerUuid).myHero i = some h := hh
    show ((u.world.player s.playerUuid).heroEquip h.heroUuid).length = 6
    rw [hplayer'] at hmine ⊢
    exact hs i h hmine

theorem step {e : SessionEvent} (hs : s.Slotted) (ht : s.step cfg e = some t) : t.Slotted := by
  cases e with
  | request r now =>
    obtain ⟨reply, hreply, rfl⟩ := Option.map_eq_some_iff.mp ht
    exact hs.serve hreply
  | login account passwd u now heroKeys equipKeys => exact hs.login ht
  | register name account passwd u sns now heroKeys equipKeys => exact hs.register ht
  | others world records registry =>
    obtain rfl := Option.some.inj ht
    exact hs.of_sameHeroes (sameRoster_others world).heroes

theorem onConnect (world : World) (records : UInt32 → Records) (registry : Registry)
    (asset : Balances) (backpackNum recuiteType chanceNum : Int) (isMan : Bool) :
    (LoginWorker.onConnect world records registry asset backpackNum recuiteType chanceNum
      isMan).Slotted := by
  intro i h hh
  have hplayer : (LoginWorker.onConnect world records registry asset backpackNum recuiteType
      chanceNum isMan).player = { asset, backpackNum } := World.player_setPlayer_self _
  rw [hplayer] at hh
  exact absurd hh (by simp)

theorem reachable {world : World} {records : UInt32 → Records} {registry : Registry}
    {asset : Balances} {backpackNum recuiteType chanceNum : Int} {isMan : Bool}
    {es : List SessionEvent} (hrun : Run.exec (LoginWorker.step cfg) (LoginWorker.onConnect world
      records registry asset backpackNum recuiteType chanceNum isMan) es = some s) : s.Slotted :=
  Run.exec_invariant (fun _ _ _ hs ht => hs.step ht)
    (onConnect world records registry asset backpackNum recuiteType chanceNum isMan) hrun

end Slotted

/-- In every state that a session reaches, the services stay inside the arrays and reject what
is outside exactly for the requests that their checks are enough for. -/
theorem checked_iff_staysInside {world : World} {records : UInt32 → Records} {registry : Registry}
    {asset : Balances} {backpackNum recuiteType chanceNum : Int} {isMan : Bool}
    {es : List SessionEvent} {r : Request} (hrun : Run.exec (step cfg) (onConnect world records
      registry asset backpackNum recuiteType chanceNum isMan) es = some s) (hr : r.Indexes) :
    s.Checked cfg now r ↔ s.StaysInside r :=
  (Slotted.reachable hrun).checked_iff hr

theorem checked_iff_staysInside_opened : ∃ s,
    Run.exec (step {}) (onConnect {} (fun _ => {}) {} (fun _ => 0) 12 0 0 false)
      [.request (.openBox "equip" {}) 0] = some s ∧
    (s.Checked {} 1 (.saleGoods 0 5) ↔ s.StaysInside (.saleGoods 0 5)) := by
  have hend : (Run.exec (step {}) (onConnect {} (fun _ => {}) {} (fun _ => 0) 12 0 0 false)
      [.request (.openBox "equip" {}) 0]).isSome := by decide
  obtain ⟨s, hs⟩ := Option.isSome_iff_exists.mp hend
  exact ⟨s, hs, checked_iff_staysInside hs trivial⟩

/-- The check for the hero to drop is never met. -/
theorem not_checked_dropHero :
    ¬ ∀ (cfg : Config) (world : World) (records : UInt32 → Records) (registry : Registry)
      (asset : Balances) (backpackNum recuiteType chanceNum : Int) (isMan : Bool)
      (es : List SessionEvent) (s : LoginWorker) (now : Int) (r : Request),
      Run.exec (step cfg) (onConnect world records registry asset backpackNum recuiteType chanceNum
        isMan) es = some s → r.Indexes → s.Checked cfg now r := by
  intro hall
  have hchecked := hall {} {} (fun _ => {}) {} (fun _ => 0) 12 0 0 false [] _ 0 (.dropHero 0) rfl
    trivial
  have hfirst := hchecked.inside (.myHero (-1)) List.mem_cons_self
  exact absurd hfirst.1 (by decide)

end LoginWorker

end IceBridge.Gateway
