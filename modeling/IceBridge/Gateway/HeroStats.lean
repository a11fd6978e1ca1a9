import IceBridge.Gateway.Wardrobe
import IceBridge.Lib.Truncate
import Mathlib.Data.Rat.Floor
import Mathlib.Tactic.Linarith

/-! The values of a hero. `HeroBaseAttCaculate` sets them when he is recruited, from the
configuration of his quality, and `HeroRecaculate` whenever he changes what he wears. The floating
point numbers are exact here. -/

namespace IceBridge.Gateway
open Truncate

structure HeroBase where
  baseLeader : ℚ := 0
  baseStrategy : ℚ := 0
  baseEconomy : ℚ := 0
  baseStrength : ℚ := 0
  baseMagicPower : ℚ := 0
  baseHp : ℚ := 0
  baseMp : ℚ := 0
  baseAttack : ℚ := 0
  baseDefence : ℚ := 0
  deriving DecidableEq

structure HeroAtt where
  quality : Int := 0
  leader : ℚ := 0
  strategy : ℚ := 0
  economy : ℚ := 0
  strength : ℚ := 0
  magicPower : ℚ := 0
  maxHp : Int := 0
  maxMp : Int := 0
  attack : Int := 0
  defence : Int := 0
  baseAtt : HeroBase := {}
  deriving DecidableEq

structure HeroBaseConfig where
  baseHp : Int := 0
  baseMp : Int := 0
  baseAttack : Int := 0
  baseDefence : Int := 0

structure Drawn where
  leader : Int
  strategy : Int
  economy : Int
  strength : Int
  magicPower : Int

/-- Each attribute is set along with its base. -/
def getHeroAtt (quality : Int) (att : Drawn) : HeroAtt where
  quality := quality
  leader := att.leader
  strategy := att.strategy
  economy := att.economy
  strength := att.strength
  magicPower := att.magicPower
  baseAtt :=
    { baseLeader := att.leader
      baseStrategy := att.strategy
      baseEconomy := att.economy
      baseStrength := att.strength
      baseMagicPower := att.magicPower }

namespace HeroAtt

def configured (heroBaseConfig : List HeroBaseConfig) (quality : Int) : Int :=
  if quality < 1 ∨ heroBaseConfig.length < quality then 1 else quality

/-- The base of the mp is that of the hp. -/
def heroBaseAttCaculate (heroBaseConfig : List HeroBaseConfig) (res : HeroAtt) :
    Option HeroAtt := do
  let quality := configured heroBaseConfig res.quality
  let c ← heroBaseConfig[(quality - 1).toNat]?
  some { res with
    quality
    maxHp := c.baseHp + trunc res.strength * 5
    maxMp := c.baseMp + trunc res.magicPower
    attack := c.baseAttack + trunc res.strength
    defence := c.baseDefence + trunc (res.strength * 0.02)
    baseAtt := { res.baseAtt with
      baseHp := c.baseHp
      baseMp := c.baseHp
      baseAttack := c.baseAttack
      baseDefence := c.baseDefence } }

end HeroAtt

def EquipAttr.bonus (a : EquipAttr) (type : Int) : Int :=
  (if a.attr1Type = type then a.attr1Value else 0) +
    (if a.attr2Type = type then a.attr2Value else 0) +
    (if a.extral1Type = type then a.extral1Value else 0) +
    (if a.extral2Type = type then a.extral2Value else 0)

/-- What the equips in the slots add; one that is not worn adds nothing. -/
def equipBonus (slots : List Equip) (type : Int) : Int :=
  (slots.map fun e => if e.witchPannle ≠ 1 then 0 else e.attr.bonus type).sum

/-- Neither the base of the hp nor that of the mp is used. -/
def HeroAtt.heroRecaculate (hero : HeroAtt) (slots : List Equip) : HeroAtt :=
  let base := hero.baseAtt
  let strength := base.baseStrength + equipBonus slots 4
  let magicPower := base.baseMagicPower + equipBonus slots 5
  { hero with
    leader := base.baseLeader + equipBonus slots 1
    strategy := base.baseStrategy + equipBonus slots 2
    economy := base.baseEconomy + equipBonus slots 3
    strength
    magicPower
    maxHp := trunc (strength * 5 + equipBonus slots 6)
    maxMp := trunc (magicPower + equipBonus slots 7)
    attack := trunc (base.baseAttack + strength)
    defence := trunc (base.baseDefence + strength * 0.02) }

/-! ## Dressing -/

structure Attired where
  world : World := {}
  att : UInt32 → String → HeroAtt

namespace Attired

def recaculate (s : Attired) (u : UInt32) (h : Hero) : Attired :=
  let slots := (s.world.player u).heroEquip h.heroUuid
  let att := Function.update (s.att u) h.heroUuid ((s.att u h.heroUuid).heroRecaculate slots)
  { s with att := Function.update s.att u att }

def dressEquip (s : Attired) (u : UInt32) (whichHero backpackPosition heroPosition : Int) :
    Option Attired := do
  let o ← s.world.dressEquip u whichHero backpackPosition heroPosition
  match o.result, (s.world.player u).myHero (whichHero - 1).toNat with
  | none, some h => some ({ s with world := o.world }.recaculate u h)
  | _, _ => some { s with world := o.world }

def unloadEquip (s : Attired) (u : UInt32) (whichHero position : Int) : Option Attired := do
  let o ← s.world.unloadEquip u whichHero position
  match o.result, (s.world.player u).myHero (whichHero - 1).toNat with
  | some 0, some h => some ({ s with world := o.world }.recaculate u h)
  | _, _ => some { s with world := o.world }

def step (s : Attired) : GoodsEvent → Option Attired
  | .dressEquip u whichHero backpackPosition heroPosition =>
    if s.world.online u then s.dressEquip u whichHero backpackPosition heroPosition else none
  | .unloadEquip u whichHero position =>
    if s.world.online u then s.unloadEquip u whichHero position else none
  | e => (s.world.goodsStep e).map fun world => { s with world }

end Attired

theorem equipBonus_of_nothingWorn {slots : List Equip} (hslots : NothingWorn slots) (type : Int) :
    equipBonus slots type = 0 := by
  refine List.sum_eq_zero fun x hx => ?_
  obtain ⟨e, he, rfl⟩ := List.mem_map.mp hx
  exact if_pos (hslots e he)

/-- The recruited hero has nothing from the configuration in his hp and mp, and his defence is cut
off on the same side of 0 before the configured value is added and after. -/
def HeroBaseConfig.Kept (c : HeroBaseConfig) (strength : Int) : Prop :=
  c.baseHp = 0 ∧ c.baseMp = 0 ∧
    (50 ∣ strength ∨ 0 ≤ strength ∧ 0 ≤ 50 * c.baseDefence + strength ∨
      strength ≤ 0 ∧ 50 * c.baseDefence + strength ≤ 0)

namespace HeroAtt
variable {heroBaseConfig : List HeroBaseConfig} {quality : Int} {att : Drawn} {hero : HeroAtt}

@[simp] theorem heroRecaculate_heroRecaculate (slots slots' : List Equip) :
    (hero.heroRecaculate slots).heroRecaculate slots' = hero.heroRecaculate slots' :=
  rfl

theorem sign_iff {x : ℚ} {n : ℤ} (h : x * 50 = n) : (0 ≤ x ↔ 0 ≤ n) ∧ (x ≤ 0 ↔ n ≤ 0) := by
  rw [← Int.cast_nonneg_iff (R := ℚ), ← Int.cast_nonpos (R := ℚ), ← h]
  refine ⟨⟨fun hx => ?_, fun hx => ?_⟩, fun hx => ?_, fun hx => ?_⟩ <;> linarith

theorem trunc_defence_iff (defence strength : Int) :
    trunc ((defence : ℚ) + strength * 0.02) = defence + trunc ((strength : ℚ) * 0.02) ↔
      50 ∣ strength ∨ 0 ≤ strength ∧ 0 ≤ 50 * defence + strength ∨
        strength ≤ 0 ∧ 50 * defence + strength ≤ 0 := by
  have hfifty : (strength : ℚ) * 0.02 * 50 = strength := by ring
  have hint : (∃ m : ℤ, (strength : ℚ) * 0.02 = m) ↔ 50 ∣ strength := by
    constructor
    · rintro ⟨m, hm⟩
      refine ⟨m, ?_⟩
      rw [hm] at hfifty
      have hcast : m * 50 = strength := by exact_mod_cast hfifty
      omega
    · rintro ⟨m, rfl⟩
      refine ⟨m, ?_⟩
      push_cast
      ring
  have hsum : ((defence : ℚ) + strength * 0.02) * 50 = (50 * defence + strength : ℤ) := by
    push_cast
    ring
  obtain ⟨hpos, hneg⟩ := sign_iff hfifty
  obtain ⟨hsumpos, hsumneg⟩ := sign_iff hsum
  rw [trunc_intCast_add_iff, hint, hpos, hneg, hsumpos, hsumneg]

theorem heroRecaculate_iff {c : HeroBaseConfig} {slots : List Equip}
    (hslots : NothingWorn slots)
    (hhero : (getHeroAtt quality att).heroBaseAttCaculate heroBaseConfig = some hero)
    (hc : heroBaseConfig[(configured heroBaseConfig quality - 1).toNat]? = some c) :
    hero.heroRecaculate slots = hero ↔ c.Kept att.strength := by
  unfold heroBaseAttCaculate at hhero
  dsimp only [getHeroAtt] at hhero
  rw [hc] at hhero
  obtain rfl := Option.some.inj hhero
  have hhp : trunc ((att.strength : ℚ) * 5) = att.strength * 5 := by
    exact_mod_cast trunc_intCast (α := ℚ) (att.strength * 5)
  have hattack : trunc ((c.baseAttack : ℚ) + att.strength) = c.baseAttack + att.strength := by
    exact_mod_cast trunc_intCast (α := ℚ) (c.baseAttack + att.strength)
  simp only [heroRecaculate, equipBonus_of_nothingWorn hslots, Int.cast_zero, add_zero,
    HeroAtt.mk.injEq, true_and, and_true]
  rw [hhp, hattack, trunc_defence_iff, trunc_intCast, trunc_intCast]
  constructor
  · rintro ⟨hbaseHp, hbaseMp, -, hdefence⟩
    exact ⟨by omega, by omega, hdefence⟩
  · rintro ⟨hbaseHp, hbaseMp, hdefence⟩
    exact ⟨by omega, by omega, rfl, hdefence⟩

end HeroAtt

/-! ## Runs -/

namespace World
variable {w : World} {u v : UInt32} {h : Hero} {heroUuid : String} {i : ℕ}

theorem heroEquip_of_player {p : Player} {e : Equip}
    (hslots : p.heroEquip = ((w.player u).setSlot h.heroUuid i e).heroEquip)
    (hne : ¬ (v = u ∧ heroUuid = h.heroUuid)) :
    ((w.setPlayer u p).player v).heroEquip heroUuid = (w.player v).heroEquip heroUuid := by
  rw [setPlayer_player]
  split_ifs with hv
  · rw [hslots, hv]
    exact Function.update_of_ne (fun huuid => hne ⟨hv, huuid⟩) _ _
  · rfl

end World

namespace Attired
variable {s t : Attired} {u v : UInt32} {h : Hero} {heroUuid : String} {hero : HeroAtt}

/-- The values are those of the recruited hero with what he wears. -/
def Shows (s : Attired) (hero : HeroAtt) (v : UInt32) (heroUuid : String) : Prop :=
  s.att v heroUuid = hero.heroRecaculate ((s.world.player v).heroEquip heroUuid)

theorem Shows.of_slots {world : World} (hs : s.Shows hero v heroUuid)
    (hslots : (world.player v).heroEquip heroUuid = (s.world.player v).heroEquip heroUuid) :
    Shows { s with world } hero v heroUuid := by
  unfold Shows
  rw [hslots]
  exact hs

theorem Shows.recaculate {world : World} (hs : s.Shows hero v heroUuid)
    (hslots : ¬ (v = u ∧ heroUuid = h.heroUuid) →
      (world.player v).heroEquip heroUuid = (s.world.player v).heroEquip heroUuid) :
    (Attired.recaculate { s with world } u h).Shows hero v heroUuid := by
  by_cases hsame : v = u ∧ heroUuid = h.heroUuid
  · obtain ⟨rfl, rfl⟩ := hsame
    show Function.update s.att v (Function.update (s.att v) h.heroUuid _) v h.heroUuid = _
    rw [Function.update_self, Function.update_self, hs]
    exact HeroAtt.heroRecaculate_heroRecaculate _ _
  · refine Eq.trans ?_ (hs.of_slots (hslots hsame))
    show Function.update s.att u (Function.update (s.att u) h.heroUuid _) v heroUuid = _
    by_cases hv : v = u
    · subst hv
      rw [Function.update_self, Function.update_of_ne fun huuid => hsame ⟨rfl, huuid⟩]
    · rw [Function.update_of_ne hv]

theorem Shows.dressEquip {whichHero backpackPosition heroPosition : Int}
    (hs : s.Shows hero v heroUuid)
    (ht : s.dressEquip u whichHero backpackPosition heroPosition = some t) :
    t.Shows hero v heroUuid := by
  obtain ⟨o, ho, ht⟩ := Option.bind_eq_some_iff.mp ht
  rcases World.dressEquip_cases ho with ⟨result, -, rfl⟩ | ⟨h, i, -, hh, hdress⟩
  · obtain rfl := Option.some.inj ht
    exact hs.of_slots rfl
  · obtain ⟨-, p, rfl, -, -, hslots⟩ := World.dressAt_writes hdress
    rw [hh] at ht
    obtain rfl := Option.some.inj ht
    exact hs.recaculate fun hne => World.heroEquip_of_player hslots hne

theorem Shows.unloadEquip {whichHero position : Int} (hs : s.Shows hero v heroUuid)
    (ht : s.unloadEquip u whichHero position = some t) : t.Shows hero v heroUuid := by
  obtain ⟨o, ho, ht⟩ := Option.bind_eq_some_iff.mp ht
  rcases World.unloadEquip_cases ho with ⟨result, hneg, rfl⟩ | ⟨h, e, b, hh, he, -, -, rfl⟩
  · split at ht
    · next hzero _ => exact absurd (Option.some.inj hzero) hneg.ne
    · obtain rfl := Option.some.inj ht
      exact hs.of_slots rfl
  · rw [hh] at ht
    obtain rfl := Option.some.inj ht
    exact hs.recaculate fun hne => World.heroEquip_of_player (by rfl) hne

theorem Shows.step {e : GoodsEvent} (hs : s.Shows hero v heroUuid) (ht : s.step e = some t) :
    t.Shows hero v heroUuid := by
  cases e with
  | dressEquip u whichHero backpackPosition heroPosition =>
    dsimp only [Attired.step] at ht
    split_ifs at ht
    exact hs.dressEquip ht
  | unloadEquip u whichHero position =>
    dsimp only [Attired.step] at ht
    split_ifs at ht
    exact hs.unloadEquip ht
  | openBox | saleGoods | buyMarketGoods | getEmailGoods | pushNotify =>
    obtain ⟨world, hworld, rfl⟩ := Option.map_eq_some_iff.mp ht
    rcases World.goodsStep_cases hworld with ⟨_, _, _, _, _, he, -⟩ | ⟨_, _, _, _, he, -⟩ |
      ⟨hsame, -⟩
    · exact absurd he (by simp)
    · exact absurd he (by simp)
    · exact hs.of_slots (by rw [hsame.heroEquip])

end Attired

section
variable {heroBaseConfig : List HeroBaseConfig} {quality : Int} {att : Drawn} {hero : HeroAtt}

/-- The values of a recruited hero are the same whenever he wears nothing, before anything is
calculated again and after, if and only if his configuration is `Kept`. -/
theorem recaculate_restores_iff
    (hhero : (getHeroAtt quality att).heroBaseAttCaculate heroBaseConfig = some hero) :
    ((∀ slots, NothingWorn slots → hero.heroRecaculate slots = hero) ∧
      ∀ (s t : Attired) (u : UInt32) (heroUuid : String) (es : List GoodsEvent),
        s.att u heroUuid = hero → NothingWorn ((s.world.player u).heroEquip heroUuid) →
        Run.exec Attired.step s es = some t →
        NothingWorn ((t.world.player u).heroEquip heroUuid) → t.att u heroUuid = hero) ↔
    ∀ c, heroBaseConfig[(HeroAtt.configured heroBaseConfig quality - 1).toNat]? = some c →
      c.Kept att.strength := by
  constructor
  · rintro ⟨hrecaculate, -⟩ c hc
    have hempty : NothingWorn [] := fun _ he => absurd he List.not_mem_nil
    exact (HeroAtt.heroRecaculate_iff hempty hhero hc).mp (hrecaculate [] hempty)
  · intro hkept
    obtain ⟨c, hc, -⟩ := Option.bind_eq_some_iff.mp hhero
    have hrecaculate : ∀ slots, NothingWorn slots → hero.heroRecaculate slots = hero :=
      fun slots hslots => (HeroAtt.heroRecaculate_iff hslots hhero hc).mpr (hkept c hc)
    refine ⟨hrecaculate, fun s t u heroUuid es hatt hslots hrun hslots' => ?_⟩
    have hstart : s.Shows hero u heroUuid := hatt.trans (hrecaculate _ hslots).symm
    have hend : t.Shows hero u heroUuid :=
      Run.exec_invariant (I := fun s : Attired => s.Shows hero u heroUuid)
        (fun _ _ _ hs ht => hs.step ht) hstart hrun
    exact hend.trans (hrecaculate _ hslots')

theorem recaculate_restores_bare : ∃ hero : HeroAtt,
    (getHeroAtt 1 ⟨5, 5, 5, 10, 7⟩).heroBaseAttCaculate [{ baseAttack := 8, baseDefence := 3 }] =
      some hero ∧
    (∀ slots, NothingWorn slots → hero.heroRecaculate slots = hero) ∧
    ∀ (s t : Attired) (u : UInt32) (heroUuid : String) (es : List GoodsEvent),
      s.att u heroUuid = hero → NothingWorn ((s.world.player u).heroEquip heroUuid) →
      Run.exec Attired.step s es = some t →
      NothingWorn ((t.world.player u).heroEquip heroUuid) → t.att u heroUuid = hero := by
  have hhero : (getHeroAtt 1 ⟨5, 5, 5, 10, 7⟩).heroBaseAttCaculate
      [{ baseAttack := 8, baseDefence := 3 }] = some _ := rfl
  refine ⟨_, hhero, (recaculate_restores_iff hhero).mpr fun c hc => ?_⟩
  obtain rfl := Option.some.inj hc
  exact ⟨rfl, rfl, .inr (.inl ⟨by decide, by decide⟩)⟩

/-- A hero whose hp is 150 has 50 when it is calculated again. -/
theorem not_recaculate_restores : ¬ ∀ (heroBaseConfig : List HeroBaseConfig) (quality : Int)
    (att : Drawn) (hero : HeroAtt),
    (getHeroAtt quality att).heroBaseAttCaculate heroBaseConfig = some hero →
    (∀ slots, NothingWorn slots → hero.heroRecaculate slots = hero) ∧
      ∀ (s t : Attired) (u : UInt32) (heroUuid : String) (es : List GoodsEvent),
        s.att u heroUuid = hero → NothingWorn ((s.world.player u).heroEquip heroUuid) →
        Run.exec Attired.step s es = some t →
        NothingWorn ((t.world.player u).heroEquip heroUuid) → t.att u heroUuid = hero := by
  intro hall
  obtain ⟨hrecaculate, -⟩ :=
    hall [{ baseHp := 100, baseMp := 20 }] 1 ⟨5, 5, 5, 10, 7⟩ _ rfl
  have hhp := congrArg HeroAtt.maxHp (hrecaculate [] fun _ he => absurd he List.not_mem_nil)
  exact absurd hhp (by decide +kernel)

end

end IceBridge.Gateway
