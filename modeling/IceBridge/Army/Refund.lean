import IceBridge.Army.Paid

/-! What orders cost and what is given back for them. Both go by the number in the request, and
so the balances of the player are right only while the queue has as many soldiers to give. -/

namespace IceBridge.Army
open Text

theorem ints_of_not_fits {amount : Balances} (h : ¬ ∀ a, a ≠ Asset.diamond → FitsInt (amount a)) :
    ints amount = none := if_neg h

/-- The soldiers that a request for `num` takes out of an entry of `k`; a negative request adds to
the entry, until its number does not fit any more. -/
def taken (k num : Int) : ℕ :=
  if num ≤ 0 then (if 32767 < k - num then k.toNat else 0) else (min k num).toNat

namespace Barracks

def needOf (sm : SmallMap) (e : SoldierInfo) : Balances :=
  ((sm.price e.soldierType e.soldierLevel).map ArmsPrice.need).getD fun _ => 0

/-- From `b` to `t` no resource goes up by more than half the price of the soldiers that leave the
queue, and none when none leave it. -/
structure HalfRefunded (need : Balances) (whichCamp : Text) (s : Soldier) (b t : Barracks) :
    Prop where
  half : ∀ a, a ≠ Asset.diamond → 2 * (t.asset a - b.asset a) ≤
    need a * ((queued (b.queue whichCamp) s - queued (t.queue whichCamp) s : ℕ) : Int)
  nothing : queued (b.queue whichCamp) s ≤ queued (t.queue whichCamp) s →
    ∀ a, t.asset a ≤ b.asset a

def RefundsHalf (sm : SmallMap) (now : Int) (b : Barracks) (e : SoldierInfo) (whichCamp : Text) :
    Prop :=
  ∃ t, b.delSoliders sm now e whichCamp = some t ∧
    HalfRefunded (needOf sm e) whichCamp e.soldier b t

def OnlyCosts (sm : SmallMap) (now : Int) (b : Barracks) (e : SoldierInfo) (whichCamp : Text) :
    Prop :=
  ∃ t, b.addSoldiers sm now e whichCamp = some t ∧ ∀ a, t.asset a ≤ b.asset a

/-- No refund overflows, and half of each price times the number asked for is at most half of the
price of the soldiers that there are to be taken. -/
def AsksForThere (sm : SmallMap) (b : Barracks) (e : SoldierInfo) (whichCamp : Text) : Prop :=
  ∀ p, sm.price e.soldierType e.soldierLevel = some p → b.campQueue whichCamp ≠ none →
    (∀ a, a ≠ Asset.diamond → FitsInt (p.refund e.soldierNum a)) ∧
    ∀ x, (b.queue whichCamp).find? (fun x => x.soldier = e.soldier) = some x →
      ∀ a, a ≠ Asset.diamond → 2 * ((p.need a).tdiv 2 * e.soldierNum) ≤
        p.need a * (taken x.soldierNum e.soldierNum : Int)

def CostsSomething (sm : SmallMap) (b : Barracks) (e : SoldierInfo) : Prop :=
  ∀ p, sm.price e.soldierType e.soldierLevel = some p →
    ∃ unlock, sm.soldierIsUnlock b.combatUnionUid e.soldierType e.soldierLevel = some unlock ∧
      (unlock = false → (∀ a, a ≠ Asset.diamond → FitsInt (p.need a * e.soldierNum)) ∧
        (p.need .wood * e.soldierNum ≤ b.asset .wood →
          ∀ a, a ≠ Asset.diamond → 0 ≤ p.need a * e.soldierNum))

section
variable {sm : SmallMap} {b t : Barracks} {whichCamp : Text} {now : Int} {e : SoldierInfo} {q : Camp}

theorem queued_sub_left {pre post : List Entry} {x : Entry} {left : Option Int} {num : Int}
    (hcut : Cut num pre x left) (hx : -32768 ≤ x.soldierNum ∧ x.soldierNum ≤ 32767)
    (hnum : -32768 ≤ num ∧ num ≤ 32767) :
    queued (pre ++ x :: post) x.soldier -
        queued (pre ++ (left.map fun n => { x with soldierNum := n }).toList ++ post) x.soldier =
      taken x.soldierNum num := by
  have hleft : x.soldierNum.toNat - (left.getD 0).toNat = taken x.soldierNum num := by
    unfold Cut short at hcut
    unfold taken
    cases left with
    | none =>
      dsimp only [Option.getD_none] at hcut ⊢
      split_ifs at hcut ⊢ <;> omega
    | some n =>
      obtain ⟨rfl, hpos⟩ := hcut
      dsimp only [Option.getD_some]
      split_ifs at hpos ⊢ <;> omega
  rw [← hleft]
  cases left with
  | none =>
    simp only [Option.map_none, Option.toList_none, List.append_nil, queued_append, queued_cons,
      if_true, Option.getD_none]
    omega
  | some n =>
    have hkind : ({ x with soldierNum := n } : Entry).soldier = x.soldier := rfl
    simp only [Option.map_some, Option.toList_some, queued_append, queued_cons, queued_nil, hkind,
      if_true, Option.getD_some]
    omega

theorem halfRefunded_refl {need : Balances} {s : Soldier} :
    HalfRefunded need whichCamp s b b := by
  constructor
  · intro a _
    simp
  · exact fun _ _ => le_refl _

theorem addResource_asset (amount : Balances) :
    (b.addResource amount).asset = b.asset.more amount := by
  rw [addResource, Balances.manPlayerResources, Balances.manUserResource_one]

theorem refundsHalf_found {p : ArmsPrice} {x : Entry} {pre post : List Entry} {left : Option Int}
    (hp : sm.price e.soldierType e.soldierLevel = some p)
    (hsame : SameRecords b t) (hsplit : b.queue whichCamp = pre ++ x :: post)
    (hx : x.soldier = e.soldier) (hcut : Cut e.soldierNum pre x left)
    (hnew : t.queue whichCamp =
      pre ++ (left.map fun n => { x with soldierNum := n }).toList ++ post)
    (hxnum : -32768 ≤ x.soldierNum ∧ x.soldierNum ≤ 32767)
    (hnum : -32768 ≤ e.soldierNum ∧ e.soldierNum ≤ 32767) :
    HalfRefunded (needOf sm e) whichCamp e.soldier b (t.addResource (p.refund e.soldierNum)) ↔
      ∀ a, a ≠ Asset.diamond → 2 * ((p.need a).tdiv 2 * e.soldierNum) ≤
        p.need a * (taken x.soldierNum e.soldierNum : Int) := by
  have hneed : needOf sm e = p.need := by
    rw [needOf, hp]
    rfl
  have hgain : ∀ a, a ≠ Asset.diamond →
      (t.addResource (p.refund e.soldierNum)).asset a - b.asset a =
        (p.need a).tdiv 2 * e.soldierNum := by
    intro a ha
    rw [addResource_asset, hsame.asset, Balances.more, if_neg ha, ArmsPrice.refund]
    omega
  have hqueue : (t.addResource (p.refund e.soldierNum)).queue whichCamp = t.queue whichCamp := rfl
  have htaken : queued (b.queue whichCamp) e.soldier -
      queued ((t.addResource (p.refund e.soldierNum)).queue whichCamp) e.soldier =
        taken x.soldierNum e.soldierNum := by
    rw [hqueue, hsplit, hnew, ← hx]
    exact queued_sub_left hcut hxnum hnum
  constructor
  · intro h a ha
    have hhalf := h.half a ha
    rw [hgain a ha, htaken, hneed] at hhalf
    exact hhalf
  · intro h
    constructor
    · intro a ha
      rw [hgain a ha, htaken, hneed]
      exact h a ha
    · intro hle a
      -- nothing has left the queue, so nothing may come back
      have hzero : taken x.soldierNum e.soldierNum = 0 := by
        rw [← htaken]
        omega
      by_cases ha : a = .diamond
      · rw [addResource_asset, hsame.asset, Balances.more, if_pos ha]
      · have hhalf := h a ha
        have hgained := hgain a ha
        rw [hzero, Int.natCast_zero, Int.mul_zero] at hhalf
        omega

theorem refundsHalf_iff (hq : ∀ x ∈ b.queue whichCamp, -32768 ≤ x.soldierNum ∧ x.soldierNum ≤ 32767)
    (hnum : -32768 ≤ e.soldierNum ∧ e.soldierNum ≤ 32767) :
    b.RefundsHalf sm now e whichCamp ↔ b.AsksForThere sm e whichCamp := by
  by_cases hnone : sm.price e.soldierType e.soldierLevel = none ∨ b.campQueue whichCamp = none
  · refine iff_of_true ⟨b, delSoliders_of_none hnone, halfRefunded_refl⟩ ?_
    intro p hp hcamp
    rcases hnone with hnone | hnone
    · exact absurd (hp.symm.trans hnone) (Option.some_ne_none p)
    · exact absurd hnone hcamp
  obtain ⟨hprice, hcamp⟩ := not_or.mp hnone
  obtain ⟨p, hp⟩ := Option.ne_none_iff_exists'.mp hprice
  obtain ⟨q, hqueue⟩ := Option.ne_none_iff_exists'.mp hcamp
  by_cases hfits : ∀ a, a ≠ Asset.diamond → FitsInt (p.refund e.soldierNum a)
  · have hdel := delSoliders_of_fits now hp hqueue hfits
    -- the price is known and the camp is there, so only the entry matters
    have hcond : b.AsksForThere sm e whichCamp ↔
        ∀ x, (b.queue whichCamp).find? (fun x => x.soldier = e.soldier) = some x →
          ∀ a, a ≠ Asset.diamond → 2 * ((p.need a).tdiv 2 * e.soldierNum) ≤
            p.need a * (taken x.soldierNum e.soldierNum : Int) := by
      constructor
      · exact fun h => (h p hp hcamp).2
      · intro h p' hp' _
        obtain rfl := Option.some.inj (hp.symm.trans hp')
        exact ⟨hfits, h⟩
    rw [hcond]
    rcases b.dequeue_cases sm now e whichCamp q with
      ⟨hmissed, hfind⟩ | ⟨t, pre, x, post, left, hsome, hsame, hsplit, hx, hfind, hcut, hnew⟩
    · rw [hmissed] at hdel
      refine iff_of_true ⟨b, hdel, halfRefunded_refl⟩ fun x hx => ?_
      rw [queue_of_some hqueue, hfind] at hx
      exact absurd hx.symm (Option.some_ne_none x)
    · rw [hsome] at hdel
      rw [← queue_of_some hqueue] at hsplit hfind
      have hxnum := hq x (by simp [hsplit])
      have hfound := refundsHalf_found hp hsame hsplit hx hcut hnew hxnum hnum
      constructor
      · rintro ⟨t', ht', hhalf⟩ y hy
        obtain rfl := Option.some.inj (hdel.symm.trans ht')
        obtain rfl := Option.some.inj (hfind.symm.trans hy)
        exact hfound.mp hhalf
      · intro h
        exact ⟨_, hdel, hfound.mpr (h x hfind)⟩
  · refine iff_of_false ?_ fun h => hfits (h p hp hcamp).1
    rintro ⟨t, ht, -⟩
    rw [delSoliders, hp, hqueue] at ht
    simp only [ints_of_not_fits hfits] at ht
    exact Option.some_ne_none t ht.symm

theorem onlyCosts_unpaid (hpay : (b.createCamp whichCamp).payFor sm e =
    some (false, b.createCamp whichCamp)) : b.OnlyCosts sm now e whichCamp := by
  refine ⟨_, addSoldiers_of_pay now hpay, fun a => ?_⟩
  exact le_of_eq (congrFun (sameRecords_createCamp _ _).asset a)

theorem not_onlyCosts_undefined (hpay : (b.createCamp whichCamp).payFor sm e = none) :
    ¬ b.OnlyCosts sm now e whichCamp := by
  rintro ⟨t, ht, -⟩
  rw [addSoldiers, hpay] at ht
  exact Option.some_ne_none t ht.symm

theorem onlyCosts_paid {amount : Balances}
    (hpay : (b.createCamp whichCamp).payFor sm e =
      some (true, { b.createCamp whichCamp with asset := b.asset.less amount })) :
    b.OnlyCosts sm now e whichCamp ↔ ∀ a, a ≠ Asset.diamond → 0 ≤ amount a := by
  have hadd := addSoldiers_of_pay now hpay
  have hasset : ((if true = true then
      ({ b.createCamp whichCamp with asset := b.asset.less amount } : Barracks).enqueue sm now e
        whichCamp
      else { b.createCamp whichCamp with asset := b.asset.less amount } : Barracks)).asset =
        b.asset.less amount := by
    have hcamp : (({ b.createCamp whichCamp with asset := b.asset.less amount } :
        Barracks).campQueue whichCamp).isSome := createCamp_isSome
    rw [if_pos rfl]
    exact (enqueue_cases sm now e hcamp).1.asset
  constructor
  · rintro ⟨t, ht, hle⟩ a ha
    obtain rfl := Option.some.inj (hadd.symm.trans ht)
    have hle := hle a
    rw [hasset, Balances.less, if_neg ha] at hle
    omega
  · intro hcost
    refine ⟨_, hadd, fun a => ?_⟩
    rw [hasset, Balances.less]
    by_cases ha : a = .diamond
    · rw [if_pos ha]
    · have hpos := hcost a ha
      rw [if_neg ha]
      omega

theorem onlyCosts_iff : b.OnlyCosts sm now e whichCamp ↔ b.CostsSomething sm e := by
  have hsame := sameRecords_createCamp b whichCamp
  cases hp : sm.price e.soldierType e.soldierLevel with
  | none =>
    refine iff_of_true (onlyCosts_unpaid (payFor_of_none hp)) fun p hp' => ?_
    exact absurd (hp'.symm.trans hp) (Option.some_ne_none p)
  | some p =>
    have hcond : ∀ {u}, sm.soldierIsUnlock b.combatUnionUid e.soldierType e.soldierLevel = u →
        (b.CostsSomething sm e ↔ ∃ unlock, u = some unlock ∧
          (unlock = false → (∀ a, a ≠ Asset.diamond → FitsInt (p.need a * e.soldierNum)) ∧
            (p.need .wood * e.soldierNum ≤ b.asset .wood →
              ∀ a, a ≠ Asset.diamond → 0 ≤ p.need a * e.soldierNum))) := by
      intro u hu
      rw [← hu]
      constructor
      · exact fun h => h p hp
      · intro h p' hp'
        obtain rfl := Option.some.inj (hp.symm.trans hp')
        exact h
    cases hunlock : sm.soldierIsUnlock b.combatUnionUid e.soldierType e.soldierLevel with
    | none =>
      rw [hcond hunlock]
      refine iff_of_false (not_onlyCosts_undefined ?_) ?_
      · rw [payFor, hp, hsame.combatUnionUid]
        simp [hunlock]
      · rintro ⟨unlock, h, -⟩
        exact Option.some_ne_none unlock h.symm
    | some unlock =>
      rw [hcond hunlock]
      rw [← hsame.combatUnionUid] at hunlock
      cases unlock with
      | true =>
        refine iff_of_true (onlyCosts_unpaid (payFor_of_unlock hp hunlock)) ⟨true, rfl, fun h => ?_⟩
        exact Bool.noConfusion h
      | false =>
        by_cases hfits : ∀ a, a ≠ Asset.diamond → FitsInt (p.need a * e.soldierNum)
        · have hpay := payFor_of_price hp hunlock hfits
          rw [hsame.asset] at hpay
          by_cases hwood : b.asset .wood < p.cost e.soldierNum .wood
          · rw [if_pos hwood] at hpay
            refine iff_of_true (onlyCosts_unpaid hpay) ⟨false, rfl, fun _ => ⟨hfits, fun hle => ?_⟩⟩
            exact absurd hwood (not_lt.mpr hle)
          · rw [if_neg hwood] at hpay
            rw [onlyCosts_paid hpay]
            constructor
            · exact fun h => ⟨false, rfl, fun _ => ⟨hfits, fun _ => h⟩⟩
            · rintro ⟨unlock, h, hcost⟩
              obtain rfl := Option.some.inj h
              exact (hcost rfl).2 (not_lt.mp hwood)
        · -- a cost that overflows makes the order undefined
          refine iff_of_false (not_onlyCosts_undefined ?_) ?_
          · have hnone : ints (p.cost e.soldierNum) = none := ints_of_not_fits hfits
            rw [payFor, hp]
            simp [hunlock, hnone]
          · rintro ⟨unlock, h, hcost⟩
            obtain rfl := Option.some.inj h
            exact hfits (hcost rfl).1

end

/-- A request to delete gives back no more than half of what it takes out of the queue is worth,
and an order increases no balance, exactly when they ask for soldiers that are there, and for
soldiers that cost something. -/
theorem fair_iff (sm : SmallMap) (now : Int) (b : Barracks) (whichCamp : Text)
    (type level num : Int)
    (hq : ∀ x ∈ b.queue whichCamp, -32768 ≤ x.soldierNum ∧ x.soldierNum ≤ 32767) :
    (b.RefundsHalf sm now (soldierInfo type level num) whichCamp ↔
      b.AsksForThere sm (soldierInfo type level num) whichCamp) ∧
    (b.OnlyCosts sm now (soldierInfo type level num) whichCamp ↔
      b.CostsSomething sm (soldierInfo type level num)) :=
  ⟨refundsHalf_iff hq (short_range num), onlyCosts_iff⟩

def oneLeft : Barracks :=
  { campQueue := Function.update (fun _ => none) "a".toList (some { armysQueue := [⟨⟨1, 1, 1⟩, 0⟩] }) }

theorem fair_oneLeft :
    (oneLeft.RefundsHalf Muster.militia 0 (soldierInfo 1 1 1) "a".toList ↔
      oneLeft.AsksForThere Muster.militia (soldierInfo 1 1 1) "a".toList) ∧
    (oneLeft.OnlyCosts Muster.militia 0 (soldierInfo 1 1 1) "a".toList ↔
      oneLeft.CostsSomething Muster.militia (soldierInfo 1 1 1)) :=
  fair_iff Muster.militia 0 oneLeft "a".toList 1 1 1 (by decide)

/-- For three soldiers fifteen pieces of wood are given back, and one is taken. -/
theorem not_refundsHalf_three :
    ¬ ∀ (sm : SmallMap) (now : Int) (b : Barracks) (whichCamp : Text) (type level num : Int),
      (∀ x ∈ b.queue whichCamp, -32768 ≤ x.soldierNum ∧ x.soldierNum ≤ 32767) →
        b.RefundsHalf sm now (soldierInfo type level num) whichCamp ∧
          b.OnlyCosts sm now (soldierInfo type level num) whichCamp := by
  intro h
  obtain ⟨⟨t, ht, hhalf⟩, -⟩ := h Muster.militia 0 oneLeft "a".toList 1 1 3 (by decide)
  obtain rfl := Option.some.inj ht
  exact absurd (hhalf.half .wood (by decide)) (by decide)

end Barracks

end IceBridge.Army
