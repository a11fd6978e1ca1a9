import IceBridge.Army.Requests
import IceBridge.Lib.Run
import Mathlib.Algebra.GroupWithZero.Nat

/-! Whether soldiers are paid for. The number in a request is never looked at, so that a camp can
hold an entry of no soldiers, or of less; as long as the numbers are sound, all that is trained or
still to be trained has been paid and not been taken back. -/

namespace IceBridge.Army
open Text

def queued (queue : List Entry) (s : Soldier) : ℕ :=
  (queue.map fun x => if x.soldier = s then x.soldierNum.toNat else 0).sum

@[simp] theorem queued_nil (s : Soldier) : queued [] s = 0 := rfl

@[simp] theorem queued_cons (x : Entry) (queue : List Entry) (s : Soldier) :
    queued (x :: queue) s = (if x.soldier = s then x.soldierNum.toNat else 0) + queued queue s := by
  rw [queued, List.map_cons, List.sum_cons]
  rfl

@[simp] theorem queued_append (p r : List Entry) (s : Soldier) :
    queued (p ++ r) s = queued p s + queued r s := by
  rw [queued, List.map_append, List.sum_append]
  rfl

theorem queued_left_le {pre post : List Entry} {x : Entry} {left : Option Int}
    (hleft : ∀ n ∈ left, n ≤ x.soldierNum) {s : Soldier} :
    queued (pre ++ (left.map fun n => { x with soldierNum := n }).toList ++ post) s ≤
      queued (pre ++ x :: post) s := by
  cases left with
  | none =>
    simp only [Option.map_none, Option.toList_none, List.append_nil, queued_append, queued_cons]
    omega
  | some n =>
    have hn := hleft n rfl
    have hkind : ({ x with soldierNum := n } : Entry).soldier = x.soldier := rfl
    simp only [Option.map_some, Option.toList_some, queued_append, queued_cons, queued_nil, hkind]
    split_ifs <;> omega

theorem queued_changed {pre post : List Entry} {x : Entry} {n : Int} (hx : 0 ≤ x.soldierNum)
    (hn : 0 ≤ n) (s : Soldier) :
    (queued (pre ++ { x with soldierNum := n } :: post) s : Int) =
      queued (pre ++ x :: post) s + if x.soldier = s then n - x.soldierNum else 0 := by
  have hkind : ({ x with soldierNum := n } : Entry).soldier = x.soldier := rfl
  simp only [queued_append, queued_cons, hkind]
  split_ifs <;> push_cast
  · rw [Int.toNat_of_nonneg hx, Int.toNat_of_nonneg hn]
    omega
  · omega

theorem forall_mem_changed {P : Entry → Prop} {pre post : List Entry} {x x' : Entry}
    (h : ∀ y ∈ pre ++ x :: post, P y) (hx : P x') : ∀ y ∈ pre ++ x' :: post, P y := by
  intro y hy
  rcases List.mem_append.mp hy with hy | hy
  · exact h y (List.mem_append_left _ hy)
  · rcases List.mem_cons.mp hy with rfl | hy
    · exact hx
    · exact h y (List.mem_append_right _ (List.mem_cons_of_mem _ hy))

theorem queued_trained {x : Entry} {rest : List Entry} (hx : 1 ≤ x.soldierNum) (s : Soldier) :
    (queued (if x.soldierNum = 1 then rest
        else { x with soldierNum := x.soldierNum - 1 } :: rest) s : Int) =
      queued (x :: rest) s - if x.soldier = s then 1 else 0 := by
  by_cases hone : x.soldierNum = 1
  · rw [if_pos hone, queued_cons, hone]
    split_ifs <;> push_cast
    · have htoNat : (1 : Int).toNat = 1 := rfl
      omega
    · omega
  · rw [if_neg hone]
    have hchanged : (queued ([] ++ { x with soldierNum := x.soldierNum - 1 } :: rest) s : Int) =
        queued ([] ++ x :: rest) s + _ := queued_changed (by omega) (by omega) s
    rw [List.nil_append, List.nil_append] at hchanged
    rw [hchanged]
    split_ifs <;> omega

/-- A camp of a player with what has been booked of its soldiers: the orders that have been paid,
and the soldiers that requests to delete have taken out of its queue. -/
structure Muster where
  barracks : Barracks := {}
  paid : Soldier → Int := fun _ => 0
  cancelled : Soldier → ℕ := fun _ => 0

/-- The numbers are of any size in a message and 16 bits wide in the request. -/
def soldierInfo (type level num : Int) : SoldierInfo := ⟨short type, short level, short num⟩

inductive CampEvent
  | add (now type level num : Int)
  | del (now type level num : Int)
  | timeIsUp
  /-- Somebody else writes the records of the player. -/
  | others (popu curPopu : Option Int) (count : Int → Int) (places : List (Option Int))
      (asset : Balances) (combatUnionUid : Option Int)

namespace Muster

def add (sm : SmallMap) (whichCamp : Text) (m : Muster) (now : Int) (e : SoldierInfo) :
    Option Muster := do
  let (paid, _) ← (m.barracks.createCamp whichCamp).payFor sm e
  let b ← m.barracks.addSoldiers sm now e whichCamp
  some { m with
    barracks := b
    paid := if paid then Function.update m.paid e.soldier (m.paid e.soldier + e.soldierNum)
      else m.paid }

def del (sm : SmallMap) (whichCamp : Text) (m : Muster) (now : Int) (e : SoldierInfo) :
    Option Muster := do
  let b ← m.barracks.delSoliders sm now e whichCamp
  some { m with
    barracks := b
    cancelled := fun s => m.cancelled s +
      (queued (m.barracks.queue whichCamp) s - queued (b.queue whichCamp) s) }

def step (sm : SmallMap) (whichCamp : Text) (m : Muster) : CampEvent → Option Muster
  | .add now type level num => m.add sm whichCamp now (soldierInfo type level num)
  | .del now type level num => m.del sm whichCamp now (soldierInfo type level num)
  | .timeIsUp => some { m with barracks := m.barracks.timeIsUp sm whichCamp }
  | .others popu curPopu count places asset combatUnionUid =>
    some { m with barracks := { m.barracks with
      army := { m.barracks.army with popu, curPopu, count, places }, asset, combatUnionUid } }

/-- Every entry has soldiers, and of no kind more are trained than paid and not taken back. -/
structure Paid (whichCamp : Text) (m : Muster) : Prop where
  num : ∀ x ∈ m.barracks.queue whichCamp, 1 ≤ x.soldierNum
  inserted : ∀ s, (m.barracks.army.inserted.count s : Int) ≤ m.paid s - m.cancelled s

structure Stocked (whichCamp : Text) (m : Muster) : Prop where
  num : ∀ x ∈ m.barracks.queue whichCamp, 1 ≤ x.soldierNum ∧ x.soldierNum ≤ 32767
  booked : ∀ s, (m.barracks.army.inserted.count s : Int) +
    queued (m.barracks.queue whichCamp) s + m.cancelled s ≤ m.paid s

structure Start (whichCamp : Text) (m : Muster) : Prop where
  queue : m.barracks.queue whichCamp = []
  inserted : m.barracks.army.inserted = []
  paid : ∀ s, m.paid s = 0
  cancelled : ∀ s, m.cancelled s = 0

theorem Start.stocked {whichCamp : Text} {m : Muster} (h : m.Start whichCamp) :
    m.Stocked whichCamp := by
  constructor
  · rw [h.queue]
    exact fun x hx => absurd hx List.not_mem_nil
  · intro s
    rw [h.queue, h.inserted, h.paid, h.cancelled]
    exact le_refl _

theorem Stocked.paid {whichCamp : Text} {m : Muster} (h : m.Stocked whichCamp) :
    m.Paid whichCamp := by
  constructor
  · exact fun x hx => (h.num x hx).1
  · intro s
    have hs := h.booked s
    omega

/-- An order that is carried out leaves between 1 and 32767 soldiers in its entry, what it costs
is a number of 32 bits, and no negative number of soldiers is taken back. -/
def Counted (sm : SmallMap) (whichCamp : Text) (m : Muster) : CampEvent → Prop
  | .add _ type level num =>
    let e := soldierInfo type level num
    ∀ p, sm.price e.soldierType e.soldierLevel = some p →
      ∃ unlock, sm.soldierIsUnlock m.barracks.combatUnionUid e.soldierType e.soldierLevel =
          some unlock ∧
        (unlock = false → (∀ a, a ≠ Asset.diamond → FitsInt (p.cost e.soldierNum a)) ∧
          (p.cost e.soldierNum .wood ≤ m.barracks.asset .wood →
            let num := (((m.barracks.queue whichCamp).find? fun x => x.soldier = e.soldier).map
              fun x => x.soldierNum).getD 0 + e.soldierNum
            1 ≤ num ∧ num ≤ 32767))
  | .del _ type level num =>
    let e := soldierInfo type level num
    ∀ p, sm.price e.soldierType e.soldierLevel = some p → m.barracks.campQueue whichCamp ≠ none →
      (∀ a, a ≠ Asset.diamond → FitsInt (p.refund e.soldierNum a)) ∧
        (0 ≤ e.soldierNum ∨
          ((m.barracks.queue whichCamp).find? fun x => x.soldier = e.soldier) = none)
  | _ => True

section Steps
variable {sm : SmallMap} {whichCamp : Text} {m t : Muster} {now : Int} {e : SoldierInfo}

theorem Stocked.of_same (hm : m.Stocked whichCamp)
    (hqueue : t.barracks.queue whichCamp = m.barracks.queue whichCamp)
    (hinserted : t.barracks.army.inserted = m.barracks.army.inserted) (hpaid : t.paid = m.paid)
    (hcancelled : t.cancelled = m.cancelled) : t.Stocked whichCamp := by
  constructor
  · rw [hqueue]
    exact hm.num
  · intro s
    rw [hqueue, hinserted, hpaid, hcancelled]
    exact hm.booked s

theorem add_eq {paid : Bool} {b : Barracks}
    (hpay : (m.barracks.createCamp whichCamp).payFor sm e = some (paid, b)) :
    m.add sm whichCamp now e = some { m with
      barracks := if paid then b.enqueue sm now e whichCamp else b
      paid := if paid then Function.update m.paid e.soldier (m.paid e.soldier + e.soldierNum)
        else m.paid } := by
  rw [add, hpay, Barracks.addSoldiers_of_pay now hpay]
  rfl

theorem stocked_add_refused (hm : m.Stocked whichCamp)
    (hpay : (m.barracks.createCamp whichCamp).payFor sm e =
      some (false, m.barracks.createCamp whichCamp)) :
    ∃ t, m.add sm whichCamp now e = some t ∧ t.Stocked whichCamp := by
  refine ⟨_, add_eq hpay, hm.of_same Barracks.createCamp_queue ?_ rfl rfl⟩
  exact congrArg BuildedArmy.inserted (Barracks.sameRecords_createCamp _ _).army

theorem stocked_add_paid {b : Barracks} (hm : m.Stocked whichCamp)
    (hpay : (m.barracks.createCamp whichCamp).payFor sm e = some (true, b))
    (hcamp : (b.campQueue whichCamp).isSome)
    (hqueue : b.queue whichCamp = m.barracks.queue whichCamp) (harmy : b.army = m.barracks.army)
    (hnum : 1 ≤ (((b.queue whichCamp).find? fun x => x.soldier = e.soldier).map
        fun x => x.soldierNum).getD 0 + e.soldierNum)
    (hmax : (((b.queue whichCamp).find? fun x => x.soldier = e.soldier).map
        fun x => x.soldierNum).getD 0 + e.soldierNum ≤ 32767) :
    ∃ t, m.add sm whichCamp now e = some t ∧ t.Stocked whichCamp := by
  refine ⟨_, add_eq hpay, ?_⟩
  obtain ⟨hsame, hcases⟩ := Barracks.enqueue_cases sm now e hcamp
  have hinserted : (b.enqueue sm now e whichCamp).army.inserted = m.barracks.army.inserted := by
    rw [hsame.army, harmy]
  rcases hcases with ⟨pre, x, post, hsplit, hx, hfind, hnew⟩ | ⟨hfind, serial, hnew⟩
  · -- the order is added to the entry `x`
    rw [hfind] at hnum hmax
    dsimp only [Option.map_some, Option.getD_some] at hnum hmax
    rw [short_of_mem (by omega) hmax] at hnew
    have hold : ∀ y ∈ pre ++ x :: post, 1 ≤ y.soldierNum ∧ y.soldierNum ≤ 32767 :=
      fun y hy => hm.num y (hqueue ▸ hsplit ▸ hy)
    have hxnum := (hold x (by simp)).1
    constructor
    · rw [if_pos rfl, hnew]
      exact forall_mem_changed hold ⟨hnum, hmax⟩
    · intro s
      have hs := hm.booked s
      rw [← hqueue, hsplit] at hs
      simp only [if_true, hnew, hinserted]
      rw [queued_changed (by omega) (by omega), hx]
      by_cases hes : s = e.soldier
      · subst hes
        rw [if_pos rfl, Function.update_self]
        omega
      · rw [if_neg (Ne.symm hes), Function.update_of_ne hes]
        omega
  · rw [hfind] at hnum hmax
    dsimp only [Option.map_none, Option.getD_none] at hnum hmax
    constructor
    · intro y hy
      rw [if_pos rfl, hnew] at hy
      rcases List.mem_append.mp hy with hy | hy
      · exact hm.num y (hqueue ▸ hy)
      · obtain rfl := List.mem_singleton.mp hy
        exact ⟨show 1 ≤ e.soldierNum by omega, show e.soldierNum ≤ 32767 by omega⟩
    · intro s
      have hs := hm.booked s
      rw [← hqueue] at hs
      simp only [if_true, hnew, hinserted, queued_append, queued_cons, queued_nil]
      have hkind : ({ e with serial } : Entry).soldier = e.soldier := rfl
      rw [hkind]
      by_cases hes : s = e.soldier
      · subst hes
        rw [if_pos rfl, Function.update_self]
        push_cast
        rw [Int.toNat_of_nonneg (by omega)]
        omega
      · rw [if_neg (Ne.symm hes), Function.update_of_ne hes]
        exact hs

theorem stocked_add (hm : m.Stocked whichCamp) {type level num : Int}
    (hC : m.Counted sm whichCamp (.add now type level num)) :
    ∃ t, m.add sm whichCamp now (soldierInfo type level num) = some t ∧ t.Stocked whichCamp := by
  set e := soldierInfo type level num
  have hsame := Barracks.sameRecords_createCamp m.barracks whichCamp
  cases hp : sm.price e.soldierType e.soldierLevel with
  | none => exact stocked_add_refused hm (Barracks.payFor_of_none hp)
  | some p =>
    obtain ⟨unlock, hunlock, hnum⟩ := hC p hp
    rw [← hsame.combatUnionUid] at hunlock
    cases unlock with
    | true => exact stocked_add_refused hm (Barracks.payFor_of_unlock hp hunlock)
    | false =>
      obtain ⟨hfits, hnum⟩ := hnum rfl
      have hpay := Barracks.payFor_of_price hp hunlock hfits
      rw [hsame.asset] at hpay
      by_cases hwood : m.barracks.asset .wood < p.cost e.soldierNum .wood
      · rw [if_pos hwood] at hpay
        exact stocked_add_refused hm hpay
      · rw [if_neg hwood] at hpay
        obtain ⟨hmin, hmax⟩ := hnum (not_lt.mp hwood)
        have hqueue : Barracks.queue { m.barracks.createCamp whichCamp with
            asset := Balances.less m.barracks.asset (p.cost e.soldierNum) } whichCamp =
              m.barracks.queue whichCamp := Barracks.createCamp_queue
        refine stocked_add_paid hm hpay Barracks.createCamp_isSome hqueue hsame.army ?_ ?_
        · rw [hqueue]
          exact hmin
        · rw [hqueue]
          exact hmax

theorem del_of_some {b : Barracks} (hdel : m.barracks.delSoliders sm now e whichCamp = some b) :
    m.del sm whichCamp now e = some { m with
      barracks := b
      cancelled := fun s => m.cancelled s +
        (queued (m.barracks.queue whichCamp) s - queued (b.queue whichCamp) s) } := by
  rw [del, hdel]
  rfl

theorem stocked_del_same (hm : m.Stocked whichCamp)
    (hdel : m.barracks.delSoliders sm now e whichCamp = some m.barracks) :
    ∃ t, m.del sm whichCamp now e = some t ∧ t.Stocked whichCamp := by
  refine ⟨_, del_of_some hdel, hm.of_same rfl rfl rfl ?_⟩
  funext s
  exact (congrArg (m.cancelled s + ·) (Nat.sub_self _)).trans (Nat.add_zero _)

theorem Stocked.del {b : Barracks} (hm : m.Stocked whichCamp)
    (hinserted : b.army.inserted = m.barracks.army.inserted)
    (hnum : ∀ x ∈ b.queue whichCamp, 1 ≤ x.soldierNum ∧ x.soldierNum ≤ 32767)
    (hless : ∀ s, queued (b.queue whichCamp) s ≤ queued (m.barracks.queue whichCamp) s) :
    Stocked whichCamp { m with
      barracks := b
      cancelled := fun s => m.cancelled s +
        (queued (m.barracks.queue whichCamp) s - queued (b.queue whichCamp) s) } := by
  constructor
  · exact hnum
  · intro s
    have hs := hm.booked s
    have hle := hless s
    simp only [hinserted]
    omega

theorem stocked_del (hm : m.Stocked whichCamp) {type level num : Int}
    (hC : m.Counted sm whichCamp (.del now type level num)) :
    ∃ t, m.del sm whichCamp now (soldierInfo type level num) = some t ∧ t.Stocked whichCamp := by
  have hmax : (soldierInfo type level num).soldierNum ≤ 32767 := (short_range num).2
  set e := soldierInfo type level num
  cases hp : sm.price e.soldierType e.soldierLevel with
  | none => exact stocked_del_same hm (Barracks.delSoliders_of_none (.inl hp))
  | some p =>
    cases hq : m.barracks.campQueue whichCamp with
    | none => exact stocked_del_same hm (Barracks.delSoliders_of_none (.inr hq))
    | some q =>
      obtain ⟨hfits, hnonneg⟩ := hC p hp (by rw [hq]; exact Option.some_ne_none q)
      have hdel := Barracks.delSoliders_of_fits now hp hq hfits
      have hqueue := Barracks.queue_of_some hq
      rcases m.barracks.dequeue_cases sm now e whichCamp q
        with ⟨hnone, -⟩ | ⟨b, pre, x, post, left, hsome, hsame, hsplit, hx, hfind, hcut, hnew⟩
      · -- no entry of the kind: nothing is taken back
        rw [hnone] at hdel
        exact stocked_del_same hm hdel
      · rw [hsome] at hdel
        refine ⟨_, del_of_some hdel, ?_⟩
        rw [← hqueue] at hsplit hfind
        have hmem : ∀ y ∈ pre ++ x :: post, 1 ≤ y.soldierNum ∧ y.soldierNum ≤ 32767 :=
          fun y hy => hm.num y (hsplit ▸ hy)
        have hxnum := hmem x (by simp)
        have hnum : 0 ≤ e.soldierNum := by
          rcases hnonneg with hnonneg | hnone
          · exact hnonneg
          · exact absurd (hfind.symm.trans hnone) (Option.some_ne_none x)
        have hleft := Barracks.cut_of_sound hcut hxnum ⟨hnum, hmax⟩
        have hnew : (b.addResource (p.refund e.soldierNum)).queue whichCamp = _ := hnew
        -- the other entries stay, and of `x` no more is left than there was
        refine hm.del (congrArg BuildedArmy.inserted hsame.army) ?_ ?_
        · intro y hy
          rw [Option.map_some, Option.getD_some, hnew] at hy
          rcases List.mem_append.mp hy with hy | hy
          · rcases List.mem_append.mp hy with hy | hy
            · exact hmem y (by simp [hy])
            · rw [hleft] at hy
              split_ifs at hy with hle
              · exact absurd hy (by simp)
              · obtain rfl : y = { x with soldierNum := x.soldierNum - e.soldierNum } := by
                  simpa using hy
                exact ⟨show 1 ≤ x.soldierNum - e.soldierNum by omega,
                  show x.soldierNum - e.soldierNum ≤ 32767 by omega⟩
          · exact hmem y (by simp [hy])
        · intro s
          rw [Option.map_some, Option.getD_some, hnew, hsplit]
          refine queued_left_le fun n hn => ?_
          rw [hleft] at hn
          split_ifs at hn with hle
          · exact absurd hn (by simp)
          · obtain rfl := Option.some.inj hn
            omega

theorem stocked_timeIsUp (hm : m.Stocked whichCamp) :
    Stocked whichCamp { m with barracks := m.barracks.timeIsUp sm whichCamp } := by
  rcases m.barracks.timeIsUp_cases sm whichCamp with
    hsame | ⟨x, rest, hqueue, hins, hnew⟩ | ⟨hins, hnew⟩
  · rw [hsame]
    exact hm
  · have hold : ∀ y ∈ x :: rest, 1 ≤ y.soldierNum ∧ y.soldierNum ≤ 32767 :=
      fun y hy => hm.num y (hqueue ▸ hy)
    have hnum := hold x List.mem_cons_self
    rw [short_of_mem (by omega) (by omega)] at hnew
    constructor
    · rw [hnew]
      split_ifs with hone
      · exact fun y hy => hold y (List.mem_cons_of_mem x hy)
      · -- more than one soldier was left
        have hnil : ∀ y ∈ [] ++ x :: rest, 1 ≤ y.soldierNum ∧ y.soldierNum ≤ 32767 := hold
        exact forall_mem_changed hnil ⟨show 1 ≤ x.soldierNum - 1 by omega,
          show x.soldierNum - 1 ≤ 32767 by omega⟩
    · intro s
      have hs := hm.booked s
      rw [hqueue] at hs
      dsimp only
      rw [hins, hnew, List.count_append, List.count_singleton, queued_trained hnum.1]
      by_cases hxs : x.soldier = s
      · simp only [hxs, beq_self_eq_true, if_true]
        push_cast
        omega
      · have hbeq : (x.soldier == s) = false := by simpa using hxs
        simp only [hxs, hbeq, Bool.false_eq_true, if_false]
        push_cast
        omega
  · exact hm.of_same hnew hins rfl rfl

end Steps

theorem stocked_step {sm : SmallMap} {whichCamp : Text} {m : Muster} {e : CampEvent}
    (hm : m.Stocked whichCamp) (hC : m.Counted sm whichCamp e) :
    ∃ t, step sm whichCamp m e = some t ∧ t.Stocked whichCamp := by
  cases e with
  | add now type level num => exact stocked_add hm hC
  | del now type level num => exact stocked_del hm hC
  | timeIsUp => exact ⟨_, rfl, stocked_timeIsUp hm⟩
  | others popu curPopu count places asset combatUnionUid =>
    exact ⟨_, rfl, hm.of_same rfl rfl rfl rfl⟩

/-- While the numbers are sound, no step of the run is undefined, every entry of the queue has
soldiers, and no more of a kind are in the army than have been paid and not been taken back. -/
theorem paid_run {sm : SmallMap} {whichCamp : Text} {m : Muster} (hm : m.Start whichCamp)
    (es : List CampEvent) (hC : Run.EachEvent (step sm whichCamp) (Counted sm whichCamp) m es) :
    (Run.exec (step sm whichCamp) m es).isSome = true ∧
      Run.Always (step sm whichCamp) (Paid whichCamp) m es := by
  obtain ⟨hexec, hall⟩ := Run.always_of_eachEvent (fun _ _ => stocked_step) hm.stocked hC
  exact ⟨hexec, hall.mono fun _ => Stocked.paid⟩

def militia : SmallMap :=
  { table := [[], [⟨⟨0, 0⟩, fun _ => 0⟩, ⟨⟨1, 60⟩, fun a => if a = .wood then 10 else 0⟩]] }

def recruit : Muster := { barracks := { asset := fun a => if a = .wood then 100 else 0 } }

theorem start_recruit : recruit.Start "a".toList := ⟨rfl, rfl, fun _ => rfl, fun _ => rfl⟩

theorem paid_run_recruit :
    (Run.exec (step militia "a".toList) recruit
        [.add 0 1 1 3, .timeIsUp, .del 70 1 1 1]).isSome = true ∧
      Run.Always (step militia "a".toList) (Paid "a".toList) recruit
        [.add 0 1 1 3, .timeIsUp, .del 70 1 1 1] := by
  refine paid_run start_recruit _ ⟨?_, fun t ht => ⟨trivial, fun u hu => ⟨?_, fun _ _ => trivial⟩⟩⟩
  · rintro p hp
    obtain rfl := Option.some.inj hp
    exact ⟨false, rfl, fun _ => ⟨by decide, fun _ => by decide⟩⟩
  · rintro p hp -
    obtain rfl := Option.some.inj hp
    exact ⟨by decide, .inl (by decide)⟩

/-- An order of minus one soldier is paid with ten pieces of wood to the player, and stays in the
queue. -/
theorem not_paid_negative :
    ¬ ∀ (sm : SmallMap) (whichCamp : Text) (m : Muster), m.Start whichCamp →
      ∀ es : List CampEvent, (Run.exec (step sm whichCamp) m es).isSome = true ∧
        Run.Always (step sm whichCamp) (Paid whichCamp) m es := by
  intro h
  obtain ⟨-, -, hall⟩ := h militia "a".toList recruit start_recruit [.add 0 1 1 (-1)]
  have hpaid := (hall _ rfl).start
  exact absurd (hpaid.num ⟨⟨1, 1, -1⟩, 0⟩ (by decide)) (by decide)

end Muster

end IceBridge.Army
