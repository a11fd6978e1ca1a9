import IceBridge.Army.CampQueue
import IceBridge.Store.Balances

/-! What a player asks of his camps while he is online: soldiers are ordered, taken back and
completed at once, and the timers of the camps run. The handler of a timer knows the camp it
is for by name only. -/

namespace IceBridge.Army
open Text

structure ArmsPrice extends ArmsResponse where
  need : Balances

structure SmallMap where
  table : List (List ArmsPrice)
  combatUnionLimit : List (List Int) := []

namespace SmallMap

def arms (sm : SmallMap) : Arms := sm.table.map fun levels => levels.map ArmsPrice.toArmsResponse

/-- A negative type or level is converted to an unsigned number that is too large. -/
def price (sm : SmallMap) (type level : Int) : Option ArmsPrice :=
  if type < 0 ∨ level < 0 then none
  else (sm.table[type.toNat]?).bind fun levels => levels[level.toNat]?

def soldierIsUnlock (sm : SmallMap) (combatUnionUid : Option Int) (type level : Int) :
    Option Bool :=
  match combatUnionUid with
  | none => some false
  | some id =>
    if 6 ≤ id then some false
    else if id < 0 ∨ type < 0 then none
    else ((sm.combatUnionLimit[id.toNat]?).bind fun limits => limits[type.toNat]?).map fun limit =>
      decide (level ≤ limit)

end SmallMap

def FitsInt (n : Int) : Prop := -2147483648 ≤ n ∧ n ≤ 2147483647

instance (n : Int) : Decidable (FitsInt n) := inferInstanceAs (Decidable (_ ∧ _))

namespace ArmsPrice

def cost (p : ArmsPrice) (soldierNum : Int) : Balances := fun a => p.need a * soldierNum

def refund (p : ArmsPrice) (soldierNum : Int) : Balances := fun a =>
  (p.need a).tdiv 2 * soldierNum

end ArmsPrice

def ints (amount : Balances) : Option Balances :=
  if ∀ a, a ≠ Asset.diamond → FitsInt (amount a) then some amount else none

/-! ## The camps -/

/-- An element of `armys_queue`, told apart from the other ones of its camp by the place it had
among all that have been pushed. -/
structure Entry extends SoldierInfo where
  serial : ℕ
  deriving DecidableEq

/-- A `TimerQueue`. The time `since` is no variable of the source: the training of the soldier at
the front counts from it. -/
structure Camp where
  armysQueue : List Entry := []
  isBlock : Bool := false
  beginBuildTime : Option Int := none
  expiresAt : Option Int := none
  since : Option Int := none
  pushed : ℕ := 0
  deriving DecidableEq

namespace Camp

def pushBack (q : Camp) (e : SoldierInfo) : Camp :=
  { q with armysQueue := q.armysQueue ++ [{ e with serial := q.pushed }], pushed := q.pushed + 1 }

def indexOf (q : Camp) (s : Soldier) : Option ℕ := q.armysQueue.findIdx? fun e => e.soldier = s

def setNum (q : Camp) (i : ℕ) (num : Int) : Camp :=
  { q with armysQueue := q.armysQueue.modify i fun e => { e with soldierNum := num } }

def erase (q : Camp) (i : ℕ) : Camp := { q with armysQueue := q.armysQueue.eraseIdx i }

end Camp

/-- A wait whose timer is cancelled before it expires is handled too, with an error. -/
inductive WaitStatus
  | pending
  | expired
  | cancelled
  deriving DecidableEq

/-- A handler that the `io_service` has not run yet, with the entry that was at the front when
the wait began. The handler itself has the name of the camp only. -/
structure Wait where
  whichCamp : Text
  serial : ℕ
  expiry : Option Int
  status : WaitStatus := .pending
  deriving DecidableEq

structure Barracks where
  campQueue : Text → Option Camp := fun _ => none
  waits : List Wait := []
  army : BuildedArmy := {}
  asset : Balances := fun _ => 0
  combatUnionUid : Option Int := none

namespace Barracks

def setCamp (b : Barracks) (whichCamp : Text) (q : Camp) : Barracks :=
  { b with campQueue := Function.update b.campQueue whichCamp (some q) }

/-- `deadline_timer::cancel`: a wait that has expired is not cancelled any more. -/
def cancel (b : Barracks) (whichCamp : Text) : Barracks :=
  { b with waits := b.waits.map fun w =>
      if w.whichCamp = whichCamp ∧ w.status = .pending then { w with status := .cancelled } else w }

def cancelTimer (b : Barracks) (whichCamp : Text) : Barracks :=
  match b.campQueue whichCamp with
  | none => b
  | some q => if q.armysQueue = [] then b else b.cancel whichCamp

def registerTime (sm : SmallMap) (b : Barracks) (whichCamp : Text) (beginBuildTime : Option Int)
    (secs : Int) : Barracks :=
  match b.campQueue whichCamp with
  | none => b
  | some q =>
    match q.armysQueue with
    | [] => b
    | sir :: _ =>
      let beginBuildTime := beginBuildTime.or q.expiresAt
      let wait := if secs = 0 then sm.arms.buildTime sir.soldierType sir.soldierLevel else secs
      let expiry := beginBuildTime.map (· + wait)
      let since := if secs = 0 then beginBuildTime else q.since
      let b := (b.cancel whichCamp).setCamp whichCamp
        { q with beginBuildTime := beginBuildTime, expiresAt := expiry, since := since }
      { b with waits := b.waits ++ [{ whichCamp, serial := sir.serial, expiry }] }

def timeIsUp (sm : SmallMap) (b : Barracks) (whichCamp : Text) : Barracks :=
  match b.campQueue whichCamp with
  | none => b
  | some q =>
    match q.armysQueue with
    | [] => b
    | sir :: _ =>
      match b.army.insertToBuildedArmyQueue sm.arms sir.soldierType sir.soldierLevel with
      | (true, army) =>
        let q := if sir.soldierNum = 1 then q.erase 0 else q.setNum 0 (short (sir.soldierNum - 1))
        let b := { b with army }.setCamp whichCamp { q with isBlock := false }
        if q.armysQueue = [] then b else b.registerTime sm whichCamp none 0
      | (false, army) =>
        ({ b with army }.setCamp whichCamp { q with isBlock := true }).registerTime sm whichCamp
          none 30

def createCamp (b : Barracks) (whichCamp : Text) : Barracks :=
  match b.campQueue whichCamp with
  | none => b.setCamp whichCamp {}
  | some _ => b

def enqueue (sm : SmallMap) (now : Int) (b : Barracks) (e : SoldierInfo) (whichCamp : Text) :
    Barracks :=
  match b.campQueue whichCamp with
  | none => b
  | some q =>
    match q.indexOf e.soldier with
    | some i =>
      let num := ((q.armysQueue[i]?).map fun e => e.soldierNum).getD 0
      b.setCamp whichCamp (q.setNum i (short (num + e.soldierNum)))
    | none =>
      let b := b.setCamp whichCamp (q.pushBack e)
      if q.armysQueue = [] then b.registerTime sm whichCamp (some now) 0 else b

def payFor (sm : SmallMap) (b : Barracks) (e : SoldierInfo) : Option (Bool × Barracks) :=
  match sm.price e.soldierType e.soldierLevel with
  | none => some (false, b)
  | some p => do
    let unlock ← sm.soldierIsUnlock b.combatUnionUid e.soldierType e.soldierLevel
    if unlock then some (false, b)
    else
      let cost ← ints (p.cost e.soldierNum)
      let (paid, asset, _) := Balances.subResource cost b.asset
      some (paid, { b with asset })

def addSoldiers (sm : SmallMap) (now : Int) (b : Barracks) (e : SoldierInfo) (whichCamp : Text) :
    Option Barracks :=
  ((b.createCamp whichCamp).payFor sm e).map fun (paid, b) =>
    if paid then b.enqueue sm now e whichCamp else b

def addResource (b : Barracks) (amount : Balances) : Barracks :=
  { b with asset := (Balances.manPlayerResources 1 amount b.asset).2 }

/-- What `delSoliders` does to the queue, if it finds the soldiers: the two branches treat the
entry at the front and the others. -/
def dequeue (sm : SmallMap) (now : Int) (b : Barracks) (e : SoldierInfo) (whichCamp : Text)
    (q : Camp) : Option Barracks :=
  match q.armysQueue with
  | [] => none
  | sir :: rest =>
    if sir.soldier = e.soldier then
      if sir.soldierNum - e.soldierNum ≤ 0 then
        some (((b.cancelTimer whichCamp).setCamp whichCamp (q.erase 0)).registerTime sm whichCamp
          (some now) 0)
      else some (b.setCamp whichCamp (q.setNum 0 (short (sir.soldierNum - e.soldierNum))))
    else if rest = [] then none
    else (q.indexOf e.soldier).map fun i =>
      let num := ((q.armysQueue[i]?).map fun e => e.soldierNum).getD 0
      let left := short (num - e.soldierNum)
      b.setCamp whichCamp (if left ≤ 0 then q.erase i else q.setNum i left)

def delSoliders (sm : SmallMap) (now : Int) (b : Barracks) (e : SoldierInfo) (whichCamp : Text) :
    Option Barracks :=
  match sm.price e.soldierType e.soldierLevel, b.campQueue whichCamp with
  | some p, some q => do
    let refund ← ints (p.refund e.soldierNum)
    match b.dequeue sm now e whichCamp q with
    | none => some b
    | some b => some (b.addResource refund)
  | _, _ => some b

def insertAll (arms : Arms) (type level : Int) : ℕ → BuildedArmy → BuildedArmy
  | 0, army => army
  | n + 1, army =>
    match army.insertToBuildedArmyQueue arms type level with
    | (true, army) => insertAll arms type level n army
    | (false, army) => army

def diamondToSub (buildTotalSecond seconds : Int) : Int :=
  (buildTotalSecond - seconds).tdiv (60 * 5) + 1

/-- The diamonds for what is left to do in a camp, as the unsigned number that `subDiamond` makes
of them; the method `seconds` of a duration leaves the minutes out. -/
def completeCost (sm : SmallMap) (now : Int) (q : Camp) : Int :=
  let buildTotalSecond := (q.armysQueue.map fun e =>
    e.soldierNum * sm.arms.buildTime e.soldierType e.soldierLevel).sum
  diamondToSub buildTotalSecond (((q.beginBuildTime.map (now - ·)).getD 0).tmod 60) % 4294967296

def completeAtOnce (sm : SmallMap) (now : Int) (b : Barracks) (whichCamp : Text) : Barracks :=
  match b.campQueue whichCamp with
  | none => b
  | some q =>
    match Balances.subDiamond (completeCost sm now q) b.asset with
    | (false, asset) => { b with asset }
    | (true, asset) =>
      let army := q.armysQueue.foldl (fun army e =>
        insertAll sm.arms e.soldierType e.soldierLevel e.soldierNum.toNat army) b.army
      ({ b with asset, army }.cancelTimer whichCamp).setCamp whichCamp
        { q with armysQueue := [], beginBuildTime := some now, isBlock := false }

/-! ## What the requests do to the queue of a camp -/

end Barracks

theorem findIdx?_split {α : Type*} (p : α → Bool) (l : List α) :
    (l.findIdx? p = none ∧ ∀ x ∈ l, p x = false) ∨
      ∃ pre x post, l = pre ++ x :: post ∧ l.findIdx? p = some pre.length ∧ p x = true ∧
        ∀ y ∈ pre, p y = false := by
  induction l with
  | nil => exact .inl ⟨rfl, by simp⟩
  | cons a l ih =>
    cases ha : p a with
    | true => exact .inr ⟨[], a, l, rfl, by simp [List.findIdx?_cons, ha], ha, by simp⟩
    | false =>
      rcases ih with ⟨hnone, hall⟩ | ⟨pre, x, post, rfl, hidx, hx, hpre⟩
      · refine .inl ⟨by simp [List.findIdx?_cons, ha, hnone], ?_⟩
        intro x hx
        rcases List.mem_cons.mp hx with rfl | hx
        · exact ha
        · exact hall x hx
      · refine .inr ⟨a :: pre, x, post, rfl, by simp [List.findIdx?_cons, ha, hidx], hx, ?_⟩
        intro y hy
        rcases List.mem_cons.mp hy with rfl | hy
        · exact ha
        · exact hpre y hy

theorem find?_eq_none_of_split {α : Type*} {p : α → Bool} {l : List α}
    (h : ∀ x ∈ l, p x = false) : l.find? p = none := by
  rw [List.find?_eq_none]
  intro x hx
  rw [h x hx]
  exact Bool.false_ne_true

namespace Camp
variable {q : Camp} {pre post : List Entry} {x : Entry} {s : Soldier}

theorem indexOf_split (q : Camp) (s : Soldier) :
    (q.indexOf s = none ∧ q.armysQueue.find? (fun x => x.soldier = s) = none) ∨
      ∃ pre x post, q.armysQueue = pre ++ x :: post ∧ q.indexOf s = some pre.length ∧
        x.soldier = s ∧ q.armysQueue.find? (fun x => x.soldier = s) = some x := by
  rcases findIdx?_split (fun x : Entry => decide (x.soldier = s)) q.armysQueue with
    ⟨hnone, hall⟩ | ⟨pre, x, post, hq, hidx, hx, hpre⟩
  · exact .inl ⟨hnone, find?_eq_none_of_split hall⟩
  · refine .inr ⟨pre, x, post, hq, hidx, of_decide_eq_true hx, ?_⟩
    rw [hq, List.find?_append, find?_eq_none_of_split hpre, Option.none_or, List.find?_cons, hx]

theorem setNum_split (hq : q.armysQueue = pre ++ x :: post) (num : Int) :
    (q.setNum pre.length num).armysQueue = pre ++ { x with soldierNum := num } :: post := by
  rw [setNum, hq]
  induction pre generalizing q with
  | nil => rfl
  | cons y pre ih => exact congrArg (y :: ·) (ih (q := { q with armysQueue := _ }) rfl)

theorem setNum_head {rest : List Entry} (hq : q.armysQueue = x :: rest) (num : Int) :
    (q.setNum 0 num).armysQueue = { x with soldierNum := num } :: rest := by
  rw [setNum, hq]
  rfl

theorem erase_split (hq : q.armysQueue = pre ++ x :: post) :
    (q.erase pre.length).armysQueue = pre ++ post := by
  rw [erase, hq]
  simp [List.eraseIdx_append_of_length_le]

theorem getElem?_split (hq : q.armysQueue = pre ++ x :: post) :
    q.armysQueue[pre.length]? = some x := by
  rw [hq, List.getElem?_append_right (le_refl _)]
  simp

end Camp

namespace Barracks
variable {sm : SmallMap} {b t : Barracks} {whichCamp c : Text} {now : Int} {e : SoldierInfo} {q : Camp}

def queue (b : Barracks) (whichCamp : Text) : List Entry :=
  ((b.campQueue whichCamp).map Camp.armysQueue).getD []

theorem queue_of_some (hq : b.campQueue whichCamp = some q) : b.queue whichCamp = q.armysQueue := by
  rw [queue, hq]
  rfl

@[simp] theorem setCamp_campQueue (q : Camp) : (b.setCamp whichCamp q).campQueue c =
    if c = whichCamp then some q else b.campQueue c :=
  Function.update_apply _ _ _ _

@[simp] theorem setCamp_queue (q : Camp) : (b.setCamp whichCamp q).queue c =
    if c = whichCamp then q.armysQueue else b.queue c := by
  unfold queue
  rw [setCamp_campQueue]
  split_ifs <;> rfl

@[simp] theorem cancel_campQueue : (b.cancel whichCamp).campQueue = b.campQueue := rfl

@[simp] theorem cancelTimer_campQueue : (b.cancelTimer whichCamp).campQueue = b.campQueue := by
  unfold cancelTimer
  cases b.campQueue whichCamp with
  | none => rfl
  | some q =>
    dsimp only
    split_ifs <;> rfl

theorem registerTime_queue (beginBuildTime : Option Int) (secs : Int) :
    (b.registerTime sm whichCamp beginBuildTime secs).queue c = b.queue c := by
  unfold registerTime
  cases hq : b.campQueue whichCamp with
  | none => rfl
  | some q =>
    dsimp only
    split
    · rfl
    · change ((b.cancel whichCamp).setCamp whichCamp _).queue c = _
      rw [setCamp_queue]
      by_cases hc : c = whichCamp
      · rw [if_pos hc, hc, queue_of_some hq]
      · rw [if_neg hc]
        rfl

structure SameRecords (b t : Barracks) : Prop where
  army : t.army = b.army
  asset : t.asset = b.asset
  combatUnionUid : t.combatUnionUid = b.combatUnionUid

theorem SameRecords.trans {u : Barracks} (h : SameRecords b t) (h' : SameRecords t u) :
    SameRecords b u :=
  ⟨h'.army.trans h.army, h'.asset.trans h.asset, h'.combatUnionUid.trans h.combatUnionUid⟩

theorem sameRecords_setCamp (q : Camp) : SameRecords b (b.setCamp whichCamp q) := ⟨rfl, rfl, rfl⟩

theorem sameRecords_cancelTimer : SameRecords b (b.cancelTimer whichCamp) := by
  unfold cancelTimer
  cases b.campQueue whichCamp with
  | none => exact ⟨rfl, rfl, rfl⟩
  | some q =>
    dsimp only
    split_ifs <;> exact ⟨rfl, rfl, rfl⟩

theorem sameRecords_registerTime (beginBuildTime : Option Int) (secs : Int) :
    SameRecords b (b.registerTime sm whichCamp beginBuildTime secs) := by
  unfold registerTime
  cases b.campQueue whichCamp with
  | none => exact ⟨rfl, rfl, rfl⟩
  | some q =>
    dsimp only
    split <;> exact ⟨rfl, rfl, rfl⟩

theorem sameRecords_createCamp (b : Barracks) (whichCamp : Text) :
    SameRecords b (b.createCamp whichCamp) := by
  unfold createCamp
  cases b.campQueue whichCamp <;> exact ⟨rfl, rfl, rfl⟩

theorem createCamp_queue : (b.createCamp whichCamp).queue c = b.queue c := by
  unfold createCamp
  cases hq : b.campQueue whichCamp with
  | some q => rfl
  | none =>
    change (b.setCamp whichCamp {}).queue c = _
    rw [setCamp_queue]
    split_ifs with hc
    · rw [hc, queue, hq]
      rfl
    · rfl

theorem createCamp_isSome : ((b.createCamp whichCamp).campQueue whichCamp).isSome := by
  unfold createCamp
  cases hq : b.campQueue whichCamp with
  | some q => simp [hq]
  | none => simp

theorem ints_of_fits {amount : Balances} (h : ∀ a, a ≠ Asset.diamond → FitsInt (amount a)) :
    ints amount = some amount := if_pos h

theorem payFor_of_none (hp : sm.price e.soldierType e.soldierLevel = none) :
    b.payFor sm e = some (false, b) := by
  rw [payFor, hp]

theorem payFor_of_unlock {p : ArmsPrice} (hp : sm.price e.soldierType e.soldierLevel = some p)
    (hunlock : sm.soldierIsUnlock b.combatUnionUid e.soldierType e.soldierLevel = some true) :
    b.payFor sm e = some (false, b) := by
  rw [payFor, hp]
  simp [hunlock]

/-- Only the wood decides whether an order is paid. -/
theorem payFor_of_price {p : ArmsPrice} (hp : sm.price e.soldierType e.soldierLevel = some p)
    (hunlock : sm.soldierIsUnlock b.combatUnionUid e.soldierType e.soldierLevel = some false)
    (hfits : ∀ a, a ≠ Asset.diamond → FitsInt (p.cost e.soldierNum a)) :
    b.payFor sm e =
      if b.asset .wood < p.cost e.soldierNum .wood then some (false, b)
      else some (true, { b with asset := Balances.less b.asset (p.cost e.soldierNum) }) := by
  rw [payFor, hp]
  simp only [hunlock, Option.bind_eq_bind, Option.bind_some, Bool.false_eq_true, if_false,
    ints_of_fits hfits, Balances.subResource, Balances.manPlayerResources,
    Balances.manUserResource_two]
  split_ifs <;> rfl

theorem addSoldiers_of_pay (now : Int) {paid : Bool} {t : Barracks}
    (hpay : (b.createCamp whichCamp).payFor sm e = some (paid, t)) :
    b.addSoldiers sm now e whichCamp = some (if paid then t.enqueue sm now e whichCamp else t) := by
  rw [addSoldiers, hpay]
  rfl

theorem enqueue_cases (sm : SmallMap) (now : Int) (e : SoldierInfo)
    (hcamp : (b.campQueue whichCamp).isSome) :
    SameRecords b (b.enqueue sm now e whichCamp) ∧
    ((∃ pre x post, b.queue whichCamp = pre ++ x :: post ∧ x.soldier = e.soldier ∧
        (b.queue whichCamp).find? (fun x => x.soldier = e.soldier) = some x ∧
        (b.enqueue sm now e whichCamp).queue whichCamp =
          pre ++ { x with soldierNum := short (x.soldierNum + e.soldierNum) } :: post) ∨
      ((b.queue whichCamp).find? (fun x => x.soldier = e.soldier) = none ∧
        ∃ serial, (b.enqueue sm now e whichCamp).queue whichCamp =
          b.queue whichCamp ++ [{ e with serial }])) := by
  obtain ⟨q, hq⟩ := Option.isSome_iff_exists.mp hcamp
  rw [queue_of_some hq]
  unfold enqueue
  rw [hq]
  dsimp only
  rcases q.indexOf_split e.soldier with ⟨hidx, hfind⟩ | ⟨pre, x, post, hsplit, hidx, hx, hfind⟩
  · -- no entry of the kind is there: the order is the last one, and the timer starts with the first
    rw [hidx]
    dsimp only
    refine ⟨?_, .inr ⟨hfind, q.pushed, ?_⟩⟩
    · split_ifs
      · exact (sameRecords_setCamp _).trans (sameRecords_registerTime _ _)
      · exact sameRecords_setCamp _
    · split_ifs
      · rw [registerTime_queue, setCamp_queue, if_pos rfl]
        rfl
      · rw [setCamp_queue, if_pos rfl]
        rfl
  · rw [hidx]
    refine ⟨sameRecords_setCamp _, .inl ⟨pre, x, post, hsplit, hx, hfind, ?_⟩⟩
    rw [setCamp_queue, if_pos rfl, Camp.setNum_split hsplit, Camp.getElem?_split hsplit]
    rfl

/-- What is left of the entry that a request to delete finds: it goes at the front when no more
than `num` are in it, elsewhere when the 16-bit difference is not positive. -/
def Cut (num : Int) (pre : List Entry) (x : Entry) (left : Option Int) : Prop :=
  match left with
  | none => if pre = [] then x.soldierNum - num ≤ 0 else short (x.soldierNum - num) ≤ 0
  | some n => n = short (x.soldierNum - num) ∧
      if pre = [] then 0 < x.soldierNum - num else 0 < short (x.soldierNum - num)

theorem dequeue_cases (b : Barracks) (sm : SmallMap) (now : Int) (e : SoldierInfo) (whichCamp : Text)
    (q : Camp) :
    (b.dequeue sm now e whichCamp q = none ∧
      q.armysQueue.find? (fun x => x.soldier = e.soldier) = none) ∨
    ∃ t pre x post left, b.dequeue sm now e whichCamp q = some t ∧ SameRecords b t ∧
      q.armysQueue = pre ++ x :: post ∧ x.soldier = e.soldier ∧
      q.armysQueue.find? (fun x => x.soldier = e.soldier) = some x ∧
      Cut e.soldierNum pre x left ∧
      t.queue whichCamp = pre ++ (left.map fun n => { x with soldierNum := n }).toList ++ post := by
  unfold dequeue
  rcases hqueue : q.armysQueue with _ | ⟨sir, rest⟩
  · exact .inl ⟨rfl, rfl⟩
  dsimp only
  split_ifs with hfront hnum hrest
  · -- the entry at the front goes, and the timer is set for the next one
    refine .inr ⟨_, [], sir, rest, none, rfl, ?_, rfl, hfront, by simp [hfront], hnum, ?_⟩
    · exact (sameRecords_cancelTimer.trans (sameRecords_setCamp _)).trans
        (sameRecords_registerTime _ _)
    · rw [registerTime_queue, setCamp_queue, if_pos rfl]
      simp [Camp.erase, hqueue]
  · refine .inr ⟨_, [], sir, rest, some (short (sir.soldierNum - e.soldierNum)), rfl,
      sameRecords_setCamp _, rfl, hfront, by simp [hfront], ⟨rfl, not_le.mp hnum⟩, ?_⟩
    rw [setCamp_queue, if_pos rfl]
    exact Camp.setNum_head hqueue _
  · exact .inl ⟨rfl, by simp [hrest, hfront]⟩
  · rcases q.indexOf_split e.soldier with ⟨hidx, hfind⟩ | ⟨pre, x, post, hsplit, hidx, hx, hfind⟩
    · rw [hidx, ← hqueue]
      exact .inl ⟨rfl, hfind⟩
    · -- the front is of another kind, or it would have been looked at first
      have hpre : pre ≠ [] := by
        rintro rfl
        rw [hqueue] at hsplit
        obtain ⟨rfl, -⟩ := List.cons.inj hsplit
        exact hfront hx
      rw [hidx, ← hqueue, hsplit]
      have hget := Camp.getElem?_split hsplit
      rw [hsplit] at hget
      refine .inr ⟨_, pre, x, post,
        if short (x.soldierNum - e.soldierNum) ≤ 0 then none
        else some (short (x.soldierNum - e.soldierNum)), rfl, sameRecords_setCamp _, rfl, hx,
        hsplit ▸ hfind, ?_, ?_⟩
      · split_ifs with hleft
        · simpa [Cut, hpre] using hleft
        · simpa [Cut, hpre] using hleft
      · rw [setCamp_queue, if_pos rfl, hget]
        dsimp only [Option.map_some, Option.getD_some]
        split_ifs with hleft
        · rw [Camp.erase_split hsplit]
          simp
        · rw [Camp.setNum_split hsplit]
          simp

theorem delSoliders_of_none
    (h : sm.price e.soldierType e.soldierLevel = none ∨ b.campQueue whichCamp = none) :
    b.delSoliders sm now e whichCamp = some b := by
  unfold delSoliders
  rcases h with h | h
  · rw [h]
  · rw [h]
    cases sm.price e.soldierType e.soldierLevel <;> rfl

theorem delSoliders_of_fits (now : Int) {p : ArmsPrice}
    (hp : sm.price e.soldierType e.soldierLevel = some p)
    (hq : b.campQueue whichCamp = some q)
    (hfits : ∀ a, a ≠ Asset.diamond → FitsInt (p.refund e.soldierNum a)) :
    b.delSoliders sm now e whichCamp =
      some (((b.dequeue sm now e whichCamp q).map fun b => b.addResource (p.refund e.soldierNum)).getD
        b) := by
  rw [delSoliders, hp, hq]
  simp only [ints_of_fits hfits]
  cases b.dequeue sm now e whichCamp q <;> rfl

theorem cut_of_sound {num : Int} {pre : List Entry} {x : Entry} {left : Option Int}
    (h : Cut num pre x left) (hx : 1 ≤ x.soldierNum ∧ x.soldierNum ≤ 32767)
    (hnum : 0 ≤ num ∧ num ≤ 32767) :
    left = if x.soldierNum ≤ num then none else some (x.soldierNum - num) := by
  have hshort : short (x.soldierNum - num) = x.soldierNum - num :=
    short_of_mem (by omega) (by omega)
  unfold Cut at h
  rw [hshort] at h
  cases left with
  | none =>
    dsimp only at h
    rw [if_pos (by split_ifs at h <;> omega)]
  | some n =>
    obtain ⟨rfl, h⟩ := h
    rw [if_neg (by split_ifs at h <;> omega)]

theorem timeIsUp_cases (b : Barracks) (sm : SmallMap) (whichCamp : Text) : b.timeIsUp sm whichCamp = b ∨
    (∃ x rest, b.queue whichCamp = x :: rest ∧
      (b.timeIsUp sm whichCamp).army.inserted = b.army.inserted ++ [x.soldier] ∧
      (b.timeIsUp sm whichCamp).queue whichCamp = if x.soldierNum = 1 then rest
        else { x with soldierNum := short (x.soldierNum - 1) } :: rest) ∨
    ((b.timeIsUp sm whichCamp).army.inserted = b.army.inserted ∧
      (b.timeIsUp sm whichCamp).queue whichCamp = b.queue whichCamp) := by
  unfold timeIsUp
  cases hq : b.campQueue whichCamp with
  | none => exact .inl rfl
  | some q =>
    rw [queue_of_some hq]
    dsimp only
    rcases hqueue : q.armysQueue with _ | ⟨x, rest⟩
    · exact .inl rfl
    dsimp only
    rcases b.army.insertToBuildedArmyQueue_cases sm.arms x.soldierType x.soldierLevel with
      ⟨army, hins, hlog, -⟩ | ⟨army, hins, hlog, -⟩
    · rw [hins]
      refine .inr (.inl ⟨x, rest, rfl, ?_, ?_⟩)
      · dsimp only
        split_ifs
        all_goals first | exact hlog | exact (congrArg BuildedArmy.inserted
          (sameRecords_registerTime _ _).army).trans hlog
      · have hleft : (if x.soldierNum = 1 then q.erase 0
            else q.setNum 0 (short (x.soldierNum - 1))).armysQueue = if x.soldierNum = 1 then rest
              else { x with soldierNum := short (x.soldierNum - 1) } :: rest := by
          split_ifs
          · simp [Camp.erase, hqueue]
          · exact Camp.setNum_head hqueue _
        rw [← hleft]
        generalize (if x.soldierNum = 1 then q.erase 0
          else q.setNum 0 (short (x.soldierNum - 1))) = q'
        dsimp only
        by_cases hnil : q'.armysQueue = []
        · rw [if_pos hnil, setCamp_queue, if_pos rfl]
        · rw [if_neg hnil, registerTime_queue, setCamp_queue, if_pos rfl]
    · rw [hins]
      refine .inr (.inr ⟨?_, ?_⟩)
      · exact (congrArg BuildedArmy.inserted (sameRecords_registerTime _ _).army).trans hlog
      · rw [registerTime_queue, setCamp_queue, if_pos rfl, ← hqueue]

end Barracks

end IceBridge.Army
