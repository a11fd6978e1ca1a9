import IceBridge.Army.Requests
import IceBridge.Army.Catchup
import IceBridge.Lib.Run

/-! Handlers that come too late. A wait that has expired cannot be cancelled, and its handler
takes the soldier at the front of the camp whoever he is by then, in a queue that may be gone. -/

namespace IceBridge.Army
open Text

/-- What becomes of a stored camp. A queue that is blocked has the front it had, unless that one
is skipped, and was blocked by the loading only after the front had been trained. -/
def Camp.load (arms : Arms) (now : Int) (stored : Camp) (tq : TimerQueue) : Camp :=
  let front := tq.armysQueue.head?
  { armysQueue := tq.armysQueue.zipIdx.map fun (e, i) => { e with serial := i }
    isBlock := tq.isBlock
    beginBuildTime := tq.beginBuildTime
    expiresAt := tq.expiresAt
    since :=
      if ¬ tq.isBlock then tq.beginBuildTime
      else if ¬ stored.isBlock then
        front.map fun e => now - arms.buildTime e.soldierType e.soldierLevel
      else if front = stored.armysQueue.head?.map Entry.toSoldierInfo then stored.since
      else some now
    pushed := tq.armysQueue.length }

def Camp.Trained (arms : Arms) (now : Int) (q : Camp) : Prop :=
  q.isBlock = true → ∀ x rest, q.armysQueue = x :: rest →
    parseEntry x.text = some x.toSoldierInfo ∧
      ∃ since ∈ q.since, since + arms.buildTime x.soldierType x.soldierLevel ≤ now

def Barracks.Quiet (b : Barracks) (whichCamp : Text) : Prop :=
  ∀ w ∈ b.waits, w.whichCamp = whichCamp → w.status ≠ .expired

/-- The worker, as far as one player is concerned, with what the destructors of
`ArmysBuildQueue` have written. The orphans are the handlers that refer to a queue which has been
destroyed. -/
structure Worker where
  online : Bool := false
  barracks : Barracks := {}
  stored : Text → Option Camp := fun _ => none
  orphans : List Wait := []
  now : Int := 0

/-- What the `io_service` runs, one after the other, and what happens in between: the time goes
on, and waits expire. A request of a player who is not online is preceded by a login, which finds
keys in the stores. -/
inductive WorkerEvent
  | login (keys : List Text)
  | addSoldiers (type level num : Int) (whichCamp : Text)
  | delSoliders (type level num : Int) (whichCamp : Text)
  | completeAtOnce (whichCamp : Text)
  | logout
  | tick (secs : ℕ)
  | expire (i : ℕ)
  | handle (i : ℕ)
  | handleOrphan (i : ℕ)
  /-- Somebody else writes the records of the player. -/
  | others (popu curPopu : Option Int) (count : Int → Int) (places : List (Option Int))
      (asset : Balances) (combatUnionUid : Option Int)
  /-- The camp of another player is written. -/
  | otherCamp (key : Text) (q : Camp)

namespace Worker

section
variable (sm : SmallMap) (uid : UInt32) (toIsoString : Option Int → Text)
  (fromIsoString : Text → Int)

/-- A turn of the loop in the constructor of `ArmysBuildQueue`. A timer queue of the same name is
replaced, and its wait is cancelled. -/
def loadCamp (now : Int) (stored : Text → Option Camp) (b : Barracks) (key : Text) : Barracks :=
  match stored key with
  | none => b
  | some q =>
    let whichCamp := afterLast '#' key
    let campInfo := writeIntoRedis (toIsoString q.beginBuildTime) q.isBlock
      (q.armysQueue.map Entry.toSoldierInfo)
    let loaded := newTimerQueueFromRedis sm.arms fromIsoString now key campInfo { army := b.army }
    let b := { b with army := loaded.army }
    match loaded.campQueue whichCamp with
    | none => b
    | some tq =>
      let b := (b.cancel whichCamp).setCamp whichCamp (q.load sm.arms now tq)
      if tq.armed then
        { b with waits := b.waits ++ [{ whichCamp, serial := 0, expiry := tq.expiresAt }] }
      else b

def login (s : Worker) (keys : List Text) : Worker :=
  { s with
    online := true
    barracks := keys.foldl (loadCamp sm toIsoString fromIsoString s.now s.stored) s.barracks }

def request (s : Worker) (result : Option Barracks) : Option Worker :=
  if s.online then result.map fun barracks => { s with barracks } else none

def logout (s : Worker) : Worker :=
  let start := campKey uid []
  { s with
    online := false
    stored := fun key =>
      if start.isPrefixOf key then (s.barracks.campQueue (key.drop start.length)).or (s.stored key)
      else s.stored key
    orphans := s.orphans ++ s.barracks.waits.map fun w =>
      if w.status = .pending then { w with status := .cancelled } else w
    barracks := { s.barracks with campQueue := fun _ => none, waits := [] } }

def expire (s : Worker) (i : ℕ) : Option Worker := do
  let w ← s.barracks.waits[i]?
  if w.status = .pending ∧ ∃ t ∈ w.expiry, t ≤ s.now then
    some { s with barracks := { s.barracks with
      waits := s.barracks.waits.set i { w with status := .expired } } }
  else none

def handle (s : Worker) (i : ℕ) : Option Worker := do
  let w ← s.barracks.waits[i]?
  let b : Barracks := { s.barracks with waits := s.barracks.waits.eraseIdx i }
  match w.status with
  | .pending => none
  | .cancelled => some { s with barracks := b }
  | .expired => some { s with barracks := b.timeIsUp sm w.whichCamp }

def step (s : Worker) : WorkerEvent → Option Worker
  | .login keys => if s.online then none else some (s.login sm toIsoString fromIsoString keys)
  | .addSoldiers type level num whichCamp =>
    s.request (s.barracks.addSoldiers sm s.now ⟨short type, short level, short num⟩ whichCamp)
  | .delSoliders type level num whichCamp =>
    s.request (s.barracks.delSoliders sm s.now ⟨short type, short level, short num⟩ whichCamp)
  | .completeAtOnce whichCamp => s.request (s.barracks.completeAtOnce sm s.now whichCamp)
  | .logout => if s.online then some (s.logout uid) else none
  | .tick secs => some { s with now := s.now + secs }
  | .expire i => s.expire i
  | .handle i => s.handle sm i
  | .handleOrphan i =>
    -- what it does with memory that has been given back is not part of the model
    if i < s.orphans.length then some { s with orphans := s.orphans.eraseIdx i } else none
  | .others popu curPopu count places asset combatUnionUid =>
    some { s with barracks := { s.barracks with
      army := { s.barracks.army with popu, curPopu, count, places }, asset, combatUnionUid } }
  | .otherCamp key q =>
    if (campKey uid []).isPrefixOf key then none
    else some { s with stored := Function.update s.stored key (some q) }

end

/-! ## What is to be shown, and of which runs -/

/-- A handler that succeeds takes a soldier of the entry its wait was for, who has been trained
long enough. Of the handlers whose queue is destroyed none runs that is `bad`. -/
def InTime (sm : SmallMap) (bad : WaitStatus → Prop) (s : Worker) : WorkerEvent → Prop
  | .handle i => ∀ w, s.barracks.waits[i]? = some w → w.status = .expired →
      ∀ x rest, s.barracks.queue w.whichCamp = x :: rest → w.serial = x.serial ∧
        ∃ q since, s.barracks.campQueue w.whichCamp = some q ∧ q.since = some since ∧
          since + sm.arms.buildTime x.soldierType x.soldierLevel ≤ s.now
  | .handleOrphan i => ∀ w, s.orphans[i]? = some w → ¬ bad w.status
  | _ => True

/-- The front of a queue is taken away, and the queue as a whole, only while no handler is under
way that refers to it, and a queue is loaded as blocked only for a soldier who is trained. -/
def Undisturbed (sm : SmallMap) (bad : WaitStatus → Prop) (s : Worker) : WorkerEvent → Prop
  | .login keys => ∀ key ∈ keys, ∀ q, s.stored key = some q → q.Trained sm.arms s.now
  | .delSoliders type level num whichCamp =>
    let e : SoldierInfo := ⟨short type, short level, short num⟩
    ∀ x rest, s.barracks.queue whichCamp = x :: rest → x.soldier = e.soldier →
      x.soldierNum - e.soldierNum ≤ 0 → s.barracks.Quiet whichCamp
  | .completeAtOnce whichCamp =>
    ∀ q, s.barracks.campQueue whichCamp = some q → q.armysQueue ≠ [] →
      Barracks.completeCost sm s.now q ≤ s.barracks.asset .diamond → s.barracks.Quiet whichCamp
  | .logout => ∀ w ∈ s.barracks.waits,
      ¬ bad (if w.status = .pending then .cancelled else w.status)
  | _ => True

end Worker

/-! ## What is loaded -/

section Loading
variable {arms : Arms} {now : Int} {s : Loading}

structure Loading.Sound (arms : Arms) (s : Loading) : Prop where
  clear : s.markInsertDirectly = false → s.tq.armysQueue = [] ∧ s.tq.isBlock = false
  front : s.markInsertDirectly = true → s.tq.isBlock = false → ∃ x rest b,
    s.tq.armysQueue = x :: rest ∧ s.tq.armed = true ∧ s.tq.beginBuildTime = some b ∧
      s.tq.expiresAt = some (b + arms.buildTime x.soldierType x.soldierLevel)
  armed : s.tq.armed = true → s.tq.armysQueue ≠ []

theorem Loading.Sound.insertLoop {type level : Int} (n : ℕ) (hs : s.Sound arms)
    (hmark : s.markInsertDirectly = false) : (insertLoop arms now type level n s).Sound arms := by
  induction n generalizing s with
  | zero => exact hs
  | succ n ih =>
    obtain ⟨hqueue, hblock⟩ := hs.clear hmark
    have hpush : ∀ e, (s.tq.pushBack e).armysQueue = [e] := by
      intro e
      rw [TimerQueue.pushBack, hqueue]
      rfl
    unfold Army.insertLoop
    split_ifs with htd
    · have hreg : (s.tq.pushBack ⟨type, level, n⟩).registerTime arms (some (now - s.td)) 0 = _ :=
        TimerQueue.registerTime_cons (hpush ⟨type, level, n⟩) (now - s.td)
      refine ⟨fun h => Bool.noConfusion h, fun _ _ => ⟨⟨type, level, n⟩, [], now - s.td, ?_⟩, ?_⟩
      · rw [hreg]
        exact ⟨hpush _, rfl, rfl, rfl⟩
      · intro _
        rw [hreg]
        exact (hpush ⟨type, level, n⟩).symm ▸ List.cons_ne_nil _ _
    · rcases s.army.insertToBuildedArmyQueue arms type level with ⟨_ | _, army⟩
      · refine ⟨fun h => Bool.noConfusion h, fun _ h => Bool.noConfusion h, fun _ => ?_⟩
        exact List.append_ne_nil_of_right_ne_nil _ (List.cons_ne_nil _ _)
      · exact ih ⟨fun _ => ⟨hqueue, rfl⟩, fun h => absurd (hmark.symm.trans h) Bool.false_ne_true,
          hs.armed⟩ hmark

theorem Loading.Sound.loadEntry (hs : s.Sound arms) (token : Text) :
    (loadEntry arms now s token).Sound arms := by
  unfold Army.loadEntry
  cases parseEntry token with
  | none => exact hs
  | some e =>
    dsimp only
    split_ifs with hmark
    · refine ⟨fun h => absurd (hmark.symm.trans h) Bool.false_ne_true.symm, fun _ hblock => ?_,
        fun _ => List.append_ne_nil_of_right_ne_nil _ (List.cons_ne_nil _ _)⟩
      obtain ⟨x, rest, b, hqueue, htimer⟩ := hs.front hmark hblock
      refine ⟨x, rest ++ [e], b, ?_, htimer⟩
      rw [TimerQueue.pushBack, hqueue]
      rfl
    · exact hs.insertLoop _ (Bool.eq_false_iff.mpr hmark)

theorem Loading.Sound.foldl (hs : s.Sound arms) (now : Int) (tokens : List Text) :
    (tokens.foldl (Army.loadEntry arms now) s).Sound arms := by
  induction tokens generalizing s with
  | nil => exact hs
  | cons token rest ih => exact ih (hs.loadEntry token)

def TimerQueue.Loaded (arms : Arms) (now : Int) (tq : TimerQueue) : Prop :=
  (tq.armysQueue = [] ∧ tq.armed = false) ∨ ∃ x rest, tq.armysQueue = x :: rest ∧ tq.armed = true ∧
    ((tq.isBlock = true ∧ tq.expiresAt = some (now + 30)) ∨
      (tq.isBlock = false ∧ ∃ b, tq.beginBuildTime = some b ∧
        tq.expiresAt = some (b + arms.buildTime x.soldierType x.soldierLevel)))

theorem Loading.Sound.loaded (hs : s.Sound arms) (now : Int) :
    (if s.tq.isBlock then s.tq.registerTime arms (some now) 30 else s.tq).Loaded arms now := by
  rcases hqueue : s.tq.armysQueue with _ | ⟨x, rest⟩
  · have harmed : s.tq.armed = false := by
      by_contra h
      exact hs.armed (Bool.eq_true_of_not_eq_false h) hqueue
    rw [TimerQueue.registerTime_of_nil hqueue, ite_self]
    exact .inl ⟨hqueue, harmed⟩
  · split_ifs with hblock
    · refine .inr ⟨x, rest, ?_⟩
      rw [TimerQueue.registerTime, hqueue]
      exact ⟨rfl, rfl, .inl ⟨hblock, rfl⟩⟩
    · have hblock := Bool.eq_false_iff.mpr hblock
      have hmark : s.markInsertDirectly = true := by
        by_contra h
        have hnil := (hs.clear (Bool.eq_false_iff.mpr h)).1
        exact List.cons_ne_nil x rest (hqueue.symm.trans hnil)
      obtain ⟨y, rest', b, hqueue', harmed, htimer⟩ := hs.front hmark hblock
      exact .inr ⟨y, rest', hqueue', harmed, .inr ⟨hblock, b, htimer⟩⟩

theorem newTimerQueueFromRedis_loaded {fromIsoString : Text → Int} {key isoTime c : Text}
    {isBlock : Bool} {queue : List SoldierInfo} {army : BuildedArmy} {tq : TimerQueue}
    (h : (newTimerQueueFromRedis arms fromIsoString now key (writeIntoRedis isoTime isBlock queue)
      { army := army }).campQueue c = some tq) :
    queue ≠ [] ∧ tq.Loaded arms now ∧ (isBlock = true → tq.isBlock = true ∧
      tq.armysQueue = (queue.map SoldierInfo.text).filterMap parseEntry) := by
  have hblock : decide (atoi (formatInt isBlock.toInt) ≠ 0) = isBlock := by
    rw [atoi_formatInt]
    cases isBlock <;> rfl
  unfold newTimerQueueFromRedis at h
  rw [writeIntoRedis, List.reverse_reverse] at h
  rcases queue with _ | ⟨e, queue⟩
  · exact absurd h.symm (Option.some_ne_none tq)
  have hsound :
      Loading.Sound arms ⟨{ isBlock }, army, now - fromIsoString isoTime, isBlock⟩ := by
    refine ⟨fun h => ⟨rfl, h⟩, fun h h' => ?_, fun h => Bool.noConfusion h⟩
    exact absurd (h.symm.trans h') Bool.false_ne_true.symm
  have hloaded := (hsound.foldl now ((e :: queue).map SoldierInfo.text)).loaded now
  by_cases hid : afterLast '#' key = []
  · simp only [List.map_cons, hid, if_true] at h
    exact absurd h.symm (Option.some_ne_none tq)
  simp only [List.map_cons, if_neg hid, hblock, Function.update_apply] at h
  rw [List.map_cons] at hloaded
  by_cases hc : c = afterLast '#' key
  · rw [if_pos hc] at h
    obtain rfl := Option.some.inj h
    refine ⟨List.cons_ne_nil _ _, hloaded, fun hb => ?_⟩
    rw [← List.map_cons, foldl_loadEntry_mark _ hb, if_pos hb]
    exact ⟨(TimerQueue.registerTime_isBlock _ _ _ _).trans hb, TimerQueue.registerTime_queue _ _ _ _⟩
  · rw [if_neg hc] at h
    exact absurd h.symm (Option.some_ne_none tq)

end Loading

/-! ## The waits of a camp -/

namespace Barracks
variable {sm : SmallMap} {b t : Barracks} {c d : Text} {now : Int} {q : Camp} {e : SoldierInfo}

def live (b : Barracks) (c : Text) : List Wait :=
  b.waits.filter fun w => w.whichCamp = c ∧ w.status ≠ .cancelled

theorem mem_live {w : Wait} :
    w ∈ b.live c ↔ w ∈ b.waits ∧ w.whichCamp = c ∧ w.status ≠ .cancelled := by
  simp [live, List.mem_filter]

theorem live_cancel (h : b.Quiet c) : (b.cancel c).live c = [] := by
  refine List.eq_nil_iff_forall_not_mem.mpr fun w' hw' => ?_
  obtain ⟨hmem, hcamp, hstatus⟩ := mem_live.mp hw'
  obtain ⟨w, hw, rfl⟩ := List.mem_map.mp hmem
  split_ifs at hcamp hstatus with hpending
  · exact hstatus rfl
  · have hquiet := h w hw hcamp
    cases hw : w.status with
    | pending => exact hpending ⟨hcamp, hw⟩
    | expired => exact hquiet hw
    | cancelled => exact hstatus hw

theorem live_cancel_of_ne (hd : d ≠ c) : (b.cancel c).live d = b.live d := by
  unfold live cancel
  dsimp only
  induction b.waits with
  | nil => rfl
  | cons w ws ih =>
    rw [List.map_cons, List.filter_cons, List.filter_cons, ih]
    by_cases hw : w.whichCamp = c ∧ w.status = .pending
    · simp [hw, hd.symm]
    · rw [if_neg hw]

theorem quiet_of_live_nil (h : b.live c = []) : b.Quiet c := by
  intro w hw hcamp hstatus
  have hmem : w ∈ b.live c := mem_live.mpr ⟨hw, hcamp, by simp [hstatus]⟩
  rw [h] at hmem
  exact absurd hmem List.not_mem_nil

structure SameCamp (d : Text) (b t : Barracks) : Prop where
  camp : t.campQueue d = b.campQueue d
  live : t.live d = b.live d

theorem SameCamp.trans {u : Barracks} (h : SameCamp d b t) (h' : SameCamp d t u) :
    SameCamp d b u :=
  ⟨h'.camp.trans h.camp, h'.live.trans h.live⟩

theorem sameCamp_setCamp (hd : d ≠ c) (q : Camp) : SameCamp d b (b.setCamp c q) :=
  ⟨by rw [setCamp_campQueue, if_neg hd], rfl⟩

theorem sameCamp_cancel (hd : d ≠ c) : SameCamp d b (b.cancel c) := ⟨rfl, live_cancel_of_ne hd⟩

theorem sameCamp_cancelTimer (hd : d ≠ c) : SameCamp d b (b.cancelTimer c) := by
  unfold cancelTimer
  cases b.campQueue c with
  | none => exact ⟨rfl, rfl⟩
  | some q =>
    dsimp only
    split_ifs
    · exact ⟨rfl, rfl⟩
    · exact sameCamp_cancel hd

theorem live_append (w : Wait) :
    ({ b with waits := b.waits ++ [w] } : Barracks).live d =
      b.live d ++ [w].filter fun w => w.whichCamp = d ∧ w.status ≠ .cancelled :=
  List.filter_append ..

theorem sameCamp_registerTime (hd : d ≠ c) (beginBuildTime : Option Int) (secs : Int) :
    SameCamp d b (b.registerTime sm c beginBuildTime secs) := by
  unfold registerTime
  cases b.campQueue c with
  | none => exact ⟨rfl, rfl⟩
  | some q =>
    dsimp only
    split
    · exact ⟨rfl, rfl⟩
    · refine ((sameCamp_cancel hd).trans (sameCamp_setCamp hd _)).trans ⟨rfl, ?_⟩
      rw [live_append]
      simp [hd.symm]

structure Awaits (arms : Arms) (now : Int) (q : Camp) (x : Entry) (w : Wait) : Prop where
  serial : w.serial = x.serial
  trained : ∃ since t, q.since = some since ∧ q.expiresAt = some t ∧ w.expiry = some t ∧
    since + arms.buildTime x.soldierType x.soldierLevel ≤ t ∧ (w.status = .expired → t ≤ now)

def Guarded (sm : SmallMap) (now : Int) (b : Barracks) (c : Text) : Prop :=
  (b.queue c = [] ∧ b.live c = []) ∨ ∃ q x rest w, b.campQueue c = some q ∧
    q.armysQueue = x :: rest ∧ b.live c = [w] ∧ Awaits sm.arms now q x w

theorem Guarded.of_same (h : b.Guarded sm now c) (hsame : SameCamp c b t) :
    t.Guarded sm now c := by
  rcases h with ⟨hqueue, hlive⟩ | ⟨q, x, rest, w, hq, hx, hlive, hw⟩
  · refine .inl ⟨?_, hsame.live.trans hlive⟩
    rw [queue, hsame.camp]
    exact hqueue
  · exact .inr ⟨q, x, rest, w, hsame.camp.trans hq, hx, hsame.live.trans hlive, hw⟩

theorem Guarded.live_nil (h : b.Guarded sm now c) (hqueue : b.queue c = []) : b.live c = [] := by
  rcases h with ⟨-, hlive⟩ | ⟨q, x, rest, w, hq, hx, -, -⟩
  · exact hlive
  · rw [queue_of_some hq, hx] at hqueue
    exact absurd hqueue (List.cons_ne_nil x rest)

theorem Guarded.front {x : Entry} {rest : List Entry} (h : b.Guarded sm now c)
    (hq : b.campQueue c = some q) (hx : q.armysQueue = x :: rest) :
    ∃ w, b.live c = [w] ∧ Awaits sm.arms now q x w := by
  rcases h with ⟨hqueue, -⟩ | ⟨q', x', rest', w, hq', hx', hlive, hw⟩
  · rw [queue_of_some hq, hx] at hqueue
    exact absurd hqueue (List.cons_ne_nil x rest)
  · obtain rfl := Option.some.inj (hq.symm.trans hq')
    obtain ⟨rfl, rfl⟩ := List.cons.inj (hx.symm.trans hx')
    exact ⟨w, hlive, hw⟩

theorem Guarded.of_mem {w : Wait} (h : b.Guarded sm now c) (hw : w ∈ b.live c) :
    ∃ q x rest, b.campQueue c = some q ∧ q.armysQueue = x :: rest ∧ b.live c = [w] ∧
      Awaits sm.arms now q x w := by
  rcases h with ⟨-, hlive⟩ | ⟨q, x, rest, v, hq, hx, hlive, hv⟩
  · rw [hlive] at hw
    exact absurd hw List.not_mem_nil
  · rw [hlive] at hw
    obtain rfl := List.mem_singleton.mp hw
    exact ⟨q, x, rest, hq, hx, hlive, hv⟩

theorem Awaits.later {arms : Arms} {x : Entry} {w : Wait} {now' : Int} (h : Awaits arms now q x w)
    (hle : now ≤ now') : Awaits arms now' q x w := by
  obtain ⟨since, t, hsince, ht, hexpiry, hlong, hexp⟩ := h.trained
  exact ⟨h.serial, since, t, hsince, ht, hexpiry, hlong, fun hw => (hexp hw).trans hle⟩

theorem Awaits.expired {arms : Arms} {x : Entry} {w : Wait} {t : Int} (h : Awaits arms now q x w)
    (hexpiry : w.expiry = some t) (hdue : t ≤ now) :
    Awaits arms now q x { w with status := .expired } := by
  obtain ⟨since, t', hsince, ht, hexpiry', hlong, -⟩ := h.trained
  obtain rfl := Option.some.inj (hexpiry.symm.trans hexpiry')
  exact ⟨h.serial, since, t, hsince, ht, hexpiry, hlong, fun _ => hdue⟩

theorem registerTime_of_nil (hq : b.campQueue c = some q) (hx : q.armysQueue = [])
    (beginBuildTime : Option Int) (secs : Int) : b.registerTime sm c beginBuildTime secs = b := by
  simp only [registerTime, hq, hx]

theorem registerTime_of_cons {x : Entry} {rest : List Entry} {beginBuildTime : Option Int}
    {start : Int} (hq : b.campQueue c = some q) (hx : q.armysQueue = x :: rest)
    (hstart : beginBuildTime.or q.expiresAt = some start) (secs : Int) :
    let wait := if secs = 0 then sm.arms.buildTime x.soldierType x.soldierLevel else secs
    b.registerTime sm c beginBuildTime secs =
      { (b.cancel c).setCamp c
          { q with
            beginBuildTime := some start
            expiresAt := some (start + wait)
            since := if secs = 0 then some start else q.since } with
        waits := (b.cancel c).waits ++
          [{ whichCamp := c, serial := x.serial, expiry := some (start + wait) }] } := by
  simp only [registerTime, hq, hx, hstart, Option.map_some]
  rfl

theorem guarded_registerTime {beginBuildTime : Option Int} {secs : Int}
    (hq : b.campQueue c = some q) (hlive : b.live c = [] ∨ (b.Quiet c ∧ q.armysQueue ≠ []))
    (htime : ∀ x rest, q.armysQueue = x :: rest → ∃ start,
      beginBuildTime.or q.expiresAt = some start ∧ (secs ≠ 0 → ∃ since, q.since = some since ∧
        since + sm.arms.buildTime x.soldierType x.soldierLevel ≤ start + secs)) :
    (b.registerTime sm c beginBuildTime secs).Guarded sm now c := by
  have hquiet : b.Quiet c := hlive.elim quiet_of_live_nil And.left
  rcases hx : q.armysQueue with _ | ⟨x, rest⟩
  · rw [registerTime_of_nil hq hx]
    exact .inl ⟨(queue_of_some hq).trans hx, hlive.resolve_right fun h => h.2 hx⟩
  · obtain ⟨start, hstart, hsince⟩ := htime x rest hx
    rw [registerTime_of_cons hq hx hstart]
    let wait := if secs = 0 then sm.arms.buildTime x.soldierType x.soldierLevel else secs
    refine .inr ⟨_, x, rest, ⟨c, x.serial, some (start + wait), .pending⟩,
      Function.update_self _ _ _, hx, ?_, rfl, ?_⟩
    · rw [live, List.filter_append]
      change (b.cancel c).live c ++ _ = _
      rw [live_cancel hquiet, List.nil_append]
      exact List.filter_eq_self.mpr fun w hw => by simp [List.mem_singleton.mp hw]
    · by_cases hsecs : secs = 0
      · refine ⟨start, _, if_pos hsecs, rfl, rfl, ?_, fun h => WaitStatus.noConfusion h⟩
        rw [if_pos hsecs]
      · obtain ⟨since, hs, hle⟩ := hsince hsecs
        refine ⟨since, _, (if_neg hsecs).trans hs, rfl, rfl, ?_, fun h => WaitStatus.noConfusion h⟩
        rw [if_neg hsecs]
        exact hle

theorem Guarded.setCamp {q' : Camp} {x y : Entry} {rest rest' : List Entry}
    (h : b.Guarded sm now c) (hq : b.campQueue c = some q) (hx : q.armysQueue = x :: rest)
    (hy : q'.armysQueue = y :: rest') (hserial : y.serial = x.serial)
    (hsoldier : y.soldier = x.soldier)
    (htimer : q'.since = q.since ∧ q'.expiresAt = q.expiresAt) :
    (b.setCamp c q').Guarded sm now c := by
  obtain ⟨w, hlive, hw⟩ := h.front hq hx
  refine .inr ⟨q', y, rest', w, Function.update_self _ _ _, hy, hlive, ?_⟩
  obtain ⟨since, t, hsince, hexpires, hexpiry, hlong, hexp⟩ := hw.trained
  have htype : y.soldierType = x.soldierType := congrArg Soldier.type hsoldier
  have hlevel : y.soldierLevel = x.soldierLevel := congrArg Soldier.level hsoldier
  refine ⟨hw.serial.trans hserial.symm, since, t, htimer.1.trans hsince, htimer.2.trans hexpires,
    hexpiry, ?_, hexp⟩
  rw [htype, hlevel]
  exact hlong

theorem Guarded.setCamp_setNum (h : b.Guarded sm now c) (hq : b.campQueue c = some q) (i : ℕ)
    (num : Int) : (b.setCamp c (q.setNum i num)).Guarded sm now c := by
  rcases hx : q.armysQueue with _ | ⟨x, rest⟩
  · have hnil : (q.setNum i num).armysQueue = [] := by
      show q.armysQueue.modify i _ = []
      rw [hx, List.modify_nil]
    refine .inl ⟨?_, h.live_nil ((queue_of_some hq).trans hx)⟩
    rw [setCamp_queue, if_pos rfl, hnil]
  · cases i with
    | zero =>
      have hy : (q.setNum 0 num).armysQueue = { x with soldierNum := num } :: rest :=
        Camp.setNum_head hx num
      exact h.setCamp hq hx hy rfl rfl ⟨rfl, rfl⟩
    | succ i =>
      have hy : (q.setNum (i + 1) num).armysQueue =
          x :: rest.modify i fun e => { e with soldierNum := num } := by
        rw [Camp.setNum, hx]
        exact List.modify_succ_cons ..
      exact h.setCamp hq hx hy rfl rfl ⟨rfl, rfl⟩

theorem sameCamp_createCamp : b.campQueue d ≠ none → SameCamp d b (b.createCamp c) := by
  intro hd
  unfold createCamp
  cases hq : b.campQueue c with
  | some q => exact ⟨rfl, rfl⟩
  | none =>
    refine sameCamp_setCamp ?_ _
    rintro rfl
    exact hd hq

theorem Guarded.createCamp (h : b.Guarded sm now d) : (b.createCamp c).Guarded sm now d := by
  rcases h with ⟨hqueue, hlive⟩ | hfront
  · refine .inl ⟨createCamp_queue.trans hqueue, ?_⟩
    unfold Barracks.createCamp
    cases b.campQueue c <;> exact hlive
  · refine Guarded.of_same (.inr hfront) (sameCamp_createCamp ?_)
    obtain ⟨q, _, _, _, hq, _⟩ := hfront
    rw [hq]
    exact Option.some_ne_none q

theorem sameCamp_payFor {paid : Bool} (h : b.payFor sm e = some (paid, t)) : SameCamp d b t := by
  unfold payFor at h
  split at h
  · obtain ⟨-, rfl⟩ := Prod.mk.inj (Option.some.inj h)
    exact ⟨rfl, rfl⟩
  · obtain ⟨unlock, -, h⟩ := Option.bind_eq_some_iff.mp h
    split_ifs at h
    · obtain ⟨-, rfl⟩ := Prod.mk.inj (Option.some.inj h)
      exact ⟨rfl, rfl⟩
    · obtain ⟨cost, -, h⟩ := Option.bind_eq_some_iff.mp h
      obtain ⟨-, rfl⟩ := Prod.mk.inj (Option.some.inj h)
      exact ⟨rfl, rfl⟩

theorem guarded_enqueue (h : ∀ d, b.Guarded sm now d) (d : Text) :
    (b.enqueue sm now e c).Guarded sm now d := by
  unfold enqueue
  cases hq : b.campQueue c with
  | none => exact h d
  | some q =>
    dsimp only
    cases q.indexOf e.soldier with
    | some i =>
      by_cases hd : d = c
      · subst d
        exact (h c).setCamp_setNum hq _ _
      · exact (h d).of_same (sameCamp_setCamp hd _)
    | none =>
      dsimp only
      have hcamp : (b.setCamp c (q.pushBack e)).campQueue c = some (q.pushBack e) :=
        Function.update_self _ _ _
      by_cases hd : d = c
      · subst d
        rcases hx : q.armysQueue with _ | ⟨x, rest⟩
        · rw [if_pos rfl]
          refine guarded_registerTime hcamp (.inl ((h c).live_nil ((queue_of_some hq).trans hx))) ?_
          exact fun _ _ _ => ⟨now, rfl, fun h => absurd rfl h⟩
        · rw [if_neg (List.cons_ne_nil x rest)]
          have hy : (q.pushBack e).armysQueue = x :: (rest ++ [{ e with serial := q.pushed }]) := by
            rw [Camp.pushBack, hx]
            rfl
          exact (h c).setCamp hq hx hy rfl rfl ⟨rfl, rfl⟩
      · refine (h d).of_same ?_
        split_ifs
        · exact (sameCamp_setCamp hd _).trans (sameCamp_registerTime hd _ _)
        · exact sameCamp_setCamp hd _

theorem guarded_addSoldiers (h : ∀ d, b.Guarded sm now d)
    (ht : b.addSoldiers sm now e c = some t) (d : Text) : t.Guarded sm now d := by
  obtain ⟨⟨paid, u⟩, hpay, rfl⟩ := Option.map_eq_some_iff.mp ht
  have hu : ∀ d, u.Guarded sm now d := fun d => (h d).createCamp.of_same (sameCamp_payFor hpay)
  dsimp only
  split_ifs
  · exact guarded_enqueue hu d
  · exact hu d

theorem guarded_erase_front {x : Entry} {rest : List Entry} (hq : b.campQueue c = some q)
    (hx : q.armysQueue = x :: rest) (hquiet : b.Quiet c) :
    (((b.cancelTimer c).setCamp c (q.erase 0)).registerTime sm c (some now) 0).Guarded sm now c := by
  have hcancel : b.cancelTimer c = b.cancel c := by
    unfold cancelTimer
    rw [hq]
    exact if_neg (hx ▸ List.cons_ne_nil x rest)
  refine guarded_registerTime (Function.update_self _ _ _) (.inl ?_) fun _ _ _ => ?_
  · rw [hcancel]
    exact live_cancel hquiet
  · exact ⟨now, rfl, fun h => absurd rfl h⟩

theorem guarded_dequeue (h : ∀ d, b.Guarded sm now d) (hq : b.campQueue c = some q)
    (hquiet : ∀ x rest, b.queue c = x :: rest → x.soldier = e.soldier →
      x.soldierNum - e.soldierNum ≤ 0 → b.Quiet c)
    (ht : b.dequeue sm now e c q = some t) (d : Text) : t.Guarded sm now d := by
  unfold dequeue at ht
  rcases hx : q.armysQueue with _ | ⟨x, rest⟩
  · rw [hx] at ht
    exact absurd ht.symm (Option.some_ne_none t)
  rw [hx] at ht
  dsimp only at ht
  split_ifs at ht with hfront hnum hrest
  · obtain rfl := Option.some.inj ht
    by_cases hd : d = c
    · subst d
      exact guarded_erase_front hq hx (hquiet x rest ((queue_of_some hq).trans hx) hfront hnum)
    · exact (h d).of_same (((sameCamp_cancelTimer hd).trans (sameCamp_setCamp hd _)).trans
        (sameCamp_registerTime hd _ _))
  · obtain rfl := Option.some.inj ht
    by_cases hd : d = c
    · subst d
      exact (h c).setCamp_setNum hq _ _
    · exact (h d).of_same (sameCamp_setCamp hd _)
  · obtain ⟨i, hi, rfl⟩ := Option.map_eq_some_iff.mp ht
    by_cases hd : d = c
    · subst d
      split_ifs
      · -- the front is not the entry that was asked for, so that it is a later one that goes
        cases i with
        | zero =>
          rcases q.indexOf_split e.soldier with ⟨hidx, -⟩ | ⟨pre, y, post, hsplit, hidx, hy, -⟩
          · exact absurd (hi.symm.trans hidx) (Option.some_ne_none 0)
          · have hpre : pre = [] := List.eq_nil_of_length_eq_zero (Option.some.inj (hidx.symm.trans hi))
            rw [hpre, hx] at hsplit
            exact absurd ((List.cons.inj hsplit).1 ▸ hy) hfront
        | succ i =>
          have hy : (q.erase (i + 1)).armysQueue = x :: rest.eraseIdx i := by
            rw [Camp.erase, hx]
            rfl
          exact (h c).setCamp hq hx hy rfl rfl ⟨rfl, rfl⟩
      · exact (h c).setCamp_setNum hq _ _
    · refine (h d).of_same (sameCamp_setCamp hd _)

theorem guarded_delSoliders (h : ∀ d, b.Guarded sm now d)
    (hquiet : ∀ x rest, b.queue c = x :: rest → x.soldier = e.soldier →
      x.soldierNum - e.soldierNum ≤ 0 → b.Quiet c)
    (ht : b.delSoliders sm now e c = some t) (d : Text) : t.Guarded sm now d := by
  unfold delSoliders at ht
  split at ht
  · next p q hp hq =>
    obtain ⟨refund, -, ht⟩ := Option.bind_eq_some_iff.mp ht
    cases hdeq : b.dequeue sm now e c q with
    | none =>
      rw [hdeq] at ht
      exact Option.some.inj ht ▸ h d
    | some u =>
      rw [hdeq] at ht
      obtain rfl := Option.some.inj ht
      exact (guarded_dequeue h hq hquiet hdeq d).of_same ⟨rfl, rfl⟩
  · exact Option.some.inj ht ▸ h d

theorem guarded_completeAtOnce (h : ∀ d, b.Guarded sm now d)
    (hquiet : ∀ q, b.campQueue c = some q → q.armysQueue ≠ [] →
      completeCost sm now q ≤ b.asset .diamond → b.Quiet c) (d : Text) :
    (b.completeAtOnce sm now c).Guarded sm now d := by
  unfold completeAtOnce
  cases hq : b.campQueue c with
  | none => exact h d
  | some q =>
    dsimp only
    by_cases hcost : b.asset .diamond < completeCost sm now q
    · -- without the diamonds nothing happens to the camp
      rw [Balances.subDiamond, if_pos hcost]
      exact (h d).of_same ⟨rfl, rfl⟩
    · rw [Balances.subDiamond, if_neg hcost]
      dsimp only
      generalize q.armysQueue.foldl _ b.army = army
      generalize hu : ({ b with asset := _, army := army } : Barracks) = u
      have hsame : ∀ d, SameCamp d b u := by
        intro d
        rw [← hu]
        exact ⟨rfl, rfl⟩
      by_cases hd : d = c
      · subst d
        refine .inl ⟨by rw [setCamp_queue, if_pos rfl], ?_⟩
        change (u.cancelTimer c).live c = []
        unfold cancelTimer
        rw [(hsame c).camp, hq]
        dsimp only
        split_ifs with hx
        · exact (hsame c).live.trans ((h c).live_nil ((queue_of_some hq).trans hx))
        · refine live_cancel ?_
          rw [← hu]
          exact hquiet q hq hx (not_lt.mp hcost)
      · exact (h d).of_same (((hsame d).trans (sameCamp_cancelTimer hd)).trans
          (sameCamp_setCamp hd _))

/-- The handler takes the one wait there was, and starts the next one when that one would have
ended. -/
theorem guarded_timeIsUp (h : ∀ d, d ≠ c → b.Guarded sm now d) (hlive : b.live c = [])
    (htime : ∀ q x rest, b.campQueue c = some q → q.armysQueue = x :: rest → ∃ since t,
      q.since = some since ∧ q.expiresAt = some t ∧
        since + sm.arms.buildTime x.soldierType x.soldierLevel ≤ t) (d : Text) :
    (b.timeIsUp sm c).Guarded sm now d := by
  have hnothing : b.queue c = [] → b.Guarded sm now d := by
    intro hqueue
    by_cases hd : d = c
    · exact .inl (hd ▸ ⟨hqueue, hlive⟩)
    · exact h d hd
  unfold timeIsUp
  cases hq : b.campQueue c with
  | none => exact hnothing (by rw [queue, hq]; rfl)
  | some q =>
    dsimp only
    rcases hx : q.armysQueue with _ | ⟨x, rest⟩
    · exact hnothing ((queue_of_some hq).trans hx)
    obtain ⟨since, t, hsince, hexpires, hlong⟩ := htime q x rest hq hx
    dsimp only
    rcases b.army.insertToBuildedArmyQueue sm.arms x.soldierType x.soldierLevel with ⟨_ | _, army⟩
    · -- there is no room for him: he stays at the front, and is tried again in 30 seconds
      by_cases hd : d = c
      · subst d
        refine guarded_registerTime (Function.update_self _ _ _) (.inl hlive) fun y rest' hy => ?_
        obtain ⟨rfl, rfl⟩ := List.cons.inj hy
        exact ⟨t, hexpires, fun _ => ⟨since, hsince, hlong.trans (by omega)⟩⟩
      · refine (h d hd).of_same ?_
        exact SameCamp.trans (t := { b with army }) ⟨rfl, rfl⟩
          ((sameCamp_setCamp hd _).trans (sameCamp_registerTime hd _ _))
    · dsimp only
      have hexpires' : (if x.soldierNum = 1 then q.erase 0
          else q.setNum 0 (short (x.soldierNum - 1))).expiresAt = some t := by
        split_ifs <;> exact hexpires
      generalize (if x.soldierNum = 1 then q.erase 0
        else q.setNum 0 (short (x.soldierNum - 1))) = q' at hexpires' ⊢
      have hcamp : (({ b with army } : Barracks).setCamp c { q' with isBlock := false }).campQueue c =
          some { q' with isBlock := false } := Function.update_self _ _ _
      by_cases hd : d = c
      · subst d
        split_ifs with hnil
        · exact .inl ⟨(queue_of_some hcamp).trans hnil, hlive⟩
        · refine guarded_registerTime hcamp (.inl hlive) fun _ _ _ => ?_
          exact ⟨t, hexpires', fun h => absurd rfl h⟩
      · refine (h d hd).of_same (SameCamp.trans (t := { b with army }) ⟨rfl, rfl⟩ ?_)
        split_ifs
        · exact sameCamp_setCamp hd _
        · exact (sameCamp_setCamp hd _).trans (sameCamp_registerTime hd _ _)

/-! Waits come and go one at a time. -/

theorem split_at {α : Type*} {l : List α} {i : ℕ} {a : α} (h : l[i]? = some a) :
    ∃ pre post, l = pre ++ a :: post ∧ l.eraseIdx i = pre ++ post ∧
      ∀ a', l.set i a' = pre ++ a' :: post := by
  obtain ⟨hi, rfl⟩ := List.getElem?_eq_some_iff.mp h
  refine ⟨l.take i, l.drop (i + 1), ?_, List.eraseIdx_eq_take_drop_succ l i, fun a' => ?_⟩
  · rw [← List.drop_eq_getElem_cons hi, List.take_append_drop]
  · rw [List.set_eq_take_append_cons_drop, if_pos hi]

theorem live_replaced {pre post : List Wait} {w : Wait} (mid : List Wait) (hb : b.waits = pre ++ w :: post)
    (hw : ¬ (w.whichCamp = d ∧ w.status ≠ .cancelled))
    (hmid : ∀ v ∈ mid, ¬ (v.whichCamp = d ∧ v.status ≠ .cancelled)) :
    ({ b with waits := pre ++ (mid ++ post) } : Barracks).live d = b.live d := by
  have hnil : (mid.filter fun v => v.whichCamp = d ∧ v.status ≠ .cancelled) = [] :=
    List.filter_eq_nil_iff.mpr fun v hv h => hmid v hv (of_decide_eq_true h)
  rw [live, live, hb, List.filter_append, List.filter_append, List.filter_append, hnil,
    List.nil_append, List.filter_cons, if_neg fun h => hw (of_decide_eq_true h)]

theorem live_alone {pre post : List Wait} {w : Wait} (hb : b.waits = pre ++ w :: post)
    (hlive : b.live d = [w]) (mid : List Wait) :
    ({ b with waits := pre ++ (mid ++ post) } : Barracks).live d =
      mid.filter fun w => w.whichCamp = d ∧ w.status ≠ .cancelled := by
  have hw : w ∈ b.live d := hlive ▸ List.mem_cons_self
  rw [live, hb, List.filter_append, List.filter_cons,
    if_pos (decide_eq_true (mem_live.mp hw).2)] at hlive
  rcases List.append_eq_singleton_iff.mp hlive with ⟨hpre, hpost⟩ | ⟨-, hpost⟩
  · rw [live, List.filter_append, List.filter_append, hpre, (List.cons.inj hpost).2,
      List.nil_append, List.append_nil]
  · exact absurd hpost (List.cons_ne_nil _ _)

end Barracks

namespace Worker
variable {sm : SmallMap} {uid : UInt32} {toIsoString : Option Int → Text}
  {fromIsoString : Text → Int} {bad : WaitStatus → Prop} {s t : Worker}
open Barracks

structure Sound (sm : SmallMap) (bad : WaitStatus → Prop) (s : Worker) : Prop where
  guarded : ∀ c, s.barracks.Guarded sm s.now c
  offline : s.online = false → s.barracks.waits = []
  orphans : ∀ w ∈ s.orphans, ¬ bad w.status

structure Start (s : Worker) : Prop where
  online : s.online = false
  campQueue : s.barracks.campQueue = fun _ => none
  waits : s.barracks.waits = []
  orphans : s.orphans = []

theorem Start.sound (h : s.Start) : s.Sound sm bad := by
  refine ⟨fun c => .inl ⟨?_, ?_⟩, fun _ => h.waits, ?_⟩
  · rw [queue, h.campQueue]
    rfl
  · rw [live, h.waits]
    rfl
  · rw [h.orphans]
    exact fun w hw => absurd hw List.not_mem_nil

theorem Guarded.later {b : Barracks} {c : Text} {now now' : Int} (h : b.Guarded sm now c)
    (hle : now ≤ now') : b.Guarded sm now' c := by
  rcases h with hnone | ⟨q, x, rest, w, hq, hx, hlive, hw⟩
  · exact .inl hnone
  · exact .inr ⟨q, x, rest, w, hq, hx, hlive, hw.later hle⟩

theorem guarded_expire {i : ℕ} (h : ∀ c, s.barracks.Guarded sm s.now c) (ht : s.expire i = some t)
    (c : Text) : t.barracks.Guarded sm s.now c := by
  obtain ⟨w, hw, ht⟩ := Option.bind_eq_some_iff.mp ht
  split_ifs at ht with hpending
  obtain rfl := Option.some.inj ht
  obtain ⟨pre, post, hsplit, -, hset⟩ := split_at hw
  obtain ⟨hstatus, t, hexpiry, hdue⟩ := hpending
  rw [hset]
  by_cases hc : w.whichCamp = c
  · have hmem : w ∈ s.barracks.live c :=
      mem_live.mpr ⟨List.mem_of_getElem? hw, hc, by simp [hstatus]⟩
    obtain ⟨q, x, rest, hq, hx, hlive, hawaits⟩ := (h c).of_mem hmem
    refine .inr ⟨q, x, rest, { w with status := .expired }, hq, hx, ?_,
      hawaits.expired hexpiry hdue⟩
    refine (live_alone hsplit hlive [{ w with status := .expired }]).trans ?_
    simp [hc]
  · refine (h c).of_same ⟨rfl, live_replaced [{ w with status := .expired }] hsplit
      (fun h => hc h.1) ?_⟩
    intro v hv hcv
    rw [List.mem_singleton.mp hv] at hcv
    exact hc hcv.1

theorem guarded_handle {i : ℕ} (h : ∀ c, s.barracks.Guarded sm s.now c)
    (ht : s.handle sm i = some t) (c : Text) : t.barracks.Guarded sm s.now c := by
  obtain ⟨w, hw, ht⟩ := Option.bind_eq_some_iff.mp ht
  obtain ⟨pre, post, hsplit, herase, -⟩ := split_at hw
  rw [herase] at ht
  cases hstatus : w.status with
  | pending =>
    rw [hstatus] at ht
    exact absurd ht.symm (Option.some_ne_none t)
  | cancelled =>
    rw [hstatus] at ht
    obtain rfl := Option.some.inj ht
    refine (h c).of_same ⟨rfl, live_replaced [] hsplit (fun h => h.2 hstatus) ?_⟩
    exact fun v hv => absurd hv List.not_mem_nil
  | expired =>
    rw [hstatus] at ht
    obtain rfl := Option.some.inj ht
    have hmem : w ∈ s.barracks.live w.whichCamp :=
      mem_live.mpr ⟨List.mem_of_getElem? hw, rfl, by simp [hstatus]⟩
    obtain ⟨q, x, rest, hq, hx, hlive, hawaits⟩ := (h w.whichCamp).of_mem hmem
    refine guarded_timeIsUp (b := { s.barracks with waits := pre ++ post })
      (fun d hd => (h d).of_same ⟨rfl, ?_⟩) ?_ (fun q' x' rest' hq' hx' => ?_) c
    · refine live_replaced [] hsplit (fun h => hd h.1.symm) ?_
      exact fun v hv => absurd hv List.not_mem_nil
    · exact live_alone hsplit hlive []
    · obtain rfl := Option.some.inj (hq.symm.trans hq')
      obtain ⟨rfl, rfl⟩ := List.cons.inj (hx.symm.trans hx')
      obtain ⟨since, t', hsince, ht', -, hlong, -⟩ := hawaits.trained
      exact ⟨since, t', hsince, ht', hlong⟩

theorem load_queue (arms : Arms) (now : Int) (q : Camp) {tq : TimerQueue} {x : SoldierInfo}
    {rest : List SoldierInfo} (hx : tq.armysQueue = x :: rest) :
    ∃ rest', (q.load arms now tq).armysQueue = { x with serial := 0 } :: rest' := by
  refine ⟨(rest.zipIdx 1).map fun (e, i) => { e with serial := i }, ?_⟩
  rw [Camp.load, hx]
  rfl

theorem load_trained {arms : Arms} {now : Int} {q : Camp} {tq : TimerQueue} {x : SoldierInfo}
    {rest : List SoldierInfo} (hx : tq.armysQueue = x :: rest)
    (htimer : (tq.isBlock = true ∧ tq.expiresAt = some (now + 30)) ∨
      (tq.isBlock = false ∧ ∃ start, tq.beginBuildTime = some start ∧
        tq.expiresAt = some (start + arms.buildTime x.soldierType x.soldierLevel)))
    (hnonempty : q.armysQueue ≠ [])
    (hblocked : q.isBlock = true → tq.armysQueue =
      ((q.armysQueue.map Entry.toSoldierInfo).map SoldierInfo.text).filterMap parseEntry)
    (htrained : q.Trained arms now) :
    ∃ since t, (q.load arms now tq).since = some since ∧ tq.expiresAt = some t ∧
      since + arms.buildTime x.soldierType x.soldierLevel ≤ t := by
  rcases htimer with ⟨hblock, hexpires⟩ | ⟨hblock, start, hstart, hexpires⟩
  · cases hstored : q.isBlock with
    | false =>
      -- blocked by the loading itself, which found him trained and no room for him
      refine ⟨now - arms.buildTime x.soldierType x.soldierLevel, _, ?_, hexpires, by omega⟩
      simp [Camp.load, hblock, hstored, hx]
    | true =>
      -- blocked when it was stored: then the front is the one he was, who is trained
      rcases hy : q.armysQueue with _ | ⟨y, rest'⟩
      · exact absurd hy hnonempty
      · obtain ⟨hparse, since, hsince, hlong⟩ := htrained hstored y rest' hy
        have hqueue := hblocked hstored
        rw [hx, hy, List.map_cons, List.map_cons, List.filterMap_cons_some hparse] at hqueue
        obtain ⟨rfl, -⟩ := List.cons.inj hqueue
        refine ⟨since, _, Eq.trans ?_ hsince, hexpires, hlong.trans (by omega)⟩
        simp [Camp.load, hblock, hstored, hx, hy]
  · refine ⟨start, _, Eq.trans ?_ hstart, hexpires, le_refl _⟩
    simp [Camp.load, hblock]

theorem quiet_cancel {b : Barracks} {c d : Text} (h : b.Quiet d) : (b.cancel c).Quiet d := by
  intro w' hw' hcamp
  obtain ⟨w, hw, rfl⟩ := List.mem_map.mp hw'
  split_ifs at hcamp ⊢
  · exact fun h => WaitStatus.noConfusion h
  · exact h w hw hcamp

theorem guarded_loadCamp {b : Barracks} {stored : Text → Option Camp} {key : Text} {now : Int}
    (hb : ∀ d, b.Guarded sm now d ∧ b.Quiet d)
    (htrained : ∀ q, stored key = some q → q.Trained sm.arms now) (d : Text) :
    (loadCamp sm toIsoString fromIsoString now stored b key).Guarded sm now d ∧
      (loadCamp sm toIsoString fromIsoString now stored b key).Quiet d := by
  unfold loadCamp
  cases hq : stored key with
  | none => exact hb d
  | some q =>
    dsimp only
    generalize afterLast '#' key = c
    split
    · exact ⟨(hb d).1.of_same ⟨rfl, rfl⟩, (hb d).2⟩
    · next tq htq =>
      obtain ⟨hnonempty, hloaded, hblocked⟩ := newTimerQueueFromRedis_loaded htq
      generalize hu : ({ b with army := _ } : Barracks) = u
      have hsame : ∀ d, SameCamp d b u := fun d => hu ▸ ⟨rfl, rfl⟩
      have hquiet : ∀ d, u.Quiet d := fun d => hu ▸ (hb d).2
      have hcancelled : ((u.cancel c).setCamp c (q.load sm.arms now tq)).live c = [] :=
        live_cancel (hquiet c)
      have hother : ∀ d, d ≠ c → SameCamp d b ((u.cancel c).setCamp c (q.load sm.arms now tq)) :=
        fun d hd => ((hsame d).trans (sameCamp_cancel hd)).trans (sameCamp_setCamp hd _)
      rcases hloaded with ⟨hx, harmed⟩ | ⟨x, rest, hx, harmed, htimer⟩
      · rw [harmed, if_neg Bool.false_ne_true]
        refine ⟨?_, quiet_cancel (hquiet d)⟩
        by_cases hd : d = c
        · subst d
          refine .inl ⟨?_, hcancelled⟩
          rw [setCamp_queue, if_pos rfl, Camp.load, hx]
          rfl
        · exact (hb d).1.of_same (hother d hd)
      · rw [if_pos harmed]
        constructor
        · by_cases hd : d = c
          · subst d
            obtain ⟨since, t, hsince, hexpires, hlong⟩ := load_trained hx htimer
              (fun h => hnonempty (List.map_eq_nil_iff.mpr h)) (fun h => (hblocked h).2)
              (htrained q hq)
            obtain ⟨rest', hqueue⟩ := load_queue sm.arms now q hx
            refine .inr ⟨_, _, rest', ⟨c, 0, tq.expiresAt, .pending⟩, Function.update_self _ _ _,
              hqueue, ?_, rfl, since, t, hsince, hexpires, hexpires, hlong, ?_⟩
            · rw [live_append, hcancelled]
              simp
            · exact fun h => WaitStatus.noConfusion h
          · refine (hb d).1.of_same ((hother d hd).trans ⟨rfl, ?_⟩)
            rw [live_append]
            simp [Ne.symm hd]
        · intro w hw hcamp
          rcases List.mem_append.mp hw with hw | hw
          · exact quiet_cancel (hquiet d) w hw hcamp
          · rw [List.mem_singleton.mp hw]
            exact fun h => WaitStatus.noConfusion h

theorem guarded_login (h : s.Sound sm bad) (hoff : s.online = false) {keys : List Text}
    (htrained : ∀ key ∈ keys, ∀ q, s.stored key = some q → q.Trained sm.arms s.now) (d : Text) :
    (s.login sm toIsoString fromIsoString keys).barracks.Guarded sm s.now d := by
  have hstart : ∀ d, s.barracks.Guarded sm s.now d ∧ s.barracks.Quiet d := by
    intro d
    refine ⟨h.guarded d, fun w hw => ?_⟩
    rw [h.offline hoff] at hw
    exact absurd hw List.not_mem_nil
  suffices ∀ b : Barracks, (∀ d, b.Guarded sm s.now d ∧ b.Quiet d) → ∀ d,
      (keys.foldl (loadCamp sm toIsoString fromIsoString s.now s.stored) b).Guarded sm s.now d ∧
        (keys.foldl (loadCamp sm toIsoString fromIsoString s.now s.stored) b).Quiet d from
    (this s.barracks hstart d).1
  clear hstart
  -- no wait expires while the camps are loaded, one after the other
  induction keys with
  | nil => exact fun b hb d => hb d
  | cons key keys ih =>
    intro b hb d
    refine ih (fun k hk => htrained k (List.mem_cons_of_mem key hk)) _ (fun d => ?_) d
    exact guarded_loadCamp hb (htrained key List.mem_cons_self) d

theorem request_of_some {result : Option Barracks} (ht : s.request result = some t) :
    s.online = true ∧ ∃ b, result = some b ∧ t = { s with barracks := b } := by
  unfold request at ht
  split_ifs at ht with honline
  obtain ⟨b, hb, rfl⟩ := Option.map_eq_some_iff.mp ht
  exact ⟨honline, b, hb, rfl⟩

theorem Sound.request {result : Option Barracks} (h : s.Sound sm bad)
    (ht : s.request result = some t)
    (hguarded : ∀ b, result = some b → ∀ c, b.Guarded sm s.now c) : t.Sound sm bad := by
  obtain ⟨honline, b, hb, rfl⟩ := request_of_some ht
  exact ⟨hguarded b hb, fun hoff => absurd (honline.symm.trans hoff) Bool.false_ne_true.symm,
    h.orphans⟩

theorem sound_step (h : s.Sound sm bad) {e : WorkerEvent} (hC : s.Undisturbed sm bad e)
    (ht : s.step sm uid toIsoString fromIsoString e = some t) : t.Sound sm bad := by
  cases e with
  | login keys =>
    simp only [step] at ht
    split_ifs at ht with honline
    obtain rfl := Option.some.inj ht
    exact ⟨guarded_login h (Bool.eq_false_iff.mpr honline) hC, fun hoff => Bool.noConfusion hoff,
      h.orphans⟩
  | addSoldiers type level num whichCamp =>
    exact h.request ht fun b hb => guarded_addSoldiers h.guarded hb
  | delSoliders type level num whichCamp =>
    exact h.request ht fun b hb => guarded_delSoliders h.guarded hC hb
  | completeAtOnce whichCamp =>
    refine h.request ht fun b hb => ?_
    obtain rfl := Option.some.inj hb
    exact guarded_completeAtOnce h.guarded hC
  | logout =>
    simp only [step] at ht
    split_ifs at ht
    obtain rfl := Option.some.inj ht
    refine ⟨fun c => .inl ⟨rfl, rfl⟩, fun _ => rfl, fun w hw => ?_⟩
    rcases List.mem_append.mp hw with hw | hw
    · exact h.orphans w hw
    · obtain ⟨v, hv, rfl⟩ := List.mem_map.mp hw
      have hv := hC v hv
      split_ifs at hv ⊢ <;> exact hv
  | tick secs =>
    obtain rfl := Option.some.inj ht
    exact ⟨fun c => Guarded.later (h.guarded c) (by simp), h.offline, h.orphans⟩
  | expire i =>
    have hguarded := guarded_expire h.guarded ht
    obtain ⟨w, hw, ht⟩ := Option.bind_eq_some_iff.mp ht
    split_ifs at ht
    obtain rfl := Option.some.inj ht
    refine ⟨hguarded, fun hoff => ?_, h.orphans⟩
    rw [h.offline hoff]
    rfl
  | handle i =>
    have hguarded := guarded_handle h.guarded ht
    obtain ⟨w, hw, ht⟩ := Option.bind_eq_some_iff.mp ht
    have honline : s.online = true := by
      by_contra hoff
      rw [h.offline (Bool.eq_false_iff.mpr hoff)] at hw
      exact absurd hw.symm (Option.some_ne_none w)
    have hsame : t.online = s.online ∧ t.orphans = s.orphans ∧ t.now = s.now := by
      dsimp only at ht
      split at ht
      · exact absurd ht.symm (Option.some_ne_none t)
      all_goals
        obtain rfl := Option.some.inj ht
        exact ⟨rfl, rfl, rfl⟩
    obtain ⟨honline', horphans, hnow⟩ := hsame
    refine ⟨hnow ▸ hguarded, fun hoff => ?_, horphans ▸ h.orphans⟩
    exact absurd (honline.symm.trans (honline'.symm.trans hoff)) Bool.false_ne_true.symm
  | handleOrphan i =>
    simp only [step] at ht
    split_ifs at ht
    obtain rfl := Option.some.inj ht
    exact ⟨h.guarded, h.offline, fun w hw => h.orphans w (List.mem_of_mem_eraseIdx hw)⟩
  | others popu curPopu count places asset combatUnionUid =>
    obtain rfl := Option.some.inj ht
    exact ⟨fun c => (h.guarded c).of_same ⟨rfl, rfl⟩, h.offline, h.orphans⟩
  | otherCamp key q =>
    simp only [step] at ht
    split_ifs at ht
    obtain rfl := Option.some.inj ht
    exact ⟨h.guarded, h.offline, h.orphans⟩

theorem Sound.inTime (h : s.Sound sm bad) (e : WorkerEvent) : s.InTime sm bad e := by
  cases e with
  | handle i =>
    intro w hw hstatus x rest hqueue
    have hmem : w ∈ s.barracks.live w.whichCamp :=
      mem_live.mpr ⟨List.mem_of_getElem? hw, rfl, by simp [hstatus]⟩
    obtain ⟨q, y, rest', hq, hy, -, hawaits⟩ := (h.guarded w.whichCamp).of_mem hmem
    obtain ⟨rfl, rfl⟩ := List.cons.inj (hqueue.symm.trans ((queue_of_some hq).trans hy))
    obtain ⟨since, t, hsince, -, -, hlong, hexp⟩ := hawaits.trained
    exact ⟨hawaits.serial, q, since, hq, hsince, hlong.trans (hexp hstatus)⟩
  | handleOrphan i => exact fun w hw => h.orphans w (List.mem_of_getElem? hw)
  | _ => trivial

/-- As long as nobody disturbs the waits, every handler that succeeds comes for the soldier at the
front when he has been trained, and none that is `bad` is left when a queue is destroyed. -/
theorem inTime_run (sm : SmallMap) (uid : UInt32) (toIsoString : Option Int → Text)
    (fromIsoString : Text → Int) (bad : WaitStatus → Prop) {s : Worker} (hs : s.Start)
    (es : List WorkerEvent)
    (hC : Run.EachStep (step sm uid toIsoString fromIsoString) (Undisturbed sm bad) s es) :
    Run.EachStep (step sm uid toIsoString fromIsoString) (InTime sm bad) s es :=
  hC.of_kept (fun _ _ _ h hC ht => sound_step h hC ht) (fun _ e h _ => h.inTime e) hs.sound

def barrack : SmallMap :=
  { table := [[], [⟨⟨0, 0⟩, fun _ => 0⟩, ⟨⟨1, 60⟩, fun _ => 0⟩, ⟨⟨1, 3600⟩, fun _ => 0⟩]] }

theorem start_offline : Start {} := ⟨rfl, rfl, rfl, rfl⟩

theorem inTime_run_one : Run.EachStep (step barrack 1 (fun _ => []) fun _ => 0)
    (InTime barrack fun _ => True) {}
    [.login [], .addSoldiers 1 1 1 "a".toList, .tick 60, .expire 0, .handle 0, .logout] := by
  refine inTime_run barrack 1 _ _ _ start_offline _ fun t ht => ⟨?_, ?_⟩
  · exact fun key hkey => absurd hkey List.not_mem_nil
  · obtain rfl := Option.some.inj ht
    refine fun t ht => ⟨trivial, fun u hu => ⟨trivial, fun v hv => ⟨trivial, fun w hw => ⟨trivial,
      fun _ _ => ⟨?_, trivial⟩⟩⟩⟩⟩
    obtain rfl := Option.some.inj ht
    obtain rfl := Option.some.inj hu
    obtain rfl := Option.some.inj hv
    obtain rfl := Option.some.inj hw
    exact fun w hw => absurd hw List.not_mem_nil

/-- The soldier of level 1 is taken back when his wait has expired, and the soldier of level 2 is
there at once. -/
theorem not_inTime_deleted :
    ¬ ∀ (sm : SmallMap) (uid : UInt32) (toIsoString : Option Int → Text)
      (fromIsoString : Text → Int) (s : Worker), s.Start → ∀ es : List WorkerEvent,
        Run.EachStep (step sm uid toIsoString fromIsoString) (InTime sm fun _ => True) s es := by
  intro h
  have hrun := h barrack 1 (fun _ => []) (fun _ => 0) {} start_offline
    ([.login [], .addSoldiers 1 1 1 "a".toList, .addSoldiers 1 2 1 "a".toList, .tick 60, .expire 0,
      .delSoliders 1 1 1 "a".toList] ++ [.handle 0])
  have hlast := (hrun.of_exec rfl) _ rfl
  have hserial := (hlast.1 _ rfl rfl ⟨⟨1, 2, 1⟩, 1⟩ [] rfl).1
  exact absurd hserial (by decide)

end Worker

end IceBridge.Army
