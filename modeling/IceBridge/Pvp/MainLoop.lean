import IceBridge.Pvp.Tables
import IceBridge.Pvp.Timer

/-! The main loop of the pvp worker (`pvpServer.cpp`). The thread that receives messages puts them
into a queue, and the main thread handles those it finds there when a tick has passed. -/

namespace IceBridge.Pvp

/-- Where the main thread is: before `poll`, before it has asked for the size of the queue, or in
the loop of `handleMsg` with so many messages to go. -/
inductive Stage
  | polling
  | sizing
  | handling (left : ℕ)

/-- `pushed` and `handled` are all messages that were put into the queue and taken from it, `trace`
is what the server was made to do, and `begun` the world time when the battle of a defender
began. -/
structure World where
  server : PvpServer
  timer : Timer
  worldTime : Int := 0
  msgQueue : List PvpEvent := []
  stage : Stage := .polling
  pushed : List PvpEvent := []
  handled : List PvpEvent := []
  trace : List PvpEvent := []
  begun : UInt32 → Int := fun _ => 0

inductive WorldEvent
  | push (msg : PvpEvent)
  | poll (now : UInt64)
  | size
  | handle
  | update

def PvpEvent.isMsg : PvpEvent → Bool
  | .updateBattleMaps => false
  | _ => true

namespace World

def start (point : UInt32 → Int) (now : UInt64) : World :=
  { server := { point := point }
    timer := ({ interval := 100, lastpulse := now, active := false } : Timer).start now }

/-- A `break` in this branch leaves the loop over the messages: the attacker of a battle that is
gone logs out. -/
def breaks (s : PvpServer) : PvpEvent → Bool
  | .logout uid => s.isAttackerOrDefender uid = 2 ∧ s.getBattleMap (s.getPeerUid uid) = none
  | _ => false

/-- `pop` on an empty queue throws, and nothing catches it. -/
def handle (x : World) (left : ℕ) : Option World :=
  match x.msgQueue with
  | [] => none
  | msg :: rest => (x.server.step msg).map fun server => { x with
      server := server
      msgQueue := rest
      stage := if breaks x.server msg then .handling 0 else .handling left
      handled := x.handled ++ [msg]
      trace := x.trace ++ [msg]
      begun := fun d =>
        if (x.server.getBattleMap d).isNone ∧ (server.getBattleMap d).isSome then x.worldTime
        else x.begun d }

def step (x : World) : WorldEvent → Option World
  | .push msg =>
    if msg.isMsg then some { x with msgQueue := x.msgQueue ++ [msg], pushed := x.pushed ++ [msg] }
    else none
  | .poll now =>
    match x.stage with
    | .polling => (x.timer.poll now).map fun (elapsed, timer) =>
        if 0 < elapsed.toInt then
          { x with timer := timer, worldTime := x.worldTime + elapsed.toInt, stage := .sizing }
        else { x with timer := timer }
    | _ => none
  | .size =>
    match x.stage with
    | .sizing => some { x with stage := .handling x.msgQueue.length }
    | _ => none
  | .handle =>
    match x.stage with
    | .handling (left + 1) => x.handle left
    | _ => none
  | .update =>
    match x.stage with
    | .handling 0 => some { x with
        server := x.server.updateBattleMaps
        stage := .polling
        trace := x.trace ++ [.updateBattleMaps] }
    | _ => none

end World

/-! ## The age of a battle -/

theorem BattleMap.buildingDied_ticks (b : BattleMap) (body : ObjectDie) :
    (b.buildingDied body).ticks = b.ticks := by
  unfold buildingDied
  cases body.isTownhall <;> cases body.buildingType <;> cases body.curRes <;> rfl

namespace PvpServer
variable {s t u : PvpServer} {e : PvpEvent} {d : UInt32} {b : BattleMap}

def NotOlder (s t : PvpServer) : Prop :=
  ∀ (d : UInt32) (b : BattleMap), t.getBattleMap d = some b →
    ∃ old, s.getBattleMap d = some old ∧ b.ticks = old.ticks

theorem notOlder_of_eq (h : ∀ d, t.getBattleMap d = s.getBattleMap d) : NotOlder s t := by
  intro d b hb
  rw [h d] at hb
  exact ⟨b, hb, rfl⟩

theorem NotOlder.setBattleMap (h : NotOlder s t) {b' : BattleMap} (hb : s.getBattleMap d = some b)
    (hticks : b'.ticks = b.ticks) : NotOlder s (t.setBattleMap d b') := by
  intro v new hnew
  rw [setBattleMap_getBattleMap] at hnew
  split_ifs at hnew with hv
  · rw [hv, ← Option.some.inj hnew]
    exact ⟨b, hb, hticks⟩
  · exact h v new hnew

theorem NotOlder.deinitializeBattleMap (h : NotOlder s t) (d : UInt32) :
    NotOlder s (t.deinitializeBattleMap d) := by
  intro v new hnew
  rw [deinitializeBattleMap_getBattleMap] at hnew
  split_ifs at hnew
  exact h v new hnew

theorem NotOlder.retreat (h : NotOlder s t) (uid peerUid : UInt32) (withLoot : Bool) :
    NotOlder s (t.retreat uid peerUid withLoot) := by
  unfold PvpServer.retreat
  split
  · exact h
  · exact NotOlder.deinitializeBattleMap h peerUid

theorem notOlder_relayTo (uid : UInt32) (request : Relay) (checksPeer acks : Bool) :
    NotOlder s (s.relayTo uid request checksPeer acks) := by
  apply notOlder_of_eq
  intro d
  unfold relayTo
  cases acks <;> dsimp only <;> split_ifs <;> rfl

theorem notOlder_startAttack {uid peerUid : UInt32}
    (hb : (s.startAttack uid peerUid).getBattleMap d = some b) :
    (∃ old, s.getBattleMap d = some old ∧ b.ticks = old.ticks) ∨
      (s.getBattleMap d = none ∧ b.ticks = 0) := by
  unfold startAttack at hb
  split at hb
  · exact .inl ⟨b, hb, rfl⟩
  · rename_i hnone
    have hinsert := (insertBattleMap_of_none hnone (BattleMap.init uid peerUid s.point)).2 d
    rw [sendToPlayer_getBattleMap, sendToPlayer_getBattleMap, hinsert] at hb
    split_ifs at hb with hd
    · rw [hd, ← Option.some.inj hb]
      exact .inr ⟨hnone, rfl⟩
    · exact .inl ⟨b, hb, rfl⟩

theorem notOlder_of_step (hmsg : e.isMsg = true) (hattack : ∀ uid peerUid, e ≠ .startAttack uid peerUid)
    (ht : s.step e = some t) : NotOlder s t := by
  have hrefl : NotOlder s s := notOlder_of_eq fun _ => rfl
  cases e with
  | startAttack uid peerUid => exact absurd rfl (hattack uid peerUid)
  | updateBattleMaps => cases hmsg
  | login uid peerUid =>
    rw [← Option.some.inj ht]
    unfold login
    dsimp only
    split
    · exact hrefl
    · rename_i battle hbattle
      exact NotOlder.setBattleMap (notOlder_of_eq fun _ => rfl) hbattle rfl
  | logout uid =>
    rw [← Option.some.inj ht]
    unfold logout
    dsimp only
    split_ifs
    · exact hrefl
    · exact NotOlder.retreat (notOlder_of_eq fun _ => rfl) _ _ _
    · exact hrefl
  | objectDie uid body =>
    simp only [step, objectDie] at ht
    split_ifs at ht
    · rw [← Option.some.inj ht]
      exact hrefl
    · rcases Option.map_eq_some_iff.mp ht with ⟨battle, hbattle, rfl⟩
      exact NotOlder.setBattleMap (notOlder_of_eq fun _ => rfl) hbattle
        (battle.buildingDied_ticks body)
    · rw [← Option.some.inj ht]
      exact hrefl
  | relay uid request =>
    rw [← Option.some.inj ht]
    cases request <;> exact notOlder_relayTo uid _ _ _
  | dfderIsready uid =>
    rw [← Option.some.inj ht]
    unfold dfderIsready
    dsimp only
    split_ifs
    · exact hrefl
    · split
      · exact hrefl
      · rename_i battle hbattle
        exact NotOlder.setBattleMap hrefl hbattle rfl
  | atkerStopBattle uid =>
    rw [← Option.some.inj ht]
    exact NotOlder.retreat (notOlder_of_eq fun _ => rfl) _ _ _
  | notUnpacked uid =>
    rw [← Option.some.inj ht]
    exact hrefl

theorem ticks_of_step (hmsg : e.isMsg = true) (ht : s.step e = some t)
    (hb : t.getBattleMap d = some b) :
    (∃ old, s.getBattleMap d = some old ∧ b.ticks = old.ticks) ∨
      (s.getBattleMap d = none ∧ b.ticks = 0) := by
  by_cases hattack : ∃ uid peerUid, e = .startAttack uid peerUid
  · rcases hattack with ⟨uid, peerUid, rfl⟩
    rw [← Option.some.inj ht] at hb
    exact notOlder_startAttack hb
  · have hother : ∀ uid peerUid, e ≠ .startAttack uid peerUid :=
      fun uid peerUid he => hattack ⟨uid, peerUid, he⟩
    exact .inl (notOlder_of_step hmsg hother ht d b hb)

theorem ticks_of_updateBattleMaps (hb : s.updateBattleMaps.getBattleMap d = some b) :
    ∃ old, s.getBattleMap d = some old ∧ b.ticks ≤ old.ticks + 1 := by
  rw [updateBattleMaps_getBattleMap] at hb
  rcases Option.bind_eq_some_iff.mp hb with ⟨old, hold, hticked⟩
  refine ⟨old, hold, ?_⟩
  unfold BattleMap.ticked at hticked
  split_ifs at hticked
  · rw [Option.some.inj hticked]
    exact Nat.le_succ _
  · rw [← Option.some.inj hticked]
    exact le_rfl

theorem ticks_of_over (hold : s.getBattleMap d = some b)
    (hover : s.updateBattleMaps.getBattleMap d = none) : 3000 ≤ b.ticks + 1 := by
  rw [updateBattleMaps_getBattleMap, hold, Option.bind_some] at hover
  unfold BattleMap.ticked at hover
  split_ifs at hover with hstart hlast
  exact hlast.trans (Nat.mod_le _ _)

end PvpServer

/-! ## Runs of the loop -/

namespace World
variable {point : UInt32 → Int} {x y : World} {e : WorldEvent}

def rounds (x : World) : ℕ := x.trace.countP fun e => !e.isMsg

def underWay (x : World) : ℤ :=
  match x.stage with
  | .polling => 0
  | _ => 1

structure Kept (point : UInt32 → Int) (x : World) : Prop where
  queue : x.pushed = x.handled ++ x.msgQueue
  msgs : ∀ msg ∈ x.pushed, msg.isMsg = true
  enough : ∀ left, x.stage = .handling left → left ≤ x.msgQueue.length
  refines : Run.exec PvpServer.step { point := point } x.trace = some x.server
  handled : x.trace.filter PvpEvent.isMsg = x.handled
  rounds : x.rounds + x.underWay ≤ x.worldTime
  age : ∀ d b, x.server.getBattleMap d = some b →
    (b.ticks : ℤ) ≤ x.worldTime - x.begun d + 1 - x.underWay

theorem Kept.push {msg : PvpEvent} (h : Kept point x) (hmsg : msg.isMsg = true) :
    Kept point { x with msgQueue := x.msgQueue ++ [msg], pushed := x.pushed ++ [msg] } := by
  refine ⟨?_, fun m hm => ?_, fun left hleft => ?_, h.refines, h.handled, h.rounds, h.age⟩
  · rw [h.queue, List.append_assoc]
  · rcases List.mem_append.mp hm with hold | hnew
    · exact h.msgs m hold
    · rw [List.mem_singleton.mp hnew]
      exact hmsg
  · rw [List.length_append]
    exact Nat.le_add_right_of_le (h.enough left hleft)

theorem Kept.poll {now : UInt64} (h : Kept point x) (hy : x.step (.poll now) = some y) :
    Kept point y := by
  simp only [step] at hy
  split at hy
  case h_2 => cases hy
  case h_1 hstage =>
    rcases Option.map_eq_some_iff.mp hy with ⟨⟨elapsed, timer⟩, -, rfl⟩
    have hway : x.underWay = 0 := by
      unfold underWay
      rw [hstage]
    have hrounds := h.rounds
    rw [hway] at hrounds
    dsimp only
    split_ifs with helapsed
    · refine ⟨h.queue, h.msgs, fun left hleft => (by cases hleft), h.refines, h.handled, ?_,
        fun d b hb => ?_⟩
      · change (x.rounds : ℤ) + 1 ≤ x.worldTime + elapsed.toInt
        omega
      · have hage := h.age d b hb
        rw [hway] at hage
        change (b.ticks : ℤ) ≤ x.worldTime + elapsed.toInt - x.begun d + 1 - 1
        omega
    · exact ⟨h.queue, h.msgs, h.enough, h.refines, h.handled, h.rounds, h.age⟩

theorem Kept.handle {left : ℕ} (h : Kept point x) (hstage : x.stage = .handling (left + 1))
    (hy : x.handle left = some y) : Kept point y := by
  unfold World.handle at hy
  split at hy
  case h_1 => cases hy
  case h_2 msg rest hqueue =>
    rcases Option.map_eq_some_iff.mp hy with ⟨server, hstep, rfl⟩
    have hway : x.underWay = 1 := by
      unfold underWay
      rw [hstage]
    have hmsg : msg.isMsg = true := by
      apply h.msgs
      rw [h.queue, hqueue]
      exact List.mem_append_right _ List.mem_cons_self
    have henough := h.enough _ hstage
    rw [hqueue, List.length_cons] at henough
    set stage := if breaks x.server msg then Stage.handling 0 else .handling left with hnext
    -- whether or not the loop over the messages is left
    have hhandling : ∃ n, stage = .handling n ∧ n ≤ left := by
      rw [hnext]
      split_ifs
      · exact ⟨0, rfl, Nat.zero_le left⟩
      · exact ⟨left, rfl, le_rfl⟩
    rcases hhandling with ⟨n, hn, hle⟩
    have hway' : ∀ z : World, z.stage = stage → z.underWay = 1 := by
      intro z hz
      unfold underWay
      rw [hz, hn]
    refine ⟨?_, h.msgs, fun m hm => ?_, Run.exec_concat h.refines hstep, ?_, ?_, fun d b hb => ?_⟩
    · rw [h.queue, hqueue, List.append_assoc]
      rfl
    · have heq : Stage.handling n = .handling m := hn.symm.trans hm
      rw [← (Stage.handling.injEq n m).mp heq]
      exact hle.trans (Nat.le_of_succ_le_succ henough)
    · rw [List.filter_append, h.handled, List.filter_singleton, hmsg]
      rfl
    · have hrounds := h.rounds
      rw [hway] at hrounds
      rw [hway' _ rfl]
      have hsame : (x.trace ++ [msg]).countP (fun e => !e.isMsg) = x.rounds := by
        rw [List.countP_append, List.countP_singleton, hmsg]
        rfl
      unfold World.rounds
      rw [hsame]
      exact hrounds
    · rw [hway' _ rfl]
      change (b.ticks : ℤ) ≤ x.worldTime - (if (x.server.getBattleMap d).isNone ∧
        (server.getBattleMap d).isSome then x.worldTime else x.begun d) + 1 - 1
      rcases PvpServer.ticks_of_step hmsg hstep hb with ⟨old, hold, hticks⟩ | ⟨hnone, hticks⟩
      · have hage := h.age d old hold
        rw [hway] at hage
        rw [hold, hticks, if_neg (fun hnone => Bool.false_ne_true hnone.1)]
        exact hage
      · rw [hnone, hb, if_pos ⟨rfl, rfl⟩, hticks]
        omega

theorem Kept.update (h : Kept point x) (hstage : x.stage = .handling 0) :
    Kept point { x with
      server := x.server.updateBattleMaps
      stage := .polling
      trace := x.trace ++ [.updateBattleMaps] } := by
  have hway : x.underWay = 1 := by
    unfold underWay
    rw [hstage]
  refine ⟨h.queue, h.msgs, fun left hleft => (by cases hleft), Run.exec_concat h.refines rfl, ?_, ?_,
    fun d b hb => ?_⟩
  · rw [List.filter_append, h.handled]
    exact List.append_nil _
  · have hrounds := h.rounds
    rw [hway] at hrounds
    have hnext : (x.trace ++ [PvpEvent.updateBattleMaps]).countP (fun e => !e.isMsg) =
        x.rounds + 1 := by
      rw [List.countP_append]
      rfl
    unfold World.rounds
    rw [hnext]
    change ((x.rounds + 1 : ℕ) : ℤ) + 0 ≤ x.worldTime
    omega
  · rcases PvpServer.ticks_of_updateBattleMaps hb with ⟨old, hold, hticks⟩
    have hage := h.age d old hold
    rw [hway] at hage
    change (b.ticks : ℤ) ≤ x.worldTime - x.begun d + 1 - 0
    omega

theorem Kept.step (h : Kept point x) (hy : x.step e = some y) : Kept point y := by
  cases e with
  | push msg =>
    simp only [World.step] at hy
    split_ifs at hy with hmsg
    rw [← Option.some.inj hy]
    exact h.push hmsg
  | poll now => exact h.poll hy
  | size =>
    simp only [World.step] at hy
    split at hy
    case h_2 => cases hy
    case h_1 hstage =>
      rw [← Option.some.inj hy]
      have hway : x.underWay = 1 := by
        unfold underWay
        rw [hstage]
      have hrounds := h.rounds
      have hage := h.age
      rw [hway] at hrounds hage
      refine ⟨h.queue, h.msgs, fun left hleft => ?_, h.refines, h.handled, hrounds, hage⟩
      rw [← (Stage.handling.injEq _ _).mp hleft]
  | handle =>
    simp only [World.step] at hy
    split at hy
    case h_2 => cases hy
    case h_1 left hstage => exact h.handle hstage hy
  | update =>
    simp only [World.step] at hy
    split at hy
    case h_2 => cases hy
    case h_1 hstage =>
      rw [← Option.some.inj hy]
      exact h.update hstage

theorem kept_start (point : UInt32 → Int) (now : UInt64) : Kept point (start point now) := by
  refine ⟨rfl, fun msg hmsg => absurd hmsg List.not_mem_nil, fun left hleft => (by cases hleft), rfl,
    rfl, le_rfl, fun d b hb => ?_⟩
  have hnone : (start point now).server.getBattleMap d = none := AList.lookup_empty d
  rw [hnone] at hb
  cases hb

/-- The messages are handled once each and in order, `pop` finds one whenever it is called, and
the server goes through a run of its own steps, with no more updates than ticks of world time. -/
structure RunsServer (point : UInt32 → Int) (x : World) : Prop where
  once : x.pushed = x.handled ++ x.msgQueue
  never_throws : ∀ left, x.stage = .handling (left + 1) → x.msgQueue ≠ []
  refines : Run.exec PvpServer.step { point := point } x.trace = some x.server
  inOrder : x.trace.filter PvpEvent.isMsg = x.handled
  ticks : (x.rounds : ℤ) ≤ x.worldTime

theorem Kept.runsServer (h : Kept point x) : RunsServer point x := by
  refine ⟨h.queue, fun left hstage hnil => ?_, h.refines, h.handled, ?_⟩
  · have henough := h.enough _ hstage
    rw [hnil] at henough
    exact absurd henough (Nat.not_succ_le_zero left)
  · have hrounds := h.rounds
    have hway : 0 ≤ x.underWay := by
      unfold underWay
      split <;> decide
    omega

/-- Whenever the messages come and whatever the clock shows. -/
theorem runs_server (point : UInt32 → Int) (now : UInt64) (events : List WorldEvent) :
    Run.Always step (RunsServer point) (start point now) events :=
  (Run.always_of_invariant (fun _ _ _ h hy => Kept.step h hy) (kept_start point now) events).mono
    fun _ h => h.runsServer

def TimesOut (x : World) (d : UInt32) : Prop :=
  (x.server.getBattleMap d).isSome = true ∧ x.server.updateBattleMaps.getBattleMap d = none

theorem Kept.timesOut {d : UInt32} (h : Kept point x) (hstage : x.stage = .handling 0)
    (hover : x.TimesOut d) : x.begun d + 2999 ≤ x.worldTime := by
  rcases Option.isSome_iff_exists.mp hover.1 with ⟨b, hb⟩
  have hticks : 3000 ≤ b.ticks + 1 := PvpServer.ticks_of_over hb hover.2
  have hage := h.age d b hb
  unfold underWay at hage
  rw [hstage] at hage
  change (b.ticks : ℤ) ≤ x.worldTime - x.begun d + 1 - 1 at hage
  omega

/-- No battle is ended for its time before world time has gone on by 2999 since it began. -/
theorem lasts (point : UInt32 → Int) (now : UInt64) (events : List WorldEvent) :
    Run.Always step (fun x => x.stage = .handling 0 → ∀ d, x.TimesOut d →
      x.begun d + 2999 ≤ x.worldTime) (start point now) events := by
  have hkept : Run.Always step (Kept point) (start point now) events :=
    Run.always_of_invariant (fun _ _ _ h hy => Kept.step h hy) (kept_start point now) events
  apply hkept.mono
  intro x hx hstage d hover
  exact hx.timesOut hstage hover

end World

end IceBridge.Pvp
