import IceBridge.Lib.Pulse
import IceBridge.Lib.Run
import Mathlib.Data.UInt

/-! The timer of the pvp worker (`Timer.cpp`). Times are milliseconds in 64 bits, while an interval
and a number of ticks have 32. -/

namespace IceBridge.Pvp

structure Timer where
  interval : UInt32
  lastpulse : UInt64
  active : Bool := true

namespace Timer

def start (t : Timer) (now : UInt64) : Timer := { t with active := true, lastpulse := now }

def stop (t : Timer) : Timer := { t with active := false }

def changeInterval (t : Timer) (newinterval : UInt32) : Timer := { t with interval := newinterval }

def poll (t : Timer) (now : UInt64) : Option (Int32 × Timer) :=
  if t.active then
    if t.lastpulse < now then
      if t.interval = 0 then none
      else
        let elapsed := ((now - t.lastpulse) / t.interval.toUInt64).toUInt32
        some (elapsed.toInt32,
          { t with lastpulse := t.lastpulse + (t.interval * elapsed).toUInt64 })
    else some (0, { t with lastpulse := now })
  else some (0, t)

def sleep (t : Timer) (now : UInt64) : Option UInt64 :=
  if t.active = false then none
  else if t.interval.toUInt64 ≤ now - t.lastpulse then none
  else some ((t.interval.toUInt64 - (now - t.lastpulse)) * (1000 * 1000))

end Timer

/-- A timer in use. `count` is what `poll` has returned, in sum, for the whole intervals since
`base`, when the counting began: with `start`, with another interval or, the clock being behind
the last pulse, with the call that finds it so. -/
structure Ticking where
  timer : Timer
  base : UInt64
  count : Int := 0
  /-- The clock in the last call of `poll` or `start` -/
  now : UInt64

inductive TimerEvent
  | poll (now : UInt64)
  | start (now : UInt64)
  | stop
  | changeInterval (newinterval : UInt32)

namespace Ticking

def step (s : Ticking) : TimerEvent → Option Ticking
  | .poll now => (s.timer.poll now).map fun (elapsed, timer) =>
      if s.timer.active ∧ now < s.timer.lastpulse then
        { timer := timer, base := now, count := 0, now := now }
      else { timer := timer, base := s.base, count := s.count + elapsed.toInt, now := now }
  | .start now => some { timer := s.timer.start now, base := now, count := 0, now := now }
  | .stop => some { s with timer := s.timer.stop }
  | .changeInterval newinterval => some { s with
      timer := s.timer.changeInterval newinterval
      base := s.timer.lastpulse
      count := 0 }

end Ticking

namespace Timer
variable {t : Timer} {now : UInt64}

/-- Without an overflow `poll` counts the whole intervals since the last pulse. -/
theorem poll_eq (hactive : t.active = true) (hpos : t.interval ≠ 0) (hlt : t.lastpulse < now)
    (hnear : now.toNat < t.lastpulse.toNat + 2 ^ 31) :
    ∃ (elapsed : Int32) (pulse : UInt64), t.poll now = some (elapsed, { t with lastpulse := pulse }) ∧
      elapsed.toInt = Pulse.elapsed t.interval.toNat t.lastpulse.toNat now.toNat ∧
      pulse.toNat = Pulse.next t.interval.toNat t.lastpulse.toNat now.toNat := by
  have hlt' : t.lastpulse.toNat < now.toNat := UInt64.lt_iff_toNat_lt.mp hlt
  have hpos' : 0 < t.interval.toNat := by
    apply Nat.pos_of_ne_zero
    exact fun hzero => hpos (UInt32.toNat_inj.mp hzero)
  set gap := now.toNat - t.lastpulse.toNat with hgap
  have hsub : (now - t.lastpulse).toNat = gap := UInt64.toNat_sub_of_le _ _ (UInt64.le_of_lt hlt)
  have hquot : ((now - t.lastpulse) / t.interval.toUInt64).toNat = gap / t.interval.toNat := by
    rw [UInt64.toNat_div, hsub, UInt32.toNat_toUInt64]
  have hle : gap / t.interval.toNat ≤ gap := Nat.div_le_self _ _
  have hmul : t.interval.toNat * (gap / t.interval.toNat) ≤ gap := Nat.mul_div_le _ _
  set elapsed := ((now - t.lastpulse) / t.interval.toUInt64).toUInt32 with helapsed
  have hnat : elapsed.toNat = gap / t.interval.toNat := by
    rw [helapsed, UInt64.toNat_toUInt32, hquot]
    apply Nat.mod_eq_of_lt
    omega
  have hpulses : (t.interval * elapsed).toUInt64.toNat =
      t.interval.toNat * (gap / t.interval.toNat) := by
    rw [UInt32.toNat_toUInt64, UInt32.toNat_mul, hnat]
    apply Nat.mod_eq_of_lt
    omega
  refine ⟨elapsed.toInt32, t.lastpulse + (t.interval * elapsed).toUInt64, ?_, ?_, ?_⟩
  · unfold poll
    rw [if_pos hactive, if_pos hlt, if_neg hpos]
  · change elapsed.toBitVec.toInt = _
    rw [BitVec.toInt_eq_toNat_bmod, UInt32.toNat_toBitVec, hnat, Pulse.elapsed, ← hgap]
    apply Int.bmod_eq_of_le <;> omega
  · rw [UInt64.toNat_add, hpulses, Pulse.next, Pulse.elapsed, ← hgap]
    apply Nat.mod_eq_of_lt
    have hnow := now.toNat_lt
    omega

end Timer

namespace Ticking
variable {s t : Ticking} {e : TimerEvent}

/-- No look at the clock comes half of the range of `int`, near 25 days, after the last pulse. -/
def Near (s : Ticking) : TimerEvent → Prop
  | .poll now => now.toNat < s.timer.lastpulse.toNat + 2 ^ 31
  | _ => True

structure InStep (s : Ticking) : Prop where
  last : ∃ count : ℕ, s.count = count ∧
    s.timer.lastpulse.toNat = s.base.toNat + s.timer.interval.toNat * count
  none : s.timer.interval = 0 → s.count = 0

theorem inStep_of_count (hbase : s.base = s.timer.lastpulse) (hcount : s.count = 0) : InStep s := by
  refine ⟨⟨0, hcount, ?_⟩, fun _ => hcount⟩
  rw [hbase, Nat.mul_zero, Nat.add_zero]

def AllCounted (s : Ticking) : Prop :=
  s.count = ((s.now.toNat - s.base.toNat) / s.timer.interval.toNat : ℕ)

theorem InStep.allCounted (h : InStep s) (hnow : s.now = s.timer.lastpulse) : AllCounted s := by
  rcases h.last with ⟨count, hcount, hlast⟩
  unfold AllCounted
  rw [hnow, hlast, Nat.add_sub_cancel_left]
  by_cases hzero : s.timer.interval = 0
  · rw [h.none hzero, hzero, UInt32.toNat_zero, Nat.div_zero]
    rfl
  · have hpos : 0 < s.timer.interval.toNat := by
      apply Nat.pos_of_ne_zero
      exact fun heq => hzero (UInt32.toNat_inj.mp heq)
    rw [Nat.mul_div_cancel_left count hpos, hcount]

theorem poll_behind {timer : Timer} {now : UInt64} (hactive : timer.active = true)
    (hbehind : ¬ timer.lastpulse < now) : timer.poll now = some (0, { timer with lastpulse := now }) := by
  unfold Timer.poll
  rw [if_pos hactive, if_neg hbehind]

theorem InStep.poll {now : UInt64} (h : InStep s) (hactive : s.timer.active = true)
    (hnear : Near s (.poll now)) (ht : s.step (.poll now) = some t) : InStep t ∧ AllCounted t := by
  simp only [step] at ht
  rcases Option.map_eq_some_iff.mp ht with ⟨⟨elapsed, timer⟩, hpoll, rfl⟩
  by_cases hlt : s.timer.lastpulse < now
  case neg =>
    rw [poll_behind hactive hlt] at hpoll
    obtain ⟨rfl, rfl⟩ := Prod.mk.inj (Option.some.inj hpoll)
    by_cases hback : now < s.timer.lastpulse
    · dsimp only
      rw [if_pos ⟨hactive, hback⟩]
      have hin : InStep { timer := { s.timer with lastpulse := now }, base := now, now := now } :=
        inStep_of_count rfl rfl
      exact ⟨hin, hin.allCounted rfl⟩
    · -- the clock still shows the last pulse
      have hsame : s.timer.lastpulse = now :=
        UInt64.le_antisymm (UInt64.not_lt.mp hback) (UInt64.not_lt.mp hlt)
      simp only [hback, and_false, if_false]
      have hin : InStep { timer := { s.timer with lastpulse := now }, base := s.base,
                          count := s.count + (0 : Int32).toInt, now := now } := by
        have hsum : s.count + (0 : Int32).toInt = s.count := Int.add_zero _
        rcases h.last with ⟨count, hcount, hlast⟩
        rw [hsame] at hlast
        exact ⟨⟨count, hsum.trans hcount, hlast⟩, fun hzero => hsum.trans (h.none hzero)⟩
      exact ⟨hin, hin.allCounted rfl⟩
  case pos =>
    have hnot : ¬ now < s.timer.lastpulse := UInt64.not_lt.mpr (UInt64.le_of_lt hlt)
    have hpos : s.timer.interval ≠ 0 := by
      intro hzero
      unfold Timer.poll at hpoll
      rw [if_pos hactive, if_pos hlt, if_pos hzero] at hpoll
      cases hpoll
    rcases Timer.poll_eq hactive hpos hlt hnear with ⟨elapsed', pulse, heq, helapsed, hpulse⟩
    rw [heq] at hpoll
    obtain ⟨rfl, rfl⟩ := Prod.mk.inj (Option.some.inj hpoll)
    rcases h.last with ⟨count, hcount, hlast⟩
    have hinterval : 0 < s.timer.interval.toNat := by
      apply Nat.pos_of_ne_zero
      exact fun hzero => hpos (UInt32.toNat_inj.mp hzero)
    have hcounted := Pulse.counted_next hinterval hlast
      (Nat.le_of_lt (UInt64.lt_iff_toNat_lt.mp hlt))
    simp only [hnot, and_false, if_false]
    refine ⟨⟨⟨_, ?_, hpulse.trans hcounted.last_eq⟩, fun hzero => absurd hzero hpos⟩, ?_⟩
    · rw [hcount, helapsed]
      rfl
    · unfold AllCounted
      rw [hcount, helapsed, ← hcounted.count_eq]
      rfl

theorem inStep_step (h : InStep s) (hnear : Near s e) (ht : s.step e = some t) : InStep t := by
  cases e with
  | poll now =>
    cases hactive : s.timer.active with
    | true => exact (h.poll hactive hnear ht).1
    | false =>
      simp only [step, Timer.poll, hactive] at ht
      obtain rfl := Option.some.inj ht
      have hsum : s.count + (0 : Int32).toInt = s.count := Int.add_zero _
      rcases h.last with ⟨count, hcount, hlast⟩
      exact ⟨⟨count, hsum.trans hcount, hlast⟩, fun hzero => hsum.trans (h.none hzero)⟩
  | start now =>
    obtain rfl := Option.some.inj ht
    exact inStep_of_count rfl rfl
  | stop =>
    obtain rfl := Option.some.inj ht
    exact ⟨h.last, h.none⟩
  | changeInterval newinterval =>
    obtain rfl := Option.some.inj ht
    exact inStep_of_count rfl rfl

def create (ms : UInt32) (createActive : Bool) (now : UInt64) : Ticking :=
  { timer := { interval := ms, lastpulse := now, active := createActive }, base := now, now := now }

/-- In every run each call of `poll` on an active timer brings the sum of what the calls have
returned to the number of whole intervals since the counting began. -/
theorem polls_count_all (ms : UInt32) (createActive : Bool) (now : UInt64)
    (events : List TimerEvent) (h : Run.EachStep step Near (create ms createActive now) events) :
    Run.EachStep step (fun s e => ∀ later t, e = .poll later → s.timer.active = true →
      s.step e = some t → AllCounted t) (create ms createActive now) events := by
  have hstart : InStep (create ms createActive now) := inStep_of_count rfl rfl
  refine Run.EachStep.of_kept (fun s e t hs hnear ht => inStep_step hs hnear ht) ?_ hstart h
  intro s e hs hnear later t he hactive ht
  subst he
  exact (hs.poll hactive hnear ht).2

theorem polls_count_all_two :
    Run.EachStep step Near (create 100 true 1000) [.poll 1250, .stop, .poll 1300, .poll 1420] ∧
    Run.EachStep step (fun s e => ∀ later t, e = .poll later → s.timer.active = true →
      s.step e = some t → AllCounted t) (create 100 true 1000)
      [.poll 1250, .stop, .poll 1300, .poll 1420] := by
  have hnear : Run.EachStep step Near (create 100 true 1000)
      [.poll 1250, .stop, .poll 1300, .poll 1420] :=
    .cons rfl (by unfold Near; decide) (.cons rfl trivial
      (.cons rfl (by unfold Near; decide) (.cons rfl (by unfold Near; decide) trivial)))
  exact ⟨hnear, polls_count_all 100 true 1000 _ hnear⟩

end Ticking

end IceBridge.Pvp
