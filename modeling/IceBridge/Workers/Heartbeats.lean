import IceBridge.Lib.Heartbeat
import IceBridge.Lib.Run
import IceBridge.Router.Broker
import Mathlib.Data.Fintype.Defs

/-! The loops of the broker and of its workers in time. Each looks at the clock for itself; what
one has sent is under way until the other has read it. -/

namespace IceBridge.Workers.Timed

def heartbeatInterval : Int := 2500

inductive Up
  | ready
  | reply
  | heartbeat
  deriving DecidableEq

inductive Down
  | request
  | heartbeat
  | disconnect
  deriving DecidableEq

/-- Where the loop of a worker is: in `connect_to_broker`, in `zmq::poll`, before the check whether
a heartbeat is due, or between the heartbeat and the setting of `m_heartbeat_at`. -/
inductive Place
  | stopped
  | connecting (starting : Bool)
  | polling
  | checking
  | setting
  deriving DecidableEq

structure BrokerWorker where
  service : Bool
  expiry : Int
  deriving DecidableEq

/-- A worker, the broker's record of it, and what is under way between them with the times it was
sent at. `checkedAt` is when the loop last looked whether a heartbeat is due or began to connect. -/
structure Worker where
  place : Place := .stopped
  heartbeatAt : Int := 0
  liveness : Int := 0
  checkedAt : Int := 0
  reconnects : ℕ := 0
  known : Option BrokerWorker := none
  up : List (Up × Int) := []
  down : List (Down × Int) := []

inductive BrokerPlace
  | polling
  | checking
  | setting
  deriving DecidableEq

structure Broker where
  place : BrokerPlace := .polling
  heartbeatAt : Int
  checkedAt : Int

structure Name where
  identity : Router.Frame
  service : Router.Frame

/-- No two workers have the same identity. -/
structure System (ω : Type) where
  now : Int
  broker : Broker
  name : ω → Name
  worker : ω → Worker

/-- The broker puts READY of this name into a waiting list. -/
def Name.Accepted (name : Name) : Prop :=
  Router.reserved name.identity = false ∧ Router.cstr name.service ≠ []

instance (name : Name) : Decidable name.Accepted := inferInstanceAs (Decidable (_ ∧ _))

namespace Worker

def connect (x : Worker) (now : Int) (starting : Bool) : Worker :=
  { x with place := .connecting starting, checkedAt := now, up := x.up ++ [(.ready, now)] }

def reconnect (x : Worker) (now : Int) : Worker :=
  { x with reconnects := x.reconnects + 1, down := [] }.connect now false

def start (x : Worker) (now : Int) : Option Worker :=
  if x.place = .stopped then some (x.connect now true) else none

def receive (x : Worker) (now : Int) : Option Worker :=
  match x.place, x.down with
  | .polling, (m, _) :: rest =>
    let x := { x with place := .checking, liveness := now + 10 * heartbeatInterval, down := rest }
    some (if m = .disconnect then x.reconnect now else x)
  | _, _ => none

def forward (x : Worker) (now : Int) : Option Worker :=
  if x.place = .polling then some { x with place := .checking, up := x.up ++ [(.reply, now)] }
  else none

/-- It returns with neither. The sleep of `m_reconnect` before the new connection is left out. -/
def idle (x : Worker) (now : Int) : Option Worker :=
  if x.place = .polling then
    some (if x.liveness < now then x.reconnect now else { x with place := .checking })
  else none

def check (x : Worker) (now : Int) : Option Worker :=
  if x.place = .checking then
    some (if x.heartbeatAt < now then
        { x with place := .setting, checkedAt := now, up := x.up ++ [(.heartbeat, now)] }
      else { x with place := .polling, checkedAt := now })
  else none

def set (x : Worker) (now : Int) : Option Worker :=
  match x.place with
  | .connecting starting =>
    some { x with
      place := if starting then .polling else .checking
      heartbeatAt := now + heartbeatInterval
      liveness := now + 10 * heartbeatInterval }
  | .setting => some { x with place := .polling, heartbeatAt := now + heartbeatInterval }
  | _ => none

def waiting (x : Worker) (now : Int) : Worker :=
  { x with known := some { service := true, expiry := now + heartbeatInterval * 3 * 10 } }

def require (x : Worker) : BrokerWorker := x.known.getD { service := false, expiry := 0 }

/-- `worker_process` for the oldest message of the worker. READY of a reserved identity or with an
empty name of a service is left at that; with no name, which `send_to_broker` leaves out, the frame
of the type is missed. A reply before READY goes through a null pointer, a heartbeat is answered with
DISCONNECT. -/
def process (x : Worker) (name : Name) (now : Int) : Option Worker :=
  match x.up with
  | [] => none
  | (m, _) :: rest =>
    let x := { x with up := rest }
    match m with
    | .ready =>
      if name.Accepted then some (x.waiting now)
      else if Router.reserved name.identity = false ∧ name.service = [] then none
      else some { x with known := some x.require }
    | .reply => if x.require.service then some (x.waiting now) else none
    | .heartbeat =>
      some (if x.require.service then x.waiting now
        else { x with known := some x.require, down := x.down ++ [(.disconnect, now)] })

def dispatch (x : Worker) (now : Int) : Option Worker :=
  if (x.known.map BrokerWorker.service).getD false then
    some { x with down := x.down ++ [(.request, now)] }
  else none

def beat (x : Worker) (now : Int) : Worker :=
  if x.known.isSome then { x with down := x.down ++ [(.heartbeat, now)] } else x

end Worker

/-- `process` and `hear` are `zmq::poll` of the broker, which returns with a message of a worker or
without one; the rest of the broker's round is `dispatch`, `beat` and `set`. -/
inductive Event (ω : Type)
  | tick (now : Int)
  | process (w : ω)
  | hear
  | dispatch (w : ω)
  | beat
  | set
  | start (w : ω)
  | receive (w : ω)
  | forward (w : ω)
  | idle (w : ω)
  | check (w : ω)
  | workerSet (w : ω)

namespace System
variable {ω : Type}

def initial {ω : Type} (name : ω → Name) (now : Int) : System ω where
  now := now
  name := name
  broker := { heartbeatAt := now + heartbeatInterval, checkedAt := now }
  worker _ := {}

variable [DecidableEq ω]

def setWorker (s : System ω) (w : ω) (x : Worker) : System ω :=
  { s with worker := Function.update s.worker w x }

def step (s : System ω) : Event ω → Option (System ω)
  | .tick now => if s.now ≤ now then some { s with now } else none
  | .process w =>
    if s.broker.place = .polling then
      ((s.worker w).process (s.name w) s.now).map fun x =>
        { s.setWorker w x with broker := { s.broker with place := .checking } }
    else none
  | .hear =>
    if s.broker.place = .polling then
      some { s with broker := { s.broker with place := .checking } }
    else none
  | .dispatch w =>
    if s.broker.place = .checking then ((s.worker w).dispatch s.now).map (s.setWorker w) else none
  | .beat =>
    if s.broker.place = .checking then
      some (if s.broker.heartbeatAt < s.now then
          { s with
            broker := { s.broker with place := .setting, checkedAt := s.now }
            worker := fun w => (s.worker w).beat s.now }
        else { s with broker := { s.broker with place := .polling, checkedAt := s.now } })
    else none
  | .set =>
    if s.broker.place = .setting then
      some { s with broker := { s.broker with
        place := .polling, heartbeatAt := s.now + heartbeatInterval } }
    else none
  | .start w => ((s.worker w).start s.now).map (s.setWorker w)
  | .receive w => ((s.worker w).receive s.now).map (s.setWorker w)
  | .forward w => ((s.worker w).forward s.now).map (s.setWorker w)
  | .idle w => ((s.worker w).idle s.now).map (s.setWorker w)
  | .check w => ((s.worker w).check s.now).map (s.setWorker w)
  | .workerSet w => ((s.worker w).set s.now).map (s.setWorker w)

end System

/-! ## What is taken for granted of the time -/

/-- `zmq::poll` returns when its time is over, and a round takes no more than `slack` besides. -/
structure BrokerOnTime (slack now : Int) (b : Broker) : Prop where
  round : now ≤ b.checkedAt + 3 * heartbeatInterval + slack
  setting : b.place = .setting → now ≤ b.checkedAt + slack

/-- The loop of a worker is on time, and what is sent is read within `delay`. -/
structure WorkerOnTime (slack delay now : Int) (x : Worker) : Prop where
  round : x.place ≠ .stopped → now ≤ x.checkedAt + heartbeatInterval + slack
  setting : x.place = .setting ∨ (∃ starting, x.place = .connecting starting) →
    now ≤ x.checkedAt + slack
  up : ∀ m ∈ x.up, now ≤ m.2 + delay
  down : ∀ m ∈ x.down, now ≤ m.2 + delay

structure OnTime {ω : Type} (slack delay : Int) (s : System ω) : Prop where
  broker : BrokerOnTime slack s.now s.broker
  worker : ∀ w, WorkerOnTime slack delay s.now (s.worker w)

instance (slack now : Int) (b : Broker) : Decidable (BrokerOnTime slack now b) :=
  decidable_of_iff (now ≤ b.checkedAt + 3 * heartbeatInterval + slack ∧
    (b.place = .setting → now ≤ b.checkedAt + slack)) ⟨fun h => ⟨h.1, h.2⟩, fun h => ⟨h.1, h.2⟩⟩

instance (slack delay now : Int) (x : Worker) : Decidable (WorkerOnTime slack delay now x) :=
  decidable_of_iff ((x.place ≠ .stopped → now ≤ x.checkedAt + heartbeatInterval + slack) ∧
    (x.place = .setting ∨ x.place = .connecting false ∨ x.place = .connecting true →
      now ≤ x.checkedAt + slack) ∧
    (∀ m ∈ x.up, now ≤ m.2 + delay) ∧ ∀ m ∈ x.down, now ≤ m.2 + delay) <| by
  rw [← Bool.exists_bool (p := fun starting => x.place = .connecting starting)]
  exact ⟨fun h => ⟨h.1, h.2.1, h.2.2.1, h.2.2.2⟩, fun h => ⟨h.1, h.2, h.3, h.4⟩⟩

instance {ω : Type} [Fintype ω] (slack delay : Int) (s : System ω) :
    Decidable (OnTime slack delay s) :=
  decidable_of_iff (BrokerOnTime slack s.now s.broker ∧
    ∀ w, WorkerOnTime slack delay s.now (s.worker w)) ⟨fun h => ⟨h.1, h.2⟩, fun h => ⟨h.1, h.2⟩⟩

/-! ## What follows -/

/-- Nobody is given up: the worker has not missed the broker, the broker has not missed the worker,
and neither has broken off. -/
structure Alive (now : Int) (x : Worker) : Prop where
  liveness : x.place = .polling → now ≤ x.liveness
  expiry : ∀ k, x.known = some k → now ≤ k.expiry
  reconnects : x.reconnects = 0
  down : ∀ m ∈ x.down, m.1 ≠ .disconnect

/-! ## The invariant -/

def workerGap (slack : Int) : Int := 2 * heartbeatInterval + 2 * slack

def brokerGap (slack : Int) : Int := 4 * heartbeatInterval + 2 * slack

namespace Worker

def deadline (x : Worker) : Int :=
  match x.place with
  | .connecting _ => x.checkedAt + 10 * heartbeatInterval
  | _ => x.liveness

structure Beating (slack now last : Int) (x : Worker) : Prop where
  started : x.place ≠ .stopped
  le : last ≤ now
  checked : x.place = .polling ∨ x.place = .checking → x.checkedAt ≤ x.heartbeatAt
  due : (∀ starting, x.place ≠ .connecting starting) →
    x.heartbeatAt ≤ last + heartbeatInterval + slack
  setting : x.place = .setting ∨ (∃ starting, x.place = .connecting starting) → x.checkedAt ≤ last

structure Joining (slack last : Int) (x : Worker) : Prop where
  known : x.known = none
  down : x.down = []
  up : ∃ t rest, x.up = (.ready, t) :: rest ∧ t + 10 * heartbeatInterval ≤ x.deadline ∧
    Heartbeat.Paced (workerGap slack) last (x.up.map Prod.snd)

structure Served (slack last : Int) (b : Broker) : Prop where
  due : b.heartbeatAt ≤ last + heartbeatInterval + slack
  setting : b.place = .setting → b.checkedAt ≤ last

/-- The broker has a service for the worker. From when it had, what it sends covers the worker's
waiting, less the time that READY was under way. -/
structure Joined (slack delay last : Int) (b : Broker) (x : Worker) : Prop where
  known : ∃ expiry, x.known = some ⟨true, expiry⟩ ∧ Heartbeat.Covered (workerGap slack)
    (30 * heartbeatInterval) expiry last (x.up.map Prod.snd)
  served : ∃ lastDown, Served slack lastDown b ∧ Heartbeat.Covered (brokerGap slack)
    (10 * heartbeatInterval - delay) x.deadline lastDown (x.down.map Prod.snd)

structure Sound (slack delay now : Int) (b : Broker) (x : Worker) : Prop where
  reconnects : x.reconnects = 0
  up : ∀ m ∈ x.up, m.2 ≤ now
  down : ∀ m ∈ x.down, m.2 ≤ now ∧ m.1 ≠ .disconnect
  link : x.place = .stopped ∧ x.up = [] ∧ x.down = [] ∧ x.known = none ∨
    ∃ last, x.Beating slack now last ∧ (x.Joining slack last ∨ x.Joined slack delay last b)

end Worker

structure Broker.Sound (now : Int) (b : Broker) : Prop where
  le : b.checkedAt ≤ now
  checked : b.place ≠ .setting → b.checkedAt ≤ b.heartbeatAt
  due : b.heartbeatAt ≤ now + heartbeatInterval

structure Sound {ω : Type} (slack delay : Int) (s : System ω) : Prop where
  broker : s.broker.Sound s.now
  name : ∀ w, (s.name w).Accepted
  worker : ∀ w, (s.worker w).Sound slack delay s.now s.broker

variable {slack delay now last : Int} {b : Broker} {x x' : Worker}

theorem Worker.Beating.in_gap (h : x.Beating slack now last) (hslack : 0 ≤ slack)
    (ht : WorkerOnTime slack delay now x) : now ≤ last + workerGap slack := by
  have hround := ht.round h.started
  unfold workerGap
  unfold heartbeatInterval at *
  cases hplace : x.place with
  | stopped => exact absurd hplace h.started
  | connecting starting =>
    have hset := ht.setting (.inr ⟨starting, hplace⟩)
    have hlast := h.setting (.inr ⟨starting, hplace⟩)
    linarith
  | setting =>
    have hset := ht.setting (.inl hplace)
    have hlast := h.setting (.inl hplace)
    linarith
  | polling =>
    have hchecked := h.checked (.inl hplace)
    have hdue := h.due fun starting heq => by simp [hplace] at heq
    unfold heartbeatInterval at hdue
    linarith
  | checking =>
    have hchecked := h.checked (.inr hplace)
    have hdue := h.due fun starting heq => by simp [hplace] at heq
    unfold heartbeatInterval at hdue
    linarith

theorem Worker.Served.in_gap (h : Served slack last b) (hslack : 0 ≤ slack) (hb : b.Sound now)
    (ht : BrokerOnTime slack now b) : now ≤ last + brokerGap slack := by
  have hround := ht.round
  have hdue := h.due
  unfold brokerGap
  unfold heartbeatInterval at *
  by_cases hplace : b.place = .setting
  · have hset := ht.setting hplace
    have hlast := h.setting hplace
    linarith
  · have hchecked := hb.checked hplace
    linarith

/-- With these bounds nobody is given up. -/
theorem Worker.Sound.alive (h : x.Sound slack delay now b) (hb : b.Sound now)
    (hslack : 0 ≤ slack) (hdelay : 0 ≤ delay) (hbound : slack + delay ≤ 3 * heartbeatInterval)
    (htb : BrokerOnTime slack now b) (ht : WorkerOnTime slack delay now x) : Alive now x := by
  have hup : ∀ t ∈ x.up.map Prod.snd, now ≤ t + delay := by
    intro t hmem
    obtain ⟨m, hm, rfl⟩ := List.mem_map.mp hmem
    exact ht.up m hm
  have hdown : ∀ t ∈ x.down.map Prod.snd, now ≤ t + delay := by
    intro t hmem
    obtain ⟨m, hm, rfl⟩ := List.mem_map.mp hmem
    exact ht.down m hm
  refine ⟨fun hplace => ?_, fun k hk => ?_, h.reconnects, fun m hm => (h.down m hm).2⟩
  · have hdeadline : x.deadline = x.liveness := by rw [Worker.deadline, hplace]
    rcases h.link with ⟨hstopped, -⟩ | ⟨last, -, hjoining | hjoined⟩
    · exact absurd hstopped (by simp [hplace])
    · obtain ⟨t, rest, hready, hle, -⟩ := hjoining.up
      have ht := hup t (by simp [hready])
      rw [hdeadline] at hle
      unfold heartbeatInterval at hle hbound
      linarith
    · obtain ⟨lastDown, hserved, hcovered⟩ := hjoined.served
      rw [← hdeadline]
      apply hcovered.in_time (hserved.in_gap hslack hb htb) hdown _ hdelay
      unfold brokerGap
      unfold heartbeatInterval at *
      linarith
  · rcases h.link with ⟨-, -, -, hnone⟩ | ⟨last, hbeating, hjoining | hjoined⟩
    · exact absurd hk (by simp [hnone])
    · exact absurd hk (by simp [hjoining.known])
    · obtain ⟨expiry, hknown, hcovered⟩ := hjoined.known
      obtain rfl : k = ⟨true, expiry⟩ := Option.some.inj (hk.symm.trans hknown)
      apply hcovered.in_time (hbeating.in_gap hslack ht) hup _ hdelay
      unfold workerGap
      unfold heartbeatInterval at *
      linarith

end IceBridge.Workers.Timed
