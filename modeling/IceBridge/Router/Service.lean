import IceBridge.Router.Zmsg
import Mathlib.Data.List.Nodup

/-! A service of the broker (`service.hpp`): the queue of client requests, the list of
waiting workers, and the two ways `pop_worker` picks one of them. Workers are named by
their identity, which is what a `BrokerWorker *` stands for: the broker never frees one. -/

namespace IceBridge.Router

inductive ServiceType
  | serviceWaitResponse
  | serviceDoNotWaitResponse
deriving DecidableEq, Repr

open ServiceType

def ServiceType.text : ServiceType → Frame
  | serviceWaitResponse => ascii ['S', 'e', 'r', 'v', 'i', 'c', 'e', 'W', 'a', 'i', 't',
      'R', 'e', 's', 'p', 'o', 'n', 's', 'e']
  | serviceDoNotWaitResponse => ascii ['S', 'e', 'r', 'v', 'i', 'c', 'e', 'D', 'o', 'N', 'o', 't',
      'W', 'a', 'i', 't', 'R', 'e', 's', 'p', 'o', 'n', 's', 'e']

/-- A `Service` object. `serial` tells objects of one name apart, as their addresses do;
`pos` is the iterator of `ServiceDoNotWaitResponse`, an index into `m_waiting`, and `dangling`
says that `m_waiting` has moved to other storage since it was set. -/
structure Service where
  name : Frame
  serial : ℕ
  type : ServiceType
  waiting : List Frame
  requests : List Zmsg
  pos : ℕ
  ifPosInit : Bool
  capacity : ℕ
  dangling : Bool
deriving DecidableEq, Repr

def createService (serviceType serviceName : Frame) (serial : ℕ) : Option Service :=
  if serviceType = serviceWaitResponse.text then
    some ⟨serviceName, serial, serviceWaitResponse, [], [], 0, false, 0, false⟩
  else if serviceType = serviceDoNotWaitResponse.text then
    some ⟨serviceName, serial, serviceDoNotWaitResponse, [], [], 0, false, 0, false⟩
  else none

namespace Service

/-- `copy`, less the workers' `m_service`, which `serviceChange` rewrites. -/
def copy (srv old : Service) : Service :=
  { srv with
    requests := old.requests
    waiting := old.waiting
    capacity := max srv.capacity old.waiting.length }

/-- `push_back`: without room the vector doubles, and its iterators do not follow. -/
def pushBack (srv : Service) (worker : Frame) : Service :=
  if srv.waiting.length < srv.capacity then { srv with waiting := srv.waiting ++ [worker] }
  else { srv with
    waiting := srv.waiting ++ [worker]
    capacity := max 1 (2 * srv.waiting.length)
    dangling := true }

def workerWaiting (srv : Service) (worker : Frame) : Service :=
  if worker ∈ srv.waiting then srv else srv.pushBack worker

def deleteWorker (srv : Service) (worker : Frame) : Service :=
  { srv with waiting := srv.waiting.filter (· ≠ worker) }

/-- `has_actived_worker`: the workers that expired before `clock` leave the list. -/
def hasActivedWorker (srv : Service) (expiry : Frame → Int) (clock : Int) : Service :=
  { srv with waiting := srv.waiting.filter fun w => ¬ expiry w < clock }

def nextPos (srv : Service) : ℕ :=
  if srv.pos = srv.waiting.length ∨ ¬ srv.ifPosInit then 0 else srv.pos

def popWorker (srv : Service) : Result (Option Frame × Service) :=
  match srv.type with
  | serviceWaitResponse =>
    match srv.waiting with
    | [] => .ok (none, srv)
    | w :: rest => .ok (some w, { srv with waiting := rest })
  | serviceDoNotWaitResponse =>
    if srv.waiting = [] then .ok (none, srv)
    else if srv.ifPosInit ∧ srv.dangling then .error .cursorOutOfRange
    else
      match srv.waiting[srv.nextPos]? with
      | none => .error .cursorOutOfRange
      | some w => .ok (some w,
          { srv with pos := srv.nextPos + 1, ifPosInit := true, dangling := false })

end Service

/-- A REQUEST as `service_dispatch` sends it: the service object, the worker `pop_worker`
returned, and the waiting list, expiry times and clock it was chosen under. -/
structure Dispatch where
  service : Frame
  serial : ℕ
  worker : Frame
  msg : Zmsg
  waiting : List Frame
  expiry : Int
  clock : Int
deriving DecidableEq, Repr

def workerFrames (worker command : Frame) (msg : Zmsg) : Zmsg :=
  wrap worker [] (pushFront mdpwWorker (pushFront command msg))

@[simp] theorem sendable_workerFrames {worker command : Frame} {msg : Zmsg} :
    Sendable (workerFrames worker command msg) ↔ Sendable msg := by
  rw [workerFrames, sendable_wrap, sendable_pushFront, sendable_pushFront]

/-- The loop of `service_dispatch`, one queued request an iteration; `clk` gives the
readings of the clock, one for each call of `has_actived_worker`. -/
def dispatchLoop (expiry : Frame → Int) : List Zmsg → (ℕ → Int) → Service →
    Result (Service × List Dispatch)
  | [], _, srv => .ok ({ srv with requests := [] }, [])
  | msg :: rest, clk, srv =>
    let live := srv.hasActivedWorker expiry (clk 0)
    if live.waiting = [] then .ok ({ live with requests := msg :: rest }, [])
    else do
      match ← live.popWorker with
      | (none, srv') => return ({ srv' with requests := msg :: rest }, [])
      | (some w, srv') =>
        let _ ← send (workerFrames w mdpwRequest msg)
        let (last, sent) ← dispatchLoop expiry rest (fun i => clk (i + 1)) srv'
        return (last, ⟨srv.name, srv.serial, w, msg, live.waiting, expiry w, clk 0⟩ :: sent)

/-! ## What each operation does to the waiting list -/

namespace Service
variable {srv srv' : Service}

@[simp] theorem waiting_pushBack (w : Frame) : (srv.pushBack w).waiting = srv.waiting ++ [w] := by
  unfold pushBack
  split_ifs <;> rfl

theorem mem_workerWaiting {w v : Frame} :
    v ∈ (srv.workerWaiting w).waiting ↔ v ∈ srv.waiting ∨ v = w := by
  unfold workerWaiting
  split_ifs with h
  · exact ⟨Or.inl, fun hv => hv.elim id fun hv => hv ▸ h⟩
  · simp

theorem nodup_workerWaiting (w : Frame) (h : srv.waiting.Nodup) :
    (srv.workerWaiting w).waiting.Nodup := by
  unfold workerWaiting
  split_ifs with hw
  · exact h
  · rw [waiting_pushBack]
    exact List.nodup_append.mpr ⟨h, List.nodup_singleton w, by
      rintro a ha b hb rfl
      exact hw (List.mem_singleton.mp hb ▸ ha)⟩

theorem deleteWorker_sublist (w : Frame) : (srv.deleteWorker w).waiting.Sublist srv.waiting :=
  List.filter_sublist

theorem hasActivedWorker_sublist (expiry : Frame → Int) (clock : Int) :
    (srv.hasActivedWorker expiry clock).waiting.Sublist srv.waiting := List.filter_sublist

theorem not_expired_of_mem {expiry : Frame → Int} {clock : Int} {w : Frame}
    (h : w ∈ (srv.hasActivedWorker expiry clock).waiting) : ¬ expiry w < clock := by
  simpa using (List.mem_filter.mp h).2

structure SameObject (a b : Service) : Prop where
  name : b.name = a.name
  serial : b.serial = a.serial
  type : b.type = a.type

theorem SameObject.trans {a b c : Service} (hab : a.SameObject b) (hbc : b.SameObject c) :
    a.SameObject c :=
  ⟨hbc.name.trans hab.name, hbc.serial.trans hab.serial, hbc.type.trans hab.type⟩

theorem popWorker_eq_ok {r : Option Frame} (h : srv.popWorker = .ok (r, srv')) :
    srv.SameObject srv' ∧ srv'.waiting.Sublist srv.waiting ∧ ∀ w ∈ r, w ∈ srv.waiting := by
  unfold popWorker at h
  split at h
  · split at h
    · next hws =>
      obtain ⟨rfl, rfl⟩ := by simpa using h
      exact ⟨⟨rfl, rfl, rfl⟩, List.Sublist.refl _, by simp⟩
    · next w rest hws =>
      obtain ⟨rfl, rfl⟩ := by simpa using h
      exact ⟨⟨rfl, rfl, rfl⟩, hws ▸ List.sublist_cons_self w rest, by simp [hws]⟩
  · split_ifs at h with hnil
    · obtain ⟨rfl, rfl⟩ := by simpa using h
      exact ⟨⟨rfl, rfl, rfl⟩, List.Sublist.refl _, by simp⟩
    · split at h
      · cases h
      · next w hw =>
        obtain ⟨rfl, rfl⟩ := by simpa using h
        exact ⟨⟨rfl, rfl, rfl⟩, List.Sublist.refl _, by simpa using List.mem_of_getElem? hw⟩

end Service

/-! ## The dispatch loop -/

structure Dispatched (expiry : Frame → Int) (reqs : List Zmsg) (srv last : Service)
    (sent : List Dispatch) : Prop where
  same : srv.SameObject last
  waiting : last.waiting.Sublist srv.waiting
  requests : sent.map Dispatch.msg ++ last.requests = reqs
  service : ∀ d ∈ sent, d.service = srv.name ∧ d.serial = srv.serial
  worker : ∀ d ∈ sent, d.worker ∈ d.waiting
  alive : ∀ d ∈ sent, d.expiry = expiry d.worker ∧ ¬ d.expiry < d.clock

theorem Service.popWorker_ne_none {srv srv' : Service} (h : srv.waiting ≠ []) :
    srv.popWorker ≠ .ok (none, srv') := by
  unfold Service.popWorker
  split
  · split
    · next hws => exact absurd hws h
    · simp
  · rw [if_neg h]
    split_ifs
    · simp
    · split <;> simp

theorem dispatchLoop_cons_eq_ok {expiry : Frame → Int} {msg : Zmsg} {rest : List Zmsg}
    {clk : ℕ → Int} {srv last : Service} {sent : List Dispatch}
    (h : dispatchLoop expiry (msg :: rest) clk srv = .ok (last, sent)) :
    ((srv.hasActivedWorker expiry (clk 0)).waiting = [] ∧ sent = [] ∧
      last = { srv.hasActivedWorker expiry (clk 0) with requests := msg :: rest }) ∨
    ∃ w srv' later, (srv.hasActivedWorker expiry (clk 0)).waiting ≠ [] ∧
      (srv.hasActivedWorker expiry (clk 0)).popWorker = .ok (some w, srv') ∧ Sendable msg ∧
      dispatchLoop expiry rest (fun i => clk (i + 1)) srv' = .ok (last, later) ∧
      sent = ⟨srv.name, srv.serial, w, msg, (srv.hasActivedWorker expiry (clk 0)).waiting,
        expiry w, clk 0⟩ :: later := by
  simp only [dispatchLoop] at h
  split_ifs at h with hnil
  · obtain ⟨rfl, rfl⟩ := by simpa using h
    exact Or.inl ⟨hnil, rfl, rfl⟩
  · obtain ⟨⟨r, srv'⟩, hpop, h⟩ := bind_eq_ok.mp h
    cases r with
    | none => exact absurd hpop (Service.popWorker_ne_none hnil)
    | some w =>
      obtain ⟨frames, hsend, h⟩ := bind_eq_ok.mp h
      obtain ⟨⟨last', later⟩, hloop, h⟩ := bind_eq_ok.mp h
      obtain ⟨rfl, rfl⟩ := by simpa [pure, Except.pure] using h
      exact Or.inr ⟨w, srv', later, hnil, hpop,
        sendable_workerFrames.mp (send_eq_ok.mp hsend).1, hloop, rfl⟩

theorem dispatchLoop_spec {expiry : Frame → Int} {reqs : List Zmsg} {clk : ℕ → Int}
    {srv last : Service} {sent : List Dispatch}
    (h : dispatchLoop expiry reqs clk srv = .ok (last, sent)) :
    Dispatched expiry reqs srv last sent := by
  induction reqs generalizing clk srv last sent with
  | nil =>
    obtain ⟨rfl, rfl⟩ := by simpa [dispatchLoop] using h
    exact ⟨⟨rfl, rfl, rfl⟩, List.Sublist.refl _, rfl, by simp, by simp, by simp⟩
  | cons msg rest ih =>
    have hlive := srv.hasActivedWorker_sublist expiry (clk 0)
    obtain ⟨-, rfl, rfl⟩ | ⟨w, srv', later, -, hpop, -, hloop, rfl⟩ := dispatchLoop_cons_eq_ok h
    · exact ⟨⟨rfl, rfl, rfl⟩, hlive, rfl, by simp, by simp, by simp⟩
    · obtain ⟨hsame, hsub, hmem⟩ := Service.popWorker_eq_ok hpop
      have hobj : srv.SameObject srv' := ⟨hsame.name, hsame.serial, hsame.type⟩
      have hd := ih hloop
      have hw : w ∈ (srv.hasActivedWorker expiry (clk 0)).waiting := hmem w rfl
      refine ⟨hobj.trans hd.same, hd.waiting.trans (hsub.trans hlive), ?_, ?_, ?_, ?_⟩
      · rw [List.map_cons, List.cons_append, hd.requests]
      · intro d hmem
        obtain rfl | hmem := List.mem_cons.mp hmem
        · exact ⟨rfl, rfl⟩
        · rw [← hobj.name, ← hobj.serial]
          exact hd.service d hmem
      · intro d hmem
        obtain rfl | hmem := List.mem_cons.mp hmem
        · exact hw
        · exact hd.worker d hmem
      · intro d hmem
        obtain rfl | hmem := List.mem_cons.mp hmem
        · exact ⟨rfl, Service.not_expired_of_mem hw⟩
        · exact hd.alive d hmem

end IceBridge.Router
