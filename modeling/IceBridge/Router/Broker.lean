import IceBridge.Router.Service
import IceBridge.Lib.Run
import Mathlib.Logic.Function.Basic

/-! The broker (`mdbroker.cpp`): its services and workers, and what it does for one
message. Each path through `client_process` or `worker_process` calls
`service_dispatch` at most once and as the last thing it does, so the functions below
return that call and `recv` makes it. -/

namespace IceBridge.Router
open ServiceType

/-- A `Service *`: the key of `m_services` and the object it was taken from. -/
structure ServicePtr where
  name : Frame
  serial : ℕ
deriving DecidableEq, Repr

structure BrokerWorker where
  service : Option ServicePtr
  expiry : Int
deriving DecidableEq, Repr

/-- What the broker has done, oldest first: requests that reached `service_dispatch`,
requests passed to `worker_send`, and the other messages sent. -/
inductive Action
  | queued (service : Frame) (msg : Zmsg)
  | request (d : Dispatch)
  | sent (frames : Zmsg)
deriving DecidableEq, Repr

structure Broker where
  services : Frame → Option Service
  workers : Frame → Option BrokerWorker
  clients : List Frame
  nextSerial : ℕ
  log : List Action

def initial : Broker := ⟨fun _ => none, fun _ => none, [], 0, []⟩

structure DispatchCall where
  service : Option ServicePtr
  msg : Option Zmsg
deriving DecidableEq, Repr

/-- A message from the socket, its first part the sender, and the readings of
`s_clock` made while it is processed. -/
structure Received where
  msg : Zmsg
  clock : ℕ → Int

def heartbeatInterval : Int := 2500
def heartbeatLiveness : Int := 3
def workerExpiry : Int := heartbeatInterval * heartbeatLiveness * 10

def Service.ptr (srv : Service) : ServicePtr := ⟨srv.name, srv.serial⟩

/-- `m_services` and `m_workers` use names that begin with one of these as reserved:
`find_first_of ("mmi.") == 0` asks for a first character among them. -/
def reserved (name : Frame) : Bool :=
  decide (4 ≤ name.length) && decide (∃ c ∈ name.head?, c ∈ ascii ['m', 'm', 'i', '.'])

def mmiService : Frame := ascii ['m', 'm', 'i', '.', 's', 'e', 'r', 'v', 'i', 'c', 'e']

/-- The envelope of a reply: the client, then the protocol header and the service name. -/
def clientFrames (client service : Frame) (msg : Zmsg) : Zmsg :=
  wrap client [] (wrap mdpcClient service msg)

def Action.frames : Action → Option Zmsg
  | queued _ _ => none
  | request d => some (workerFrames d.worker mdpwRequest d.msg)
  | sent frames => some frames

namespace Broker

def deref (b : Broker) (p : ServicePtr) : Result Service :=
  match b.services p.name with
  | some srv => if srv.serial = p.serial then .ok srv else .error .deletedService
  | none => .error .deletedService

def setService (b : Broker) (srv : Service) : Broker :=
  { b with services := Function.update b.services srv.name (some srv) }

def setWorker (b : Broker) (w : Frame) (wrk : BrokerWorker) : Broker :=
  { b with workers := Function.update b.workers w (some wrk) }

def act (b : Broker) (actions : List Action) : Broker := { b with log := b.log ++ actions }

def send (b : Broker) (frames : Zmsg) : Result Broker := do
  let frames ← Router.send frames
  return b.act [.sent frames]

def link (b : Broker) (w : Frame) : Option ServicePtr := (b.workers w).bind BrokerWorker.service

def expiry (b : Broker) (w : Frame) : Int := ((b.workers w).map BrokerWorker.expiry).getD 0

/-- `service_change`, with the workers that `copy` points to the new object. -/
def serviceChange (b : Broker) (old : Service) (serviceType : Frame) :
    Option ServicePtr × Broker :=
  match createService serviceType old.name b.nextSerial with
  | none => (none, b)
  | some new =>
    let srv := new.copy old
    let repoint := fun w wrk =>
      if w ∈ old.waiting then { wrk with service := some srv.ptr } else wrk
    (some srv.ptr, { (b.setService srv) with
      workers := fun w => (b.workers w).map (repoint w)
      nextSerial := b.nextSerial + 1 })

def serviceRequire (b : Broker) (serviceName serviceType : Frame) :
    Result (Option ServicePtr × Broker) :=
  if serviceName = [] then .error .assertion
  else match b.services serviceName with
    | some srv =>
      if srv.type.text = serviceType then .ok (some srv.ptr, b)
      else .ok (b.serviceChange srv serviceType)
    | none =>
      match createService serviceType serviceName b.nextSerial with
      | none => .ok (none, b)
      | some srv => .ok (some srv.ptr, { (b.setService srv) with nextSerial := b.nextSerial + 1 })

def serviceDispatch (b : Broker) (call : DispatchCall) (clk : ℕ → Int) : Result Broker :=
  match call.service with
  | none => .error .assertion
  | some p => do
    let srv ← b.deref p
    let (srv', sent) ← dispatchLoop b.expiry (srv.requests ++ call.msg.toList) clk srv
    return (b.setService srv').act
      (call.msg.toList.map (Action.queued srv.name) ++ sent.map Action.request)

def internalReply (b : Broker) (serviceName : Frame) (msg : Zmsg) : Result Zmsg :=
  if serviceName = mmiService then do
    match b.services (← body msg) with
    | none => .error .unknownService
    | some srv =>
      if srv.waiting ≠ [] then return bodySet (ascii ['2', '0', '0']) msg
      else return bodySet (ascii ['4', '0', '4']) msg
  else return bodySet (ascii ['5', '0', '1']) msg

def serviceInternal (b : Broker) (serviceName : Frame) (msg : Zmsg) : Result Broker := do
  let msg ← b.internalReply serviceName msg
  let (client, msg) ← unwrap msg
  b.send (clientFrames client serviceName msg)

def workerRequire (b : Broker) (identity : Frame) : Broker :=
  match b.workers identity with
  | some _ => b
  | none => b.setWorker identity ⟨none, 0⟩

/-- `worker_delete`, which leaves `m_service` and `m_workers` as they are. The frames of a
DISCONNECT are C strings, so `decode_uuid` asserts nothing of them that fails. -/
def workerDelete (b : Broker) (w : Frame) (disconnect : Bool) : Result Broker :=
  let b := if disconnect then b.act [.sent (workerFrames w mdpwDisconnect [])] else b
  match b.link w with
  | none => .ok b
  | some p => do
    let srv ← b.deref p
    return b.setService (srv.deleteWorker w)

def workerWaiting (b : Broker) (w : Frame) (now : Int) : Result (Broker × DispatchCall) :=
  let b := b.setWorker w ⟨b.link w, now + workerExpiry⟩
  match b.link w with
  | none => .error .nullService
  | some p => do
    let srv ← b.deref p
    return (b.setService (srv.workerWaiting w), ⟨some p, none⟩)

def workerReady (b : Broker) (sender : Frame) (msg : Zmsg) (now : Int) :
    Result (Broker × Option DispatchCall) := do
  let (serviceName, msg) ← popCstr msg
  if serviceName = [] then return (b, none)
  let (serviceType, _) ← popCstr msg
  let (p, b) ← b.serviceRequire serviceName
    (if serviceType ≠ [] then serviceType else serviceDoNotWaitResponse.text)
  let (b, call) ← (b.setWorker sender ⟨p, b.expiry sender⟩).workerWaiting sender now
  return (b, some call)

def workerReply (b : Broker) (sender : Frame) (msg : Zmsg) (now : Int) :
    Result (Broker × Option DispatchCall) := do
  let (client, msg) ← unwrap msg
  match b.link sender with
  | none => .error .nullService
  | some p =>
    let srv ← b.deref p
    let b ← b.send (clientFrames client srv.name msg)
    let (b, call) ← b.workerWaiting sender now
    return (b, some call)

def workerProcess (b : Broker) (sender : Frame) (msg : Zmsg) (now : Int) :
    Result (Broker × Option DispatchCall) :=
  if msg = [] then .error .assertion
  else do
    let (command, msg) ← popCstr msg
    let b := b.workerRequire sender
    if command = mdpwReady then
      if reserved sender then return (← b.workerDelete sender false, none)
      else b.workerReady sender msg now
    else if command = mdpwReply then b.workerReply sender msg now
    else if command = mdpwHeartbeat then
      match b.link sender with
      | some _ => do
        let (b, call) ← b.workerWaiting sender now
        return (b, some call)
      | none => return (← b.workerDelete sender true, none)
    else if command = mdpwDisconnect then return (← b.workerDelete sender true, none)
    else return (b, none)

def clientProcess (b : Broker) (sender : Frame) (msg : Zmsg) :
    Result (Broker × Option DispatchCall) :=
  if msg.length < 2 then .error .assertion
  else do
    let (serviceName, msg) ← popCstr msg
    if serviceName = [] then return (b, none)
    if serviceName = mdpwHeartbeat then return ({ b with clients := b.clients.insert sender }, none)
    let (p, b) ← b.serviceRequire serviceName serviceDoNotWaitResponse.text
    let msg := wrap sender [] msg
    if reserved serviceName then return (← b.serviceInternal serviceName msg, none)
    return (b, some ⟨p, some msg⟩)

def accept (b : Broker) (r : Received) : Result (Broker × Option DispatchCall) := do
  let (sender, msg) ← popCstr r.msg
  let (_, msg) ← popFront msg
  let (header, msg) ← popCstr msg
  if header = mdpcClient then b.clientProcess sender msg
  else if header = mdpwWorker then b.workerProcess sender msg (r.clock 0)
  else return (b, none)

/-- `service_dispatch` reads the clock after `worker_waiting` has. -/
def dispatchPending (b : Broker) (call : Option DispatchCall) (r : Received) : Result Broker :=
  match call with
  | none => .ok b
  | some call => b.serviceDispatch call fun i => r.clock (i + 1)

def recv (b : Broker) (r : Received) : Result Broker := do
  let (b, call) ← b.accept r
  b.dispatchPending call r

/-- A fault ends the broker, so it has no next state. -/
def step (b : Broker) (r : Received) : Option Broker := (b.recv r).toOption

end Broker

end IceBridge.Router
