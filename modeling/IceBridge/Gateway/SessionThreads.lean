import IceBridge.Eddy.Delivery
import IceBridge.Gateway.TCPIOThreadManager
import Mathlib.Logic.Function.Basic

/-! The threads of the gateway. The main thread has the handlers, each session thread its sessions;
they know each other by the ids of the sessions only, which are used again. What one of them wants
of another it posts, and every thread executes its tasks in order. -/

namespace IceBridge.Gateway
open Eddy (TCPSession Effect NetMessageFilter)
variable {σ M : Type}

/-- After `Dispose` the id is invalid. No handler of the gateway sets a send delay. -/
structure TCPSessionHandler (M : Type) where
  sessionId : UInt32 := kInvalidTCPSessionId
  sessionThreadId : ℕ
  messagesToBeSent : List M := []

/-- A session with the handler it was connected with. `accepted` is all that `Send` has taken,
`posted` all that `PostMessageList` was called with, `parsed` all that the filter has made, and
`closeAsked` tells that `Close` of the handler was called. -/
structure Connection (σ M : Type) where
  handler : TCPSessionHandler M
  /-- `id_` of the session -/
  id : UInt32 := kInvalidTCPSessionId
  session : TCPSession σ M
  accepted : List M := []
  posted : List M := []
  parsed : List M := []
  closeAsked : Bool := false

inductive MainTask (M : Type)
  | packMessageList (handler : ℕ)
  | onSessionClose (id : UInt32)
  | sendMessageListToHandler (session : ℕ) (messages : List M)

/-- The tasks of a session thread. Nothing looks at `sender`, the handler they come from. -/
inductive SessionTask (M : Type)
  | init (session : ℕ) (id : UInt32)
  | sendMessageListToSession (id : UInt32) (messages : List M) (sender : ℕ)
  | closeSession (id : UInt32) (sender : ℕ)
  | packMessageList (session : ℕ)

/-- `pending` is what the task in execution has still to hand to others. -/
structure SessionThread (M : Type) where
  tasks : List (SessionTask M) := []
  sessionQueue : List (UInt32 × ℕ) := []
  pending : List (ℕ × Effect M) := []

structure OnMessage (M : Type) where
  handler : ℕ
  session : ℕ
  message : M

structure Threads (σ M : Type) where
  manager : TCPIOThreadManager ℕ := {}
  connections : List (Connection σ M) := []
  mainTasks : List (MainTask M) := []
  sessionThread : ℕ → SessionThread M := fun _ => {}
  calls : List (OnMessage M) := []
  closes : List ℕ := []

namespace TCPIOThreadManager

def getSessionHandler {H : Type} (m : TCPIOThreadManager H) (id : UInt32) : Option H :=
  m.sessionHandlerMap.lookup id

end TCPIOThreadManager

namespace Threads

def onConnection (x : Threads σ M) (c : ℕ) (f : Connection σ M → Connection σ M) : Threads σ M :=
  { x with connections := x.connections.modify c f }

def onThread (x : Threads σ M) (k : ℕ) (f : SessionThread M → SessionThread M) : Threads σ M :=
  { x with sessionThread := Function.update x.sessionThread k (f (x.sessionThread k)) }

def postMain (x : Threads σ M) (task : MainTask M) : Threads σ M :=
  { x with mainTasks := x.mainTasks ++ [task] }

def postSession (x : Threads σ M) (k : ℕ) (task : SessionTask M) : Threads σ M :=
  x.onThread k fun t => { t with tasks := t.tasks ++ [task] }

def idOf (x : Threads σ M) (c : ℕ) : UInt32 :=
  (x.connections[c]?).elim kInvalidTCPSessionId Connection.id

/-! ## The main thread -/

/-- The session of a connection that is refused is closed before it has an id. -/
def onSessionConnect (x : Threads σ M) (thread : ℕ) (allowed : Bool) (filter : σ) :
    Option (Threads σ M) :=
  (x.manager.onSessionConnect allowed x.connections.length).map fun
    | (none, _) => x
    | (some sessionId, manager) =>
      let connection : Connection σ M :=
        { handler := { sessionId := sessionId, sessionThreadId := thread }
          session := { filter := filter } }
      let y := { x with manager := manager, connections := x.connections ++ [connection] }
      y.postSession thread (.init x.connections.length sessionId)

def packMessageList (x : Threads σ M) (h : ℕ) : Threads σ M :=
  match x.connections[h]? with
  | none => x
  | some c =>
    if c.handler.messagesToBeSent = [] then x
    else
      (x.onConnection h fun c => { c with
        handler := { c.handler with messagesToBeSent := [] } }).postSession
          c.handler.sessionThreadId
          (.sendMessageListToSession c.handler.sessionId c.handler.messagesToBeSent h)

def send (empty : M → Bool) (x : Threads σ M) (h : ℕ) (message : M) : Threads σ M :=
  match x.connections[h]? with
  | none => x
  | some c =>
    if c.handler.sessionId = kInvalidTCPSessionId ∨ empty message then x
    else
      let y := x.onConnection h fun c => { c with
        handler := { c.handler with messagesToBeSent := c.handler.messagesToBeSent ++ [message] }
        accepted := c.accepted ++ [message] }
      if c.handler.messagesToBeSent = [] then y.postMain (.packMessageList h) else y

def close (x : Threads σ M) (h : ℕ) : Threads σ M :=
  match x.connections[h]? with
  | none => x
  | some c =>
    if c.handler.sessionId = kInvalidTCPSessionId then x
    else
      ((x.onConnection h fun c => { c with closeAsked := true }).packMessageList h).postSession
        c.handler.sessionThreadId (.closeSession c.handler.sessionId h)

def recipient (x : Threads σ M) (session : ℕ) : Option ℕ :=
  x.manager.getSessionHandler (x.idOf session)

def executeMain (x : Threads σ M) : MainTask M → Option (Threads σ M)
  | .packMessageList h => some (x.packMessageList h)
  | .onSessionClose id =>
    (x.manager.onSessionClose id).map fun manager =>
      match x.manager.getSessionHandler id with
      | none => { x with manager := manager }
      | some h =>
        let y := { x with manager := manager, closes := x.closes ++ [h] }
        y.onConnection h fun c =>
          { c with handler := { c.handler with sessionId := kInvalidTCPSessionId } }
  | .sendMessageListToHandler session messages =>
    some (match x.recipient session with
      | none => x
      | some h => { x with calls := x.calls ++ messages.map fun m => ⟨h, session, m⟩ })

/-! ## The session threads -/

def perform (x : Threads σ M) (k c : ℕ) : Effect M → Threads σ M
  | .packMessageList => x.postSession k (.packMessageList c)
  | .onSessionClose => x.postMain (.onSessionClose (x.idOf c))
  | .sendMessageListToHandler messages => x.postMain (.sendMessageListToHandler c messages)
  | .startTimer | .cancelTimer => x

/-- A step of a session on its thread. One that tears the session down ends with its removal from
the queue, which the tasks of this thread alone look at. -/
def sessionStep (F : NetMessageFilter σ M) (x : Threads σ M) (k c : ℕ) (e : Eddy.SessionEvent M) :
    Option (Threads σ M) := do
  let connection ← x.connections[c]?
  let session ← connection.session.step F e
  let y := x.onConnection c fun connection => { connection with
    session := { session with effects := [] }
    parsed := connection.parsed ++ Eddy.Server.parses F connection.session e }
  some (y.onThread k fun t => { t with
    pending := session.effects.map (c, ·)
    sessionQueue :=
      if session.tornDown = connection.session.tornDown then t.sessionQueue
      else t.sessionQueue.filter (·.1 ≠ connection.id) })

def init (F : NetMessageFilter σ M) (x : Threads σ M) (k c : ℕ) (id : UInt32) :
    Option (Threads σ M) := do
  let connection ← x.connections[c]?
  if connection.id ≠ kInvalidTCPSessionId ∨ id ∈ (x.sessionThread k).sessionQueue.map Prod.fst then
    none
  else
    some ((x.onConnection c fun connection => { connection with
      id := id
      session := connection.session.startRead F }).onThread k fun t => { t with
        sessionQueue := t.sessionQueue ++ [(id, c)] })

def getSession (x : Threads σ M) (k : ℕ) (id : UInt32) : Option ℕ :=
  (x.sessionThread k).sessionQueue.lookup id

def execute (F : NetMessageFilter σ M) (x : Threads σ M) (k : ℕ) :
    SessionTask M → Option (Threads σ M)
  | .init c id => x.init F k c id
  | .sendMessageListToSession id messages _ =>
    match x.getSession k id with
    | none => some x
    | some c =>
      (x.onConnection c fun connection => { connection with
        posted := connection.posted ++ messages }).sessionStep F k c (.postMessageList messages)
  | .closeSession id _ =>
    match x.getSession k id with
    | none => some x
    | some c => x.sessionStep F k c .close
  | .packMessageList c => x.sessionStep F k c .packMessageList

end Threads

inductive ThreadsEvent (σ M : Type)
  | onSessionConnect (thread : ℕ) (allowed : Bool) (filter : σ)
  | send (handler : ℕ) (message : M)
  | close (handler : ℕ)
  | runMain
  | runSession (thread : ℕ)
  | perform (thread : ℕ)
  | read (session : ℕ) (reading : Eddy.Reading) (error : Bool) (data : List UInt8)
  | written (session : ℕ) (buffer : List UInt8) (error : Bool)

namespace Threads
variable (F : NetMessageFilter σ M) (empty : M → Bool)

def complete (x : Threads σ M) (c : ℕ) (e : Eddy.SessionEvent M) : Option (Threads σ M) := do
  let connection ← x.connections[c]?
  if (x.sessionThread connection.handler.sessionThreadId).pending = [] then
    x.sessionStep F connection.handler.sessionThreadId c e
  else none

def step (x : Threads σ M) : ThreadsEvent σ M → Option (Threads σ M)
  | .onSessionConnect thread allowed filter => x.onSessionConnect thread allowed filter
  | .send handler message => some (x.send empty handler message)
  | .close handler => some (x.close handler)
  | .runMain =>
    match x.mainTasks with
    | [] => none
    | task :: rest => executeMain { x with mainTasks := rest } task
  | .runSession k =>
    match (x.sessionThread k).pending, (x.sessionThread k).tasks with
    | [], task :: rest => (x.onThread k fun t => { t with tasks := rest }).execute F k task
    | _, _ => none
  | .perform k =>
    match (x.sessionThread k).pending with
    | [] => none
    | (c, effect) :: rest => some ((x.onThread k fun t => { t with pending := rest }).perform k c effect)
  | .read c reading error data => x.complete F c (.handleRead reading error data)
  | .written c buffer error => x.complete F c (.handleWrite buffer error)

end Threads

end IceBridge.Gateway
