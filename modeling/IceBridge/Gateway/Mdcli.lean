import IceBridge.Lib.Rotation
import IceBridge.Lib.Run
import IceBridge.Router.Zmsg

/-! The gateway's client of the brokers (`mdcliapi2.hpp`, `mdcliapi2.cpp`). The main thread queues
requests and signals, the receive thread hears the brokers and sends them in turn what is queued.
Each access of a thread to what they share is a step. -/

namespace IceBridge.Gateway
open Router (Frame Zmsg)

structure Request where
  service : Frame
  msg : Zmsg
deriving DecidableEq

namespace Mdcli

/-- A broker; `heardAt` is when its last message came and `checkedAt` when `send_requests` has
last looked at its heartbeat. -/
structure Broker where
  status : Bool := false
  heartbeatAt : Int
  heardAt : Option Int := none
  checkedAt : Int := 0

structure Turn where
  broker : ℕ
  seen : Broker
  served : Option Request

/-- Where the main thread is in `send`: it has set `m_broker_ready` to 0, or it holds the lock and
has still to signal. -/
inductive Sender
  | idle
  | cleared (request : Request)
  | queued

/-- `send_requests` is called for a signal and before the loop, or for the message of a broker. -/
inductive Caller
  | loop
  | reply

/-- Where the receive thread is. While it is `draining` it holds the lock. -/
inductive Place
  | polling
  | reading
  | handling
  | scanning (caller : Caller) (broker : ℕ)
  | testing (caller : Caller)
  | locking (caller : Caller)
  | draining (caller : Caller)

end Mdcli

open Mdcli (Broker Turn Sender Caller Place)

/-- The brokers are in the order of `m_brokers`, and `replies` are the messages that the last
`zmq::poll` has found. `accepted` is all that was queued, and `beats` are the brokers that were
sent a heartbeat. -/
structure Mdcli where
  brokers : List Broker
  nextBroker : ℕ := 0
  brokerReady : Bool := false
  requests : List Request := []
  signals : ℕ := 0
  sender : Sender := .idle
  place : Place := .scanning .loop 0
  replies : List (ℕ × Zmsg) := []
  handled : List Frame := []
  accepted : List Request := []
  turns : List Turn := []
  beats : List ℕ := []

inductive MdcliEvent
  | send (request : Request)
  | push
  | signal
  | poll (signalled : Bool) (replies : List (ℕ × Zmsg))
  | receive (clock : Int)

namespace Mdcli

def start (created : List Int) : Mdcli := { brokers := created.map fun now => { heartbeatAt := now } }

def heartbeatInterval : Int := 2500 * 1000

def Broker.hear (clock : Int) (b : Broker) : Broker :=
  { b with heartbeatAt := clock + heartbeatInterval, status := true, heardAt := some clock }

def Broker.check (clock : Int) (b : Broker) : Broker :=
  { b with status := if b.heartbeatAt < clock then false else b.status, checkedAt := clock }

def Caller.back : Caller → Place
  | .loop => .reading
  | .reply => .handling

def scan (x : Mdcli) (clock : Int) (caller : Caller) (i : ℕ) : Mdcli :=
  match x.brokers[i]? with
  | none => { x with place := .testing caller }
  | some b => { x with
      brokers := x.brokers.modify i (Broker.check clock)
      place := .scanning caller (i + 1)
      brokerReady := if (b.check clock).status then true else x.brokerReady
      beats := if (b.check clock).status then x.beats else x.beats ++ [i] }

def drain (x : Mdcli) (caller : Caller) : Mdcli :=
  match x.requests, x.brokers[x.nextBroker]? with
  | request :: rest, some b =>
    let y := { x with nextBroker := (x.nextBroker + 1) % x.brokers.length }
    if b.status then
      { y with
        requests := rest
        turns := x.turns ++ [{ broker := x.nextBroker, seen := b, served := some request }] }
    else
      { y with turns := x.turns ++ [{ broker := x.nextBroker, seen := b, served := none }] }
  | _, _ => { x with place := caller.back }

/-- The assertions of `thread_recv_run_in_gateway` end the process, and without a body the handler
reads through a null pointer. -/
def handle (msg : Zmsg) : Option (List Frame) :=
  match msg with
  | empty :: header :: service :: rest =>
    if empty = [] ∧ header = Router.mdpcClient ∧ Router.cstr service = service then
      if service = Router.mdpwHeartbeat then some []
      else rest.getLast?.map fun data => [data]
    else none
  | _ => none

def receive (x : Mdcli) (clock : Int) : Option Mdcli :=
  match x.place with
  | .polling => none
  | .reading =>
    match x.replies with
    | [] => some { x with place := .polling }
    | (i, msg) :: _ =>
      if msg.length < 3 then none
      else some { x with
        brokers := x.brokers.modify i (Broker.hear clock)
        place := if x.requests = [] then .handling else .scanning .reply 0 }
  | .handling =>
    match x.replies with
    | [] => none
    | (_, msg) :: rest => (handle msg).map fun bodies =>
        { x with handled := x.handled ++ bodies, replies := rest, place := .reading }
  | .scanning caller i => some (x.scan clock caller i)
  | .testing caller =>
    some { x with place := if x.brokerReady then .locking caller else caller.back }
  | .locking caller =>
    match x.sender with
    | .queued => none
    | _ => some { x with place := .draining caller }
  | .draining caller => some (x.drain caller)

def step (x : Mdcli) : MdcliEvent → Option Mdcli
  | .send request =>
    match x.sender with
    | .idle => some { x with brokerReady := false, sender := .cleared request }
    | _ => none
  | .push =>
    match x.sender, x.place with
    | .cleared _, .draining _ => none
    | .cleared request, _ => some { x with
        requests := x.requests ++ [request]
        accepted := x.accepted ++ [request]
        sender := .queued }
    | _, _ => none
  | .signal =>
    match x.sender with
    | .queued => some { x with signals := x.signals + 1, sender := .idle }
    | _ => none
  | .poll signalled replies =>
    match x.place with
    | .polling =>
      if (signalled = true → 0 < x.signals) ∧
          (replies.map Prod.fst).Sublist (List.range x.brokers.length) then
        some { x with
          signals := if signalled then x.signals - 1 else x.signals
          replies := replies
          place := if signalled then .scanning .loop 0 else .reading }
      else none
    | _ => none
  | .receive clock => x.receive clock

end Mdcli

end IceBridge.Gateway
