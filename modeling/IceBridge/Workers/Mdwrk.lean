import IceBridge.Router.Preservation

/-! A worker process (`mdwrkapi.hpp`, `mdwrkapi.cpp`) together with the broker it is
connected to. The receive thread takes requests off the broker's socket and hands their
bodies to the main thread, which runs the handler later; replies come back to the receive
thread through the `inproc://pair` queue and leave under the address in `m_reply_to`. -/

namespace IceBridge.Workers
open Router

/-! ## Addresses -/

def wire (msg : Zmsg) : Zmsg := msg.map fun part => recvPart (sendPart part)

/-- A socket identity as the broker sees it: not empty, a C string, and unchanged by the
encoding of seventeen-byte identities. -/
structure Address where
  frame : Frame
  nonempty : frame ≠ []
  noZero : 0 ∉ frame
  stable : recvPart (sendPart frame) = frame

def Address.named (id : Frame) (hne : id ≠ []) (hz : 0 ∉ id)
    (h : ¬ (id.length = 33 ∧ id.head? = some 64)) : Address :=
  ⟨id, hne, hz, by
    rw [sendPart, if_neg h, recvPart, if_neg]
    rintro ⟨-, h0⟩
    exact hz (List.mem_of_mem_head? h0)⟩

def Address.generated (id : Frame) (hlen : id.length = 17) (h0 : id.head? = some 0) : Address where
  frame := encodeUuid id
  nonempty := by simp [encodeUuid]
  noZero := zero_notMem_encodeUuid id
  stable := by
    have henc : (encodeUuid id).length = 33 := by rw [length_encodeUuid, hlen]
    rw [sendPart, if_pos ⟨henc, rfl⟩, decodeUuid_encodeUuid h0, recvPart, if_pos ⟨hlen, h0⟩]

@[simp] theorem Address.cstr_frame (a : Address) : cstr a.frame = a.frame := cstr_eq_self a.noZero

/-! ## The worker and its broker -/

structure Config where
  /-- `m_worker_name`, the identity of the socket -/
  name : Address
  /-- `m_service` -/
  service : Frame

structure Task where
  client : Frame
  data : Frame
deriving DecidableEq, Repr

/-- A message on its way to the receive thread, and the client whose request was being
handled when it was sent, if one was. -/
structure Reply where
  client : Option Frame
  msg : Zmsg
deriving DecidableEq, Repr

/-- `inbox` is what the broker has sent and the receive thread has not read; `delivered`
lists each reply with the frames the broker sent for it. -/
structure System where
  broker : Broker
  replyTo : Frame
  inbox : List Zmsg
  tasks : List Task
  pair : List Reply
  delivered : List (Reply × Zmsg)

def initial : System := ⟨Router.initial, [], [], [], [], []⟩

inductive Event
  /-- another socket's message reaches the broker -/
  | peer (c : Address) (msg : Zmsg) (clock : ℕ → Int)
  /-- the receive thread's `zmq::poll` returns -/
  | poll (clock : ℕ → Int)
  /-- the main thread runs the handler of the oldest request, which sends these replies -/
  | handle (outs : List Frame)
  /-- the main thread sends while no request is handled, from a timer -/
  | push (data : Frame)
  | heartbeat (clock : ℕ → Int)
  | reconnect (clock : ℕ → Int)

def outbound (worker : Frame) (log : List Action) : List Zmsg :=
  log.filterMap fun action =>
    match action.frames with
    | some (address :: rest) => if address = worker then some (wire rest) else none
    | _ => none

namespace System

def toBroker (cfg : Config) (s : System) (r : Received) : Option (System × List Action) :=
  (s.broker.step r).map fun b =>
    let actions := b.log.drop s.broker.log.length
    ({ s with broker := b, inbox := s.inbox ++ outbound cfg.name.frame actions }, actions)

def brokerFrames (command key value : Frame) (msg : Zmsg) : Zmsg :=
  let msg := if value ≠ [] then pushFront value msg else msg
  let msg := if key ≠ [] then pushFront key msg else msg
  pushFront [] (pushFront mdpwWorker (pushFront command msg))

def sendToBroker (cfg : Config) (s : System) (command key value : Frame) (msg : Zmsg)
    (clock : ℕ → Int) : Option (System × List Action) :=
  s.toBroker cfg ⟨cfg.name.frame :: wire (brokerFrames command key value msg), clock⟩

/-- `delete_connect_to_broker` and `connect_to_broker`: what the old socket held is lost. -/
def reconnect (cfg : Config) (s : System) (clock : ℕ → Int) : Option System :=
  (sendToBroker cfg { s with inbox := [] } mdpwReady cfg.service
    ServiceType.serviceDoNotWaitResponse.text [] clock).map Prod.fst

def receive (cfg : Config) (s : System) (msg : Zmsg) (clock : ℕ → Int) : Option System :=
  match msg with
  | empty :: header :: command :: msg =>
    if empty = [] ∧ header = mdpwWorker then
      if cstr command = mdpwRequest then
        match unwrap msg with
        | .error _ => none
        | .ok (address, msg) =>
          some { s with
            replyTo := address
            tasks := s.tasks ++ [⟨address, msg.getLast?.getD []⟩] }
      else if cstr command = mdpwDisconnect then s.reconnect cfg clock
      else some s
    else none
  | _ => none

def forward (cfg : Config) (s : System) (reply : Reply) (clock : ℕ → Int) : Option System :=
  if s.replyTo = [] then none
  else
    (s.sendToBroker cfg mdpwReply [] [] (wrap s.replyTo [] reply.msg) clock).map fun (t, actions) =>
      { t with delivered := t.delivered ++ [(reply, ((actions.head?.bind Action.frames).getD []))] }

/-- One turn of the receive thread: the broker's socket comes first. -/
def poll (cfg : Config) (s : System) (clock : ℕ → Int) : Option System :=
  match s.inbox with
  | msg :: rest => receive cfg { s with inbox := rest } msg clock
  | [] =>
    match s.pair with
    | reply :: rest => forward cfg { s with pair := rest } reply clock
    | [] => some s

def send (s : System) (client : Option Frame) (data : Frame) : System :=
  { s with pair := s.pair ++ [⟨client, wire [data]⟩] }

def handle (s : System) (outs : List Frame) : Option System :=
  match s.tasks with
  | [] => none
  | task :: rest =>
    some (outs.foldl (fun s data => s.send (some task.client) data) { s with tasks := rest })

def step (cfg : Config) (s : System) : Event → Option System
  | .peer c msg clock =>
    if c.frame = cfg.name.frame then none
    else (s.toBroker cfg ⟨c.frame :: msg, clock⟩).map Prod.fst
  | .poll clock => s.poll cfg clock
  | .handle outs => s.handle outs
  | .push data => some (s.send none data)
  | .heartbeat clock => (s.sendToBroker cfg mdpwHeartbeat [] [] [] clock).map Prod.fst
  | .reconnect clock => s.reconnect cfg clock

end System

end IceBridge.Workers
