import IceBridge.Lib.Bytes
import IceBridge.Workers.ReplyTo
import Mathlib.Data.UInt

/-! Messages of players on their way from the gateway (`_login_worker.cpp`, `mdcliapi2.hpp`) through
the broker to the handler of a worker (`_small_map.cpp`). A request starts with its own length less
two, so one as long as an identity does not start like one. -/

namespace IceBridge.Workers
open Router

/-! ## The gateway -/

def serverChallengeRequestId : UInt32 := 1000
def loginRequestId : UInt16 := 1013
def logoutRequestId : UInt16 := 1032

def loginServiceNum : ℕ := 33
def maxReqNum : ℕ := 82

structure WorkerStatus where
  isLocal : Bool
  name : Frame

structure LoginWorker where
  loginStatus : Bool
  playerUuid : UInt32

def unsignedShortAt (bytes : List UInt8) : UInt16 := (Bytes.value (bytes.take 2)).toUInt16

/-- The body sent to workers: the size of what follows, in 16 bits, the player and the message. -/
def requestOf (playerUuid : UInt32) (message : List UInt8) : Frame :=
  Bytes.encode 2 (message.length + 4) ++ (Bytes.encode 4 playerUuid.toNat ++ message)

/-- The request `OnMessage` gives `logic_server->send`, if it gives one; `index` is unsigned. -/
def LoginWorker.onMessage (workerStatus : ℕ → WorkerStatus) (w : LoginWorker)
    (message : List UInt8) : Option (Frame × Zmsg) :=
  if message.length < 2 then none
  else
    let index := ((unsignedShortAt message).toUInt32 - serverChallengeRequestId).toNat
    if maxReqNum - 1 < index then none
    else if index < loginServiceNum then none
    else if (workerStatus index).isLocal ∧ w.loginStatus then none
    else if w.loginStatus = false then none
    else if (workerStatus index).name ≠ [] ∧ (workerStatus index).name ≠ ascii [' '] then
      some ((workerStatus index).name, [requestOf w.playerUuid message])
    else none

def logic : Frame := ascii ['l', 'o', 'g', 'i', 'c']
def worldmap : Frame := ascii ['w', 'o', 'r', 'l', 'd', 'm', 'a', 'p']
def pvpServer : Frame := ascii ['p', 'v', 'p', 'S', 'e', 'r', 'v', 'e', 'r']

def onlineNotifyWorker (uuid : UInt32) : List (Frame × Zmsg) :=
  [logic, pvpServer].map fun service =>
    (service, [requestOf uuid (Bytes.encode 2 loginRequestId.toNat)])

def offLineNotifyWorker (uuid : UInt32) : List (Frame × Zmsg) :=
  [logic, worldmap, pvpServer].map fun service =>
    (service, [requestOf uuid (Bytes.encode 2 logoutRequestId.toNat)])

def initData : List (Frame × Zmsg) := [(worldmap, [ascii ['a', 'a']])]

def requestFrames (commandOrService : Frame) (msg : Zmsg) : Zmsg :=
  pushFront [] (pushFront mdpcClient (pushFront commandOrService msg))

/-! ## The handler -/

/-- What `process` calls: `dispatch_func` 0 or 1 with no object, or with the one that it unpacks
from the payload. -/
inductive Dispatched
  | login (playerUuid : Int32)
  | logout (playerUuid : Int32)
  | request (playerUuid : Int32) (messageId : Int16) (payload : List UInt8)
deriving DecidableEq

def shortAt (bytes : List UInt8) : Int16 := (unsignedShortAt bytes).toInt16

def process (data : Frame) : Option Dispatched :=
  if data.length < 8 then none
  else
    let playerUuid := (Bytes.value ((data.drop 2).take 4)).toUInt32.toInt32
    let messageId := shortAt (data.drop 6)
    if messageId = loginRequestId.toInt16 then some (.login playerUuid)
    else if messageId = logoutRequestId.toInt16 then some (.logout playerUuid)
    else some (.request playerUuid messageId (data.drop 8))

/-! ## The way -/

structure Route where
  requests : List (Frame × Zmsg) := []
  system : System := initial

inductive RouteEvent
  | onMessage (w : LoginWorker) (message : List UInt8)
  | onlineNotifyWorker (uuid : UInt32)
  | offLineNotifyWorker (uuid : UInt32)
  | initData
  /-- `send_requests` sends the oldest request -/
  | sendRequest (clock : ℕ → Int)
  | heartbeat (clock : ℕ → Int)
  /-- a step of the broker, the worker or another client -/
  | other (e : Event)

namespace Route

def posts (workerStatus : ℕ → WorkerStatus) : RouteEvent → List (Frame × Zmsg)
  | .onMessage w message => (w.onMessage workerStatus message).toList
  | .onlineNotifyWorker uuid => Workers.onlineNotifyWorker uuid
  | .offLineNotifyWorker uuid => Workers.offLineNotifyWorker uuid
  | .initData => Workers.initData
  | _ => []

def isClient (client : Address) : Event → Bool
  | .peer c _ _ => c.frame = client.frame
  | _ => false

def step (cfg : Config) (client : Address) (workerStatus : ℕ → WorkerStatus) (s : Route) :
    RouteEvent → Option Route
  | .sendRequest clock =>
    match s.requests with
    | [] => none
    | (service, msg) :: rest =>
      (s.system.step cfg (.peer client (wire (requestFrames service msg)) clock)).map
        fun system => { requests := rest, system := system }
  | .heartbeat clock =>
    (s.system.step cfg (.peer client (wire (requestFrames mdpwHeartbeat [[]])) clock)).map
      fun system => { s with system := system }
  | .other e =>
    if isClient client e then none
    else (s.system.step cfg e).map fun system => { s with system := system }
  | e => some { s with requests := s.requests ++ posts workerStatus e }

end Route

/-! ## Bodies on the wire -/

def Plain (data : Frame) : Prop := sendPart data = data ∧ recvPart data = data

theorem plain_of_length {data : Frame} (h33 : data.length = 33 → data.head? ≠ some 64)
    (h17 : data.length = 17 → data.head? ≠ some 0) : Plain data := by
  constructor
  · exact if_neg fun h => h33 h.1 h.2
  · exact if_neg fun h => h17 h.1 h.2

theorem length_requestOf (playerUuid : UInt32) (message : List UInt8) :
    (requestOf playerUuid message).length = message.length + 6 := by
  rw [requestOf, List.length_append, List.length_append, Bytes.length_encode, Bytes.length_encode]
  omega

theorem plain_requestOf (playerUuid : UInt32) (message : List UInt8) :
    Plain (requestOf playerUuid message) := by
  have hhead : (requestOf playerUuid message).head? = some (message.length + 4).toUInt8 := rfl
  apply plain_of_length
  · intro hlen
    rw [length_requestOf] at hlen
    obtain hlen : message.length = 27 := by omega
    rw [hhead, hlen]
    decide
  · intro hlen
    rw [length_requestOf] at hlen
    obtain hlen : message.length = 11 := by omega
    rw [hhead, hlen]
    decide

theorem Plain.wire_eq {data : Frame} (h : Plain data) : wire [data] = [data] := by
  rw [wire, List.map_singleton, h.1, h.2]

/-! ## What the handler reads -/

theorem drop_two_requestOf (playerUuid : UInt32) (message : List UInt8) :
    (requestOf playerUuid message).drop 2 = Bytes.encode 4 playerUuid.toNat ++ message :=
  List.drop_left' (Bytes.length_encode 2 _)

theorem drop_six_requestOf (playerUuid : UInt32) (message : List UInt8) :
    (requestOf playerUuid message).drop 6 = message := by
  have hsix : (requestOf playerUuid message).drop 6 =
      ((requestOf playerUuid message).drop 2).drop 4 := by rw [List.drop_drop]
  rw [hsix, drop_two_requestOf, List.drop_left' (Bytes.length_encode 4 _)]

theorem playerUuid_requestOf (playerUuid : UInt32) (message : List UInt8) :
    Bytes.value (((requestOf playerUuid message).drop 2).take 4) = playerUuid.toNat := by
  rw [drop_two_requestOf, List.take_left' (Bytes.length_encode 4 _)]
  exact Bytes.value_encode_of_lt playerUuid.toNat_lt

theorem process_requestOf (playerUuid : UInt32) {message : List UInt8} (hlen : 2 ≤ message.length)
    (hlogin : shortAt message ≠ loginRequestId.toInt16)
    (hlogout : shortAt message ≠ logoutRequestId.toInt16) :
    process (requestOf playerUuid message) =
      some (.request playerUuid.toInt32 (shortAt message) (message.drop 2)) := by
  have hlong : ¬ (requestOf playerUuid message).length < 8 := by
    rw [length_requestOf]
    omega
  have hpayload : (requestOf playerUuid message).drop 8 = message.drop 2 := by
    rw [← drop_six_requestOf playerUuid message, List.drop_drop, drop_six_requestOf]
  rw [process, if_neg hlong, playerUuid_requestOf, drop_six_requestOf, hpayload]
  simp only [hlogin, hlogout, if_false, UInt32.ofNat_toNat]

/-! ## What the gateway forwards -/

section OnMessage
variable {workerStatus : ℕ → WorkerStatus} {w : LoginWorker} {message : List UInt8}
  {request : Frame × Zmsg}

theorem LoginWorker.onMessage_eq_some (h : w.onMessage workerStatus message = some request) :
    2 ≤ message.length ∧
      loginServiceNum ≤ ((unsignedShortAt message).toUInt32 - serverChallengeRequestId).toNat ∧
      request.2 = [requestOf w.playerUuid message] := by
  unfold LoginWorker.onMessage at h
  split at h
  · cases h
  · next hshort =>
    dsimp only at h
    split_ifs at h with hhigh hlow
    exact ⟨Nat.le_of_not_lt hshort, Nat.le_of_not_lt hlow, (Option.some.inj h) ▸ rfl⟩

theorem shortAt_ne_of_service {id : UInt16}
    (hid : (id.toUInt32 - serverChallengeRequestId).toNat < loginServiceNum)
    (h : loginServiceNum ≤ ((unsignedShortAt message).toUInt32 - serverChallengeRequestId).toNat) :
    shortAt message ≠ id.toInt16 := by
  intro heq
  have hsame : unsignedShortAt message = id := by
    rw [← UInt16.toUInt16_toInt16 (unsignedShortAt message), ← UInt16.toUInt16_toInt16 id]
    exact congrArg Int16.toUInt16 heq
  rw [hsame] at h
  exact absurd hid (Nat.not_lt.mpr h)

theorem LoginWorker.process_onMessage (h : w.onMessage workerStatus message = some request) :
    ∃ data, request.2 = [data] ∧ Plain data ∧
      process data = some (.request w.playerUuid.toInt32 (shortAt message) (message.drop 2)) := by
  obtain ⟨hlen, hservice, hrequest⟩ := onMessage_eq_some h
  refine ⟨_, hrequest, plain_requestOf w.playerUuid message, process_requestOf _ hlen ?_ ?_⟩
  · exact shortAt_ne_of_service (by decide) hservice
  · exact shortAt_ne_of_service (by decide) hservice

end OnMessage

/-! ## What is under way -/

def Sealed (client : Address) (P : Frame → Prop) (msg : Zmsg) : Prop :=
  ∃ (c : Address) (body : Zmsg), msg = c.frame :: [] :: body ∧
    (c.frame = client.frame → ∃ data, body = [data] ∧ P data)

namespace System

structure Carries (client : Address) (P : Frame → Prop) (s : System) : Prop where
  wf : s.broker.WellFormed
  queue : ∀ n, ∀ msg ∈ s.broker.queue n, Sealed client P msg
  inbox : ∀ msg ∈ s.inbox, RequestOf (Sealed client P) msg
  tasks : ∀ task ∈ s.tasks, task.client = client.frame → P task.data

def Sends (client : Address) (P : Frame → Prop) : Event → Prop
  | .peer c msg _ => c.frame = client.frame → ∀ x header service body,
      msg = x :: header :: service :: body → cstr service ≠ mdpwHeartbeat →
        ∃ data, body = [data] ∧ P data
  | _ => True

variable {cfg : Config} {client : Address} {P : Frame → Prop} {s t : System} {e : Event}

theorem data_of_sealed (hP : ∀ data, P data → Plain data) {m body : Zmsg} {address : Frame}
    (hm : Sealed client P m) (hun : unwrap (wire m) = .ok (address, body))
    (hclient : address = client.frame) : P (body.getLast?.getD []) := by
  obtain ⟨c, parts, rfl, hparts⟩ := hm
  have hwire : wire (c.frame :: [] :: parts) = wrap c.frame [] (wire parts) := by
    simp only [wire, List.map_cons, c.stable, wrap, pushFront, Address.cstr_frame]
    rfl
  rw [hwire, unwrap_wrap, Address.cstr_frame] at hun
  obtain ⟨rfl, rfl⟩ := Prod.mk.inj (Except.ok.inj hun)
  obtain ⟨data, rfl, hdata⟩ := hparts hclient
  rw [(hP data hdata).wire_eq]
  exact hdata

theorem carries_step (hP : ∀ data, P data → Plain data) (hs : s.Carries client P)
    (he : Sends client P e) (h : s.step cfg e = some t) : t.Carries client P := by
  cases moves_step h with
  | @broker c msg clock hsource hb hinbox hreply htasks =>
    have hnew : ∀ p x header service body, c.frame :: msg = p :: x :: header :: service :: body →
        cstr header = mdpcClient → cstr service ≠ mdpwHeartbeat →
          Sealed client P (wrap (cstr p) [] body) := by
      intro p x header service body hp hheader hbeat
      obtain ⟨rfl, rfl⟩ := List.cons.inj hp
      refine ⟨c, body, by simp [wrap, pushFront], fun hclient => ?_⟩
      obtain ⟨clock, rfl, -⟩ | ⟨-, rest, hrest⟩ := hsource
      · exact he hclient x header service body rfl hbeat
      · -- the worker's own messages are not a client's
        obtain ⟨-, rfl, -⟩ := by simpa using hrest
        exact absurd hheader (by decide)
    obtain ⟨hq, hin⟩ := queue_broker hs.wf hs.queue hnew hb hinbox
    exact ⟨Broker.wellFormed_step hs.wf hb, hq, fun m hm => (hin m hm).elim (hs.inbox m) id,
      htasks ▸ hs.tasks⟩
  | request hmem hc hun hb hinbox hreply htasks =>
    obtain ⟨m, hm, rfl⟩ := hs.inbox _ hmem _ _ rfl hc
    refine ⟨hb ▸ hs.wf, hb ▸ hs.queue, fun m hm => hs.inbox m (hinbox m hm), fun task htask => ?_⟩
    rw [htasks] at htask
    obtain htask | htask := List.mem_append.mp htask
    · exact hs.tasks task htask
    · obtain rfl := List.mem_singleton.mp htask
      exact data_of_sealed hP hm hun
  | neither hb hinbox hreply htasks =>
    exact ⟨hb ▸ hs.wf, hb ▸ hs.queue, fun m hm => hs.inbox m (hinbox m hm),
      fun task htask => hs.tasks task (htasks task htask)⟩

theorem carries_initial : initial.Carries client P :=
  ⟨Broker.wellFormed_initial, nofun, nofun, nofun⟩

end System

namespace Route
variable {cfg : Config} {client : Address} {workerStatus : ℕ → WorkerStatus} {P : Frame → Prop}
  {s t : Route} {e : RouteEvent}

structure Carries (client : Address) (P : Frame → Prop) (s : Route) : Prop where
  requests : ∀ request ∈ s.requests, ∃ data, request.2 = [data] ∧ P data
  system : s.system.Carries client P

theorem sends_request (hP : ∀ data, P data → Plain data) {service data : Frame} (hdata : P data)
    (clock : ℕ → Int) :
    System.Sends client P (.peer client (wire (requestFrames service [data])) clock) := by
  intro _ x header service' body hmsg _
  obtain ⟨-, -, -, hbody⟩ : _ ∧ _ ∧ _ ∧ wire [data] = body := by
    simpa [requestFrames, pushFront, wire] using hmsg
  exact ⟨data, by rw [← hbody, (hP data hdata).wire_eq], hdata⟩

theorem sends_heartbeat (clock : ℕ → Int) :
    System.Sends client P (.peer client (wire (requestFrames mdpwHeartbeat [[]])) clock) := by
  intro _ x header service body hmsg hbeat
  obtain ⟨-, -, rfl, -⟩ : _ ∧ _ ∧ recvPart (sendPart (cstr mdpwHeartbeat)) = service ∧ _ := by
    simpa [requestFrames, pushFront, wire] using hmsg
  exact absurd (by decide) hbeat

theorem sends_other {event : Event} (h : isClient client event = false) :
    System.Sends client P event := by
  cases event with
  | peer c msg clock => exact fun hclient => absurd hclient (by simpa [isClient] using h)
  | _ => trivial

theorem carries_step (hP : ∀ data, P data → Plain data) (hs : s.Carries client P)
    (he : ∀ request ∈ posts workerStatus e, ∃ data, request.2 = [data] ∧ P data)
    (h : s.step cfg client workerStatus e = some t) : t.Carries client P := by
  have hposts : ∀ request ∈ s.requests ++ posts workerStatus e, ∃ data, request.2 = [data] ∧ P data :=
    fun request hr => (List.mem_append.mp hr).elim (hs.requests request) (he request)
  cases e with
  | sendRequest clock =>
    simp only [step] at h
    split at h
    · cases h
    · next service msg rest hrequests =>
      obtain ⟨data, hdata, hPdata⟩ := hs.requests _ (hrequests ▸ List.mem_cons_self)
      obtain rfl : msg = [data] := hdata
      obtain ⟨system, hsystem, rfl⟩ := Option.map_eq_some_iff.mp h
      refine ⟨fun request hr => hs.requests request (hrequests ▸ List.mem_cons_of_mem _ hr), ?_⟩
      exact System.carries_step hP hs.system (sends_request hP hPdata clock) hsystem
  | heartbeat clock =>
    obtain ⟨system, hsystem, rfl⟩ := Option.map_eq_some_iff.mp h
    exact ⟨hs.requests, System.carries_step hP hs.system (sends_heartbeat clock) hsystem⟩
  | other event =>
    simp only [step] at h
    split_ifs at h with hclient
    obtain ⟨system, hsystem, rfl⟩ := Option.map_eq_some_iff.mp h
    have hother := sends_other (P := P) (Bool.eq_false_iff.mpr hclient)
    exact ⟨hs.requests, System.carries_step hP hs.system hother hsystem⟩
  | onMessage w message => exact Option.some.inj h ▸ ⟨hposts, hs.system⟩
  | onlineNotifyWorker uuid => exact Option.some.inj h ▸ ⟨hposts, hs.system⟩
  | offLineNotifyWorker uuid => exact Option.some.inj h ▸ ⟨hposts, hs.system⟩
  | initData => exact Option.some.inj h ▸ ⟨hposts, hs.system⟩

/-! ## Runs -/

theorem plain_posts {request : Frame × Zmsg} (h : request ∈ posts workerStatus e) :
    ∃ data, request.2 = [data] ∧ Plain data := by
  cases e with
  | onMessage w message =>
    obtain ⟨data, hdata, hplain, -⟩ := LoginWorker.process_onMessage (Option.mem_toList.mp h)
    exact ⟨data, hdata, hplain⟩
  | onlineNotifyWorker uuid =>
    obtain ⟨service, -, rfl⟩ := List.mem_map.mp h
    exact ⟨_, rfl, plain_requestOf uuid _⟩
  | offLineNotifyWorker uuid =>
    obtain ⟨service, -, rfl⟩ := List.mem_map.mp h
    exact ⟨_, rfl, plain_requestOf uuid _⟩
  | initData =>
    obtain rfl := List.mem_singleton.mp h
    exact ⟨_, rfl, by unfold Plain; decide⟩
  | sendRequest clock => cases h
  | heartbeat clock => cases h
  | other event => cases h

/-- A body that `e` sent, as it was; one forwarded for a player tells the player, the id and the
payload. -/
def Sent (workerStatus : ℕ → WorkerStatus) (e : RouteEvent) (data : Frame) : Prop :=
  (∃ service, (service, [data]) ∈ posts workerStatus e) ∧ Plain data ∧
    ∀ w message, e = .onMessage w message →
      process data = some (.request w.playerUuid.toInt32 (shortAt message) (message.drop 2))

theorem carries_start : Carries client P {} :=
  ⟨fun _ hr => absurd hr List.not_mem_nil, System.carries_initial⟩

theorem sent_of_posts {request : Frame × Zmsg} (h : request ∈ posts workerStatus e) :
    ∃ data, request.2 = [data] ∧ Sent workerStatus e data := by
  obtain ⟨data, hdata, hplain⟩ := plain_posts h
  refine ⟨data, hdata, ⟨request.1, hdata ▸ h⟩, hplain, ?_⟩
  rintro w message rfl
  obtain ⟨data', hdata', -, hprocess⟩ := LoginWorker.process_onMessage (Option.mem_toList.mp h)
  obtain ⟨rfl, -⟩ := List.cons.inj (hdata.symm.trans hdata')
  exact hprocess

/-- Whatever else goes on, a body that reaches the handler from the gateway is one that the gateway
sent, unaltered. -/
theorem sent_of_arrived (cfg : Config) (client : Address) (workerStatus : ℕ → WorkerStatus)
    {es : List RouteEvent} (h : Run.exec (step cfg client workerStatus) {} es = some s) :
    ∀ task ∈ s.system.tasks, task.client = client.frame →
      ∃ e ∈ es, Sent workerStatus e task.data := by
  have hplain : ∀ data, (∃ e ∈ es, Sent workerStatus e data) → Plain data :=
    fun data ⟨_, _, hsent⟩ => hsent.2.1
  have heach : Run.EachStep (step cfg client workerStatus) (fun _ e => e ∈ es) {} es :=
    Run.eachStep_of_forall _ fun e he _ => he
  have hstep : ∀ s e t, Carries client (fun data => ∃ e ∈ es, Sent workerStatus e data) s →
      e ∈ es → step cfg client workerStatus s e = some t →
        Carries client (fun data => ∃ e ∈ es, Sent workerStatus e data) t := by
    refine fun s e t hs he ht => carries_step hplain hs (fun request hr => ?_) ht
    obtain ⟨data, hdata, hsent⟩ := sent_of_posts hr
    exact ⟨data, hdata, e, he, hsent⟩
  have hrun := Run.always_of_eachStep hstep carries_start heach
  exact ((Run.always_iff_prefixes _ _).mp hrun es (List.prefix_refl es) s h).system.tasks

theorem sent_of_arrived_seventeen :
    ∃ s : Route, s.system.tasks =
        [⟨System.gateway1.frame, [15, 0, 2, 1, 0, 0, 29, 4, 0, 0, 0, 0, 0, 0, 0, 0, 0]⟩] ∧
      ∀ task ∈ s.system.tasks, task.client = System.gateway1.frame →
        ∃ e ∈ [RouteEvent.other (.reconnect fun _ => 0),
            .onMessage ⟨true, 258⟩ [29, 4, 0, 0, 0, 0, 0, 0, 0, 0, 0], .sendRequest fun _ => 0,
            .other (.poll fun _ => 0)],
          Sent (fun _ => ⟨false, logic⟩) e task.data :=
  ⟨_, rfl, sent_of_arrived ⟨System.worker1, logic⟩ System.gateway1 (fun _ => ⟨false, logic⟩) rfl⟩

end Route

end IceBridge.Workers
