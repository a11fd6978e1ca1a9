import IceBridge.Gateway.Broadcast
import IceBridge.Router.Watched
import IceBridge.Workers.Forward

/-! Messages of workers on their way to players: packed by `WorkerSender` (`base_function.hpp`),
sent through the broker, and unpacked by the gateway (`mdcliapi2.cpp`, `__server.cpp`). -/

namespace IceBridge.Workers
open Router

/-! ## WorkerSender -/

section
variable {MessageType : Type*} (pack : MessageType → List UInt8)

def shortBytes (x : Int16) : List UInt8 := Bytes.encode 2 x.toUInt16.toNat

def uuidBytes (uuids : List UInt32) : List UInt8 := uuids.flatMap fun uuid => Bytes.encode 4 uuid.toNat

def sendToPlayer (message : MessageType) (responId : Int32) (playerUuid : UInt32) : Frame :=
  shortBytes 1 ++ (uuidBytes [playerUuid] ++ (shortBytes responId.toInt16 ++ pack message))

def sendToPlayerList (message : MessageType) (responId : Int32) (playerUuidList : List UInt32) :
    Option Frame :=
  if playerUuidList.length = 0 then none
  else
    let playerCount := playerUuidList.length.toUInt16.toInt16
    some (shortBytes playerCount ++
      (uuidBytes playerUuidList ++ (shortBytes responId.toInt16 ++ pack message)))

def responseOf (message : MessageType) (responId : Int32) : List UInt8 :=
  shortBytes responId.toInt16 ++ pack message

end

/-! ## The gateway -/

abbrev Calls := List (UInt32 × List UInt8)

/-- One turn of the loop of `handler_in_gateway`, with the call noted; `registered` says for
which players `UuidHandlerPoitiner` holds a handler. -/
def sendNoted (registered : UInt32 → Bool) (netMessage : Gateway.NetMessage)
    (s : Gateway.Sessions × Calls) (uuid : UInt32) : Gateway.Sessions × Calls :=
  if registered uuid then (s.1.send netMessage uuid, s.2 ++ [(uuid, netMessage.bytes s.1.heap)])
  else s

def handlerInGateway (registered : UInt32 → Bool) (data : Frame) (g : Gateway.Sessions) :
    Option (Gateway.Sessions × Calls) :=
  let usercount := Bytes.value (data.take 2)
  let offset := 2 + 4 * usercount
  if data.length < 2 ∨ 32768 ≤ usercount then none
  else if data.length < offset ∨ 10240000 < data.length - offset then some (g, [])
  else
    let (heap, netMessage) := ({} : Gateway.NetMessage).write g.heap (data.drop offset)
    let (g, calls) := (Gateway.Sessions.readUuids usercount (data.drop 2)).foldl
      (sendNoted registered netMessage) ({ g with heap := heap }, [])
    some ({ g with heap := (netMessage.clear g.heap).1 }, calls)

/-- One message in `thread_recv_run_in_gateway`; its assertions end the process, and without a
body the handler reads through a null pointer. -/
def threadRecvRunInGateway (registered : UInt32 → Bool) (msg : Zmsg) (g : Gateway.Sessions) :
    Option (Gateway.Sessions × Calls) :=
  match msg with
  | empty :: header :: service :: msg =>
    if empty.length = 0 ∧ header = mdpcClient ∧ cstr service = service then
      if service = mdpwHeartbeat then some (g, [])
      else msg.getLast?.bind fun data => handlerInGateway registered data g
    else none
  | _ => none

/-! ## What the handler does -/

section
variable {registered : UInt32 → Bool} {m : Gateway.NetMessage} {g : Gateway.Sessions}

theorem foldl_sendNoted (calls : Calls) (us : List UInt32) :
    us.foldl (sendNoted registered m) (g, calls) =
      ((us.filter registered).foldl (Gateway.Sessions.send m) g,
        calls ++ (us.filter registered).map fun u => (u, m.bytes g.heap)) := by
  induction us generalizing g calls with
  | nil => simp
  | cons u us ih =>
    have hbytes : m.bytes (g.send m u).heap = m.bytes g.heap :=
      Gateway.NetMessage.bytes_congr (Gateway.Sessions.send_eq m g u).1
    rw [List.foldl_cons, sendNoted]
    split_ifs with hu
    · rw [ih, List.filter_cons_of_pos hu, hbytes]
      simp
    · rw [ih, List.filter_cons_of_neg hu]

theorem foldl_filter_registered (hopen : ∀ u, registered u = false → g.session u = none)
    (us : List UInt32) :
    (us.filter registered).foldl (Gateway.Sessions.send m) g = us.foldl (Gateway.Sessions.send m) g := by
  induction us generalizing g with
  | nil => rfl
  | cons u us ih =>
    have hopen' : ∀ v, registered v = false → (g.send m u).session v = none := by
      intro v hv
      rw [(Gateway.Sessions.send_eq m g u).2, hopen v hv]
      split_ifs <;> rfl
    rcases hu : registered u with _ | _
    · have hskip : g.send m u = g := by rw [Gateway.Sessions.send, hopen u hu]
      rw [List.filter_cons_of_neg (by simp [hu]), List.foldl_cons, hskip, ih hopen]
    · rw [List.filter_cons_of_pos hu, List.foldl_cons, List.foldl_cons, ih hopen']

theorem handlerInGateway_fst (hopen : ∀ u, registered u = false → g.session u = none)
    (data : Frame) :
    (handlerInGateway registered data g).map Prod.fst = g.handlerInGateway data := by
  unfold handlerInGateway Gateway.Sessions.handlerInGateway
  dsimp only
  split_ifs
  · rfl
  · rfl
  · rw [foldl_sendNoted]
    dsimp only
    rw [foldl_filter_registered (by exact hopen)]
    rfl

theorem length_uuidBytes (uuids : List UInt32) : (uuidBytes uuids).length = 4 * uuids.length :=
  Gateway.Sessions.length_flatMap_encode uuids

theorem handlerInGateway_body (uuids : List UInt32) (payload : List UInt8)
    (hcount : uuids.length < 32768) (hsize : payload.length ≤ 10240000) :
    ∃ g', handlerInGateway registered
      (Bytes.encode 2 uuids.length ++ (uuidBytes uuids ++ payload)) g =
        some (g', (uuids.filter registered).map fun u => (u, payload)) := by
  obtain ⟨data, hdata⟩ : ∃ data, data = Bytes.encode 2 uuids.length ++ (uuidBytes uuids ++ payload) :=
    ⟨_, rfl⟩
  have hvalue : Bytes.value (data.take 2) = uuids.length := by
    rw [hdata, List.take_left' (Bytes.length_encode _ _)]
    exact Bytes.value_encode_of_lt (by norm_num; omega)
  have hlen : data.length = 2 + 4 * uuids.length + payload.length := by
    rw [hdata, List.length_append, List.length_append, length_uuidBytes, Bytes.length_encode,
      add_assoc]
  have hpayload : data.drop (2 + 4 * uuids.length) = payload := by
    rw [hdata, ← List.append_assoc]
    apply List.drop_left'
    rw [List.length_append, length_uuidBytes, Bytes.length_encode]
  have huuids : Gateway.Sessions.readUuids uuids.length (data.drop 2) = uuids := by
    rw [hdata, List.drop_left' (Bytes.length_encode _ _)]
    exact Gateway.Sessions.readUuids_data _ _
  obtain ⟨h', m, hwrite, hbytes, -⟩ := Gateway.NetMessage.write_fresh g.heap payload
  rw [← hdata]
  unfold handlerInGateway
  dsimp only
  rw [hvalue, if_neg (by omega), if_neg (by omega), hpayload, huuids, hwrite]
  dsimp only
  rw [foldl_sendNoted, List.nil_append, hbytes]
  exact ⟨_, rfl⟩

end

/-! ## Bodies of WorkerSender -/

section
variable {MessageType : Type*} {pack : MessageType → List UInt8} {message : MessageType}
  {responId : Int32}

def SentTo (pack : MessageType → List UInt8) (message : MessageType) (responId : Int32)
    (players : List UInt32) (body : Frame) : Prop :=
  sendToPlayerList pack message responId players = some body ∨
    ∃ player, players = [player] ∧ sendToPlayer pack message responId player = body

theorem SentTo.body_eq {players : List UInt32} {body : Frame}
    (h : SentTo pack message responId players body) : players ≠ [] ∧
      body = Bytes.encode 2 (players.length % 65536) ++
        (uuidBytes players ++ responseOf pack message responId) := by
  obtain h | ⟨player, rfl, rfl⟩ := h
  · unfold sendToPlayerList at h
    split_ifs at h with hnil
    obtain rfl := Option.some.inj h
    refine ⟨fun h => hnil (by rw [h]; rfl), ?_⟩
    simp [shortBytes, responseOf]
  · exact ⟨List.cons_ne_nil _ _, rfl⟩

/-- A body does not look like an identity: with a count that ends in a zero byte or in 64 it is
longer than one. -/
theorem SentTo.plain {players : List UInt32} {body : Frame} (hcount : players.length < 32768)
    (h : SentTo pack message responId players body) : Plain body := by
  obtain ⟨hne, rfl⟩ := h.body_eq
  have hpos : 0 < players.length := List.length_pos_iff.mpr hne
  rw [Nat.mod_eq_of_lt (by omega)]
  have hlen : ∀ payload, (Bytes.encode 2 players.length ++ (uuidBytes players ++ payload)).length =
      2 + 4 * players.length + payload.length := by
    intro payload
    rw [List.length_append, List.length_append, length_uuidBytes, Bytes.length_encode, add_assoc]
  have hhead : ∀ payload, (Bytes.encode 2 players.length ++ (uuidBytes players ++ payload)).head? =
      some players.length.toUInt8 := fun _ => rfl
  have hbyte : ∀ x : UInt8, some players.length.toUInt8 = some x →
      players.length % 256 = x.toNat := by
    rintro x hx
    rw [← Option.some.inj hx]
    exact UInt8.toNat_ofNat'.symm
  apply plain_of_length
  · intro h33 h64
    have hmod := hbyte 64 (hhead _ ▸ h64)
    rw [hlen] at h33
    simp at hmod
    omega
  · intro h17 h0
    have hmod := hbyte 0 (hhead _ ▸ h0)
    rw [hlen] at h17
    simp at hmod
    omega

end

/-! ## Where the worker is in the broker -/

theorem zero_notMem_wirePart {part : Frame} (h : 0 ∉ part) : 0 ∉ recvPart (sendPart part) := by
  unfold recvPart
  split_ifs with hu
  · exact zero_notMem_encodeUuid _
  · unfold sendPart at hu ⊢
    split_ifs at hu ⊢ with ht
    · have hlen : (decodeUuid part).length = 17 := by
        simp only [decodeUuid, List.length_cons, length_decodePairs, List.length_tail]
        omega
      exact absurd ⟨hlen, rfl⟩ hu
    · exact h

def serviceName (cfg : Config) : Frame := cstr (recvPart (sendPart (cstr cfg.service)))

def AtService (cfg : Config) (v m : Frame) : Prop := cstr v = cfg.name.frame → m = serviceName cfg

inductive Own (cfg : Config) : Zmsg → Prop
  | ready : Own cfg (wire (System.brokerFrames mdpwReady cfg.service
      ServiceType.serviceDoNotWaitResponse.text []))
  | heartbeat : Own cfg (wire (System.brokerFrames mdpwHeartbeat [] [] []))
  | reply (address : Frame) (msg : Zmsg) :
      Own cfg (wire (System.brokerFrames mdpwReply [] [] (wrap address [] msg)))

theorem Own.atService {cfg : Config} {msg : Zmsg} (h : Own cfg msg) {w n t : Frame}
    (hr : Broker.readyOf (cfg.name.frame :: msg) = some (w, n, t)) : n = serviceName cfg := by
  obtain ⟨p, x, hd, c, n', t', rest, heq, -, hc, -⟩ := Broker.readyOf_eq_some hr
  cases h with
  | ready =>
    have htext : ServiceType.serviceDoNotWaitResponse.text ≠ [] := by decide
    have hkey : cfg.service ≠ [] := by
      rintro hkey
      simp [System.brokerFrames, pushFront, wire, hkey, htext] at heq
    simp only [System.brokerFrames, pushFront, wire, hkey, htext, ne_eq, not_false_eq_true, if_true,
      List.map_cons, Broker.readyOf] at hr
    split_ifs at hr
    obtain ⟨-, rfl, -⟩ := by simpa using hr
    rfl
  | heartbeat =>
    simp [System.brokerFrames, wire, pushFront] at heq
  | reply address msg =>
    obtain ⟨-, -, -, hcommand, -⟩ := by simpa [System.brokerFrames, wire, pushFront] using heq
    rw [← hcommand] at hc
    exact absurd hc (by decide)

namespace System
variable {cfg : Config} {s t : System} {e : Event}

theorem told_step (h : s.step cfg e = some t) : t.broker = s.broker ∨
    ∃ c msg clock, s.broker.step ⟨Address.frame c :: msg, clock⟩ = some t.broker ∧
      (c.frame ≠ cfg.name.frame ∨ c = cfg.name ∧ Own cfg msg) := by
  have hown : ∀ {u t' : System} {actions command key value msg clock}, u.broker = s.broker →
      Own cfg (wire (brokerFrames command key value msg)) →
      u.sendToBroker cfg command key value msg clock = some (t', actions) →
      ∃ c msg clock, s.broker.step ⟨Address.frame c :: msg, clock⟩ = some t'.broker ∧
        (c.frame ≠ cfg.name.frame ∨ c = cfg.name ∧ Own cfg msg) := by
    intro u t' actions command key value msg clock hb hmsg h
    obtain ⟨b, hstep, -, rfl⟩ := toBroker_eq_some h
    exact ⟨cfg.name, _, clock, hb ▸ hstep, Or.inr ⟨rfl, hmsg⟩⟩
  have hready : ∀ {u : System} {clock}, u.broker = s.broker → u.reconnect cfg clock = some t →
      ∃ c msg clock, s.broker.step ⟨Address.frame c :: msg, clock⟩ = some t.broker ∧
        (c.frame ≠ cfg.name.frame ∨ c = cfg.name ∧ Own cfg msg) := by
    intro u clock hb h
    obtain ⟨⟨t', actions⟩, hsend, rfl⟩ := Option.map_eq_some_iff.mp h
    exact hown (u := { u with inbox := [] }) hb .ready hsend
  cases e with
  | peer c msg clock =>
    simp only [step] at h
    split_ifs at h with hne
    obtain ⟨⟨t', actions⟩, hsend, rfl⟩ := Option.map_eq_some_iff.mp h
    obtain ⟨b, hstep, -, rfl⟩ := toBroker_eq_some hsend
    exact Or.inr ⟨c, msg, clock, hstep, Or.inl hne⟩
  | poll clock =>
    simp only [step, poll] at h
    split at h
    · next msg rest hin =>
      unfold receive at h
      split at h
      · split_ifs at h
        · split at h
          · cases h
          · exact Or.inl (Option.some.inj h ▸ rfl)
        · exact Or.inr (hready rfl h)
        · exact Or.inl (Option.some.inj h ▸ rfl)
      · cases h
    · split at h
      · next reply rest hpair =>
        unfold forward at h
        split_ifs at h
        obtain ⟨⟨t', actions⟩, hsend, rfl⟩ := Option.map_eq_some_iff.mp h
        have htold := hown (u := { s with pair := rest }) rfl (.reply _ _) hsend
        exact Or.inr htold
      · exact Or.inl (Option.some.inj h ▸ rfl)
  | handle outs =>
    obtain ⟨task, rest, -, rfl⟩ := handle_eq_some h
    exact Or.inl rfl
  | push data => exact Or.inl (Option.some.inj h ▸ rfl)
  | heartbeat clock =>
    obtain ⟨⟨t', actions⟩, hsend, rfl⟩ := Option.map_eq_some_iff.mp h
    exact Or.inr (hown rfl .heartbeat hsend)
  | reconnect clock => exact Or.inr (hready rfl h)

theorem placed_step (hw : s.broker.WellFormed) (hs : s.broker.Placed (AtService cfg))
    (h : s.step cfg e = some t) : t.broker.Placed (AtService cfg) ∧
      ∀ d, Action.request d ∈ t.broker.log.drop s.broker.log.length →
        AtService cfg d.worker d.service := by
  obtain hb | ⟨c, msg, clock, hb, hc⟩ := told_step h
  · rw [hb, List.drop_length]
    exact ⟨hs, nofun⟩
  · have hready : ∀ w n ty, Broker.readyOf (c.frame :: msg) = some (w, n, ty) → AtService cfg w n := by
      intro w n ty hr hname
      obtain hc | ⟨rfl, hmsg⟩ := hc
      · obtain ⟨p, x, hd, command, n', t', rest, heq, -⟩ := Broker.readyOf_eq_some hr
        obtain ⟨rfl, rfl⟩ := List.cons.inj heq
        simp only [Broker.readyOf] at hr
        split_ifs at hr
        obtain ⟨rfl, -⟩ := Prod.mk.inj (Option.some.inj hr)
        rw [cstr_cstr, Address.cstr_frame] at hname
        exact absurd hname hc
      · exact hmsg.atService hr
    exact ⟨Broker.placed_step hw hs hready hb, hs.requests hw hready hb⟩

/-- A service that has the heartbeat's name gets no request, so its worker never replies. -/
structure Idle (cfg : Config) (s : System) : Prop where
  addressed : s.Addressed
  placed : s.broker.Placed (AtService cfg)
  inOrder : s.broker.InOrder
  none : queuedTo mdpwHeartbeat s.broker.log = []
  inbox : ∀ msg ∈ s.inbox, RequestOf (fun _ => False) msg
  replyTo : s.replyTo = []
  delivered : s.delivered = []

theorem idle_initial : initial.Idle cfg :=
  ⟨addressed_initial, Broker.placed_initial, fun _ => rfl, rfl, nofun, rfl, rfl⟩

theorem requestOf_of_not_placed {worker : Frame} {l : List Action} {msg : Zmsg}
    (hl : ∀ a ∈ l, (∃ d, a = .request d ∧ cstr d.worker ≠ worker) ∨
      ∀ f, a.frames = some f → Broker.NoRequest f)
    (h : msg ∈ outbound worker l) : RequestOf (fun _ => False) msg := by
  obtain ⟨a, ha, hmsg⟩ := List.mem_filterMap.mp h
  have hone : msg ∈ outbound worker [a] := List.mem_filterMap.mpr ⟨a, List.mem_singleton_self a, hmsg⟩
  obtain ⟨d, rfl, hd⟩ | hno := hl a ha
  · simp [outbound, Action.frames, workerFrames, wrap, pushFront, hd] at hone
  · refine requestOf_of_mem_outbound (fun a' ha' => ?_) hone
    obtain rfl := List.mem_singleton.mp ha'
    exact Or.inr hno

theorem idle_step (hname : serviceName cfg = mdpwHeartbeat) (hs : s.Idle cfg)
    (h : s.step cfg e = some t) : t.Idle cfg := by
  have haddr := addressed_step hs.addressed h
  obtain ⟨hplaced, hrequests⟩ := placed_step hs.addressed.wf hs.placed h
  have hdel : t.delivered = [] := by
    obtain ⟨hdel, -⟩ | ⟨clock, reply, rest, p, srv, -, -, -, hne, -⟩ := delivered_step hs.addressed h
    · rw [hdel, hs.delivered]
    · exact absurd hs.replyTo hne
  cases moves_step h with
  | broker hsource hb hinbox hreply htasks =>
    have hin := Broker.inOrder_step hs.addressed.wf hs.inOrder hb
    have hnone := Broker.queuedTo_heartbeat_step hs.addressed.wf hs.none hb
    refine ⟨haddr, hplaced, hin, hnone, fun msg hm => ?_, hreply ▸ hs.replyTo, hdel⟩
    obtain hm | hm := hinbox msg hm
    · exact hs.inbox msg hm
    · obtain ⟨-, l, hlog, hl⟩ := Broker.actions_of_step (R := fun _ => True) hs.addressed.wf
        (fun _ _ _ => trivial) (fun _ _ _ _ _ _ _ _ => trivial) hb
      rw [hlog, List.drop_left] at hm hrequests
      refine requestOf_of_not_placed (fun a ha => (hl a ha).imp_left ?_) hm
      rintro ⟨d, rfl, -⟩
      refine ⟨d, rfl, fun hworker => ?_⟩
      have hservice : d.service = mdpwHeartbeat := (hrequests d ha hworker).trans hname
      have hsent : d.msg ∈ sentFor mdpwHeartbeat t.broker.log := by
        refine List.mem_filterMap.mpr ⟨.request d, hlog ▸ List.mem_append_right _ ha, ?_⟩
        exact if_pos hservice
      have hempty := hin mdpwHeartbeat
      rw [hnone] at hempty
      rw [(List.append_eq_nil_iff.mp hempty.symm).1] at hsent
      cases hsent
  | request hmem hc hun hb hinbox hreply htasks =>
    obtain ⟨m, hm, -⟩ := hs.inbox _ hmem _ _ rfl hc
    exact hm.elim
  | neither hb hinbox hreply htasks =>
    exact ⟨haddr, hplaced, hb ▸ hs.inOrder, hb ▸ hs.none, fun m hm => hs.inbox m (hinbox m hm),
      hreply ▸ hs.replyTo, hdel⟩

structure Posted (cfg : Config) (s : System) : Prop where
  addressed : s.Addressed
  placed : s.broker.Placed (AtService cfg)
  delivered : ∀ x ∈ s.delivered, ∃ address,
    x.2 = clientFrames address (serviceName cfg) (wire x.1.msg)

theorem posted_step (hs : s.Posted cfg) (h : s.step cfg e = some t) : t.Posted cfg := by
  obtain ⟨hplaced, -⟩ := placed_step hs.addressed.wf hs.placed h
  refine ⟨addressed_step hs.addressed h, hplaced, ?_⟩
  obtain ⟨hdel, -⟩ | ⟨clock, reply, rest, p, srv, -, -, -, -, hp, hsrv, hdel⟩ :=
    delivered_step hs.addressed h
  · exact hdel ▸ hs.delivered
  · have hservice : srv.name = serviceName cfg := by
      rw [hs.addressed.wf.keyed _ _ (Broker.deref_eq_ok.mp hsrv).1]
      exact hs.placed.attached _ _ hp (Address.cstr_frame _)
    intro x hx
    rw [hdel, hservice] at hx
    obtain hx | hx := List.mem_append.mp hx
    · exact hs.delivered x hx
    · obtain rfl := List.mem_singleton.mp hx
      exact ⟨_, rfl⟩

theorem delivered_frames {es : List Event} (h : Run.exec (step cfg) initial es = some s) :
    ∀ x ∈ s.delivered, serviceName cfg ≠ mdpwHeartbeat ∧
      ∃ address, x.2 = clientFrames address (serviceName cfg) (wire x.1.msg) := by
  intro x hx
  have hposted : s.Posted cfg := Run.exec_invariant (fun _ _ _ hs h => posted_step hs h)
    ⟨addressed_initial, Broker.placed_initial, nofun⟩ h
  refine ⟨fun hname => ?_, hposted.delivered x hx⟩
  have hidle : s.Idle cfg := Run.exec_invariant (fun _ _ _ hs h => idle_step hname hs h) idle_initial h
  rw [hidle.delivered] at hx
  cases hx

end System

/-! ## What the gateway does with a reply -/

theorem threadRecvRun_clientFrames {registered : UInt32 → Bool} {address service data : Frame}
    {g : Gateway.Sessions} (hzero : 0 ∉ service) (hservice : service ≠ mdpwHeartbeat)
    (hdata : Plain data) :
    threadRecvRunInGateway registered (wire (clientFrames address service (wire [data])).tail) g =
      handlerInGateway registered data g := by
  obtain ⟨part, hpart⟩ : ∃ part, part = recvPart (sendPart service) := ⟨_, rfl⟩
  have hwire : wire (clientFrames address service (wire [data])).tail =
      [] :: mdpcClient :: part :: [data] := by
    rw [hdata.wire_eq, hpart]
    simp only [clientFrames, wrap, pushFront, List.tail_cons, wire, List.map_cons, List.map_nil,
      cstr_eq_self hzero, hdata.1, hdata.2]
    congr 1
  have hcstr : cstr part = part := hpart ▸ cstr_eq_self (zero_notMem_wirePart hzero)
  have hbeat : part ≠ mdpwHeartbeat := by
    intro hbeat
    exact hservice (eq_of_wirePart (hpart ▸ hbeat) (by decide))
  rw [hwire]
  simp [threadRecvRunInGateway, hcstr, hbeat]

section
variable {MessageType : Type*}

/-- A body of `WorkerSender` that comes back through the broker in any run makes the gateway call
`Send` with the id of the response and the packed message, once for each entry of the list whose
player has a handler, in the order of the list. -/
theorem sent_to_registered (pack : MessageType → List UInt8) (message : MessageType)
    (responId : Int32) (players : List UInt32) (body : Frame) (cfg : Config) (es : List Event)
    (s : System) (reply : Reply) (frames : Zmsg) (registered : UInt32 → Bool)
    (g : Gateway.Sessions) (hcount : players.length ≤ 32767)
    (hpack : (pack message).length ≤ 10000000) (hbody : SentTo pack message responId players body)
    (hrun : Run.exec (System.step cfg) initial es = some s) (hmem : (reply, frames) ∈ s.delivered)
    (hmsg : reply.msg = wire [body]) :
    ∃ g', threadRecvRunInGateway registered (wire frames.tail) g =
      some (g', (players.filter registered).map fun u => (u, responseOf pack message responId)) := by
  have hplain : Plain body := hbody.plain (Nat.lt_succ_of_le hcount)
  obtain ⟨hname, address, hframes⟩ := System.delivered_frames hrun _ hmem
  have hframes : frames = clientFrames address (serviceName cfg) (wire [body]) := by
    rw [show frames = _ from hframes, hmsg, hplain.wire_eq, hplain.wire_eq]
  have hzero : 0 ∉ serviceName cfg := zero_notMem_cstr _
  rw [hframes, threadRecvRun_clientFrames hzero hname hplain, hbody.body_eq.2,
    Nat.mod_eq_of_lt (Nat.lt_of_le_of_lt hcount (by decide))]
  apply handlerInGateway_body _ _ (Nat.lt_succ_of_le hcount)
  rw [responseOf, shortBytes, List.length_append, Bytes.length_encode]
  exact (Nat.add_le_add_left hpack 2).trans (by decide)

def answering (outs : List Frame) : List Event :=
  [.reconnect fun _ => 0, .peer System.gateway1 [[], mdpcClient, [97], [65]] fun _ => 0,
    .poll fun _ => 0, .handle outs, .poll fun _ => 0]

theorem sent_to_registered_nine : ∃ s frames g',
    Run.exec (System.step ⟨System.worker1, [97]⟩) initial
      (answering [[2, 0, 7, 0, 0, 0, 9, 0, 0, 0, 1, 0, 5]]) = some s ∧
    (⟨some System.gateway1.frame, [[2, 0, 7, 0, 0, 0, 9, 0, 0, 0, 1, 0, 5]]⟩, frames) ∈ s.delivered ∧
    threadRecvRunInGateway (· = 9) (wire frames.tail) ⟨Equiv.refl _, {}, fun _ => none⟩ =
      some (g', [(9, [1, 0, 5])]) := by
  obtain ⟨g', hg⟩ := sent_to_registered (fun _ : Unit => [5]) () 1 [7, 9]
    [2, 0, 7, 0, 0, 0, 9, 0, 0, 0, 1, 0, 5] ⟨System.worker1, [97]⟩
    (answering [[2, 0, 7, 0, 0, 0, 9, 0, 0, 0, 1, 0, 5]]) _
    ⟨some System.gateway1.frame, [[2, 0, 7, 0, 0, 0, 9, 0, 0, 0, 1, 0, 5]]⟩ _ (· = 9)
    ⟨Equiv.refl _, {}, fun _ => none⟩ (by decide) (by decide) (Or.inl rfl) rfl
    (List.mem_singleton.mpr rfl) rfl
  exact ⟨_, _, g', rfl, List.mem_singleton.mpr rfl, hg⟩

/-- Every player of the list with a handler gets the message once, and nobody else gets any. -/
def SentOnce (registered : UInt32 → Bool) (players : List UInt32) (payload : List UInt8)
    (calls : Calls) : Prop :=
  ∀ u, calls.filter (fun call => call.1 = u) =
    if u ∈ players ∧ registered u = true then [(u, payload)] else []

/-- A player listed twice gets the message twice. -/
theorem not_sentOnce_twice : ∃ body s frames g' calls,
    SentTo (fun _ : Unit => [5]) () 1 [7, 7] body ∧
      Run.exec (System.step ⟨System.worker1, [97]⟩) initial (answering [body]) = some s ∧
      (⟨some System.gateway1.frame, wire [body]⟩, frames) ∈ s.delivered ∧
      threadRecvRunInGateway (fun _ => true) (wire frames.tail) ⟨Equiv.refl _, {}, fun _ => none⟩ =
        some (g', calls) ∧
      ¬ SentOnce (fun _ => true) [7, 7] (responseOf (fun _ : Unit => [5]) () 1) calls := by
  refine ⟨[2, 0, 7, 0, 0, 0, 7, 0, 0, 0, 1, 0, 5], _, _, _, _, Or.inl rfl, rfl,
    List.mem_singleton.mpr rfl, rfl, ?_⟩
  intro h
  exact absurd (h 7) (by decide)

end

end IceBridge.Workers
