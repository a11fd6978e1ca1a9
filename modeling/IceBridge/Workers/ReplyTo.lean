import IceBridge.Router.Requests
import IceBridge.Workers.Mdwrk

/-! Where replies go. Every REQUEST overwrites `m_reply_to`, while replies wait in a queue
of their own, so a reply reaches the client it was made for exactly when no other client's
request has arrived since. -/

namespace IceBridge.Workers
open Router

/-! ## Frames on the wire -/

theorem length_decodePairs (text : Frame) : (decodePairs text).length = text.length / 2 := by
  induction text using decodePairs.induct with
  | case1 hi lo rest ih =>
    simp only [decodePairs, List.length_cons, ih]
    omega
  | case2 text h =>
    cases text with
    | nil => rfl
    | cons hi tail =>
      cases tail with
      | nil => simp [decodePairs]
      | cons lo rest => exact absurd rfl (h hi lo rest)

/-- A part arrives as it was, unless what arrives is an encoded identity. -/
theorem eq_of_wirePart {part x : Frame} (h : recvPart (sendPart part) = x)
    (hx : x.head? ≠ some 64) : part = x := by
  unfold sendPart at h
  split_ifs at h with ht
  · have hlen : (decodeUuid part).length = 17 := by
      simp only [decodeUuid, List.length_cons, length_decodePairs, List.length_tail]
      omega
    rw [recvPart, if_pos ⟨hlen, rfl⟩] at h
    exact absurd rfl (h ▸ hx)
  · unfold recvPart at h
    split_ifs at h with hu
    · exact absurd rfl (h ▸ hx)
    · exact h

theorem wire_eq_cons {msg rest : Zmsg} {x : Frame} (h : wire msg = x :: rest)
    (hx : x.head? ≠ some 64) : ∃ tail, msg = x :: tail ∧ wire tail = rest := by
  obtain ⟨part, tail, rfl, hpart, htail⟩ := List.map_eq_cons_iff.mp h
  exact ⟨tail, by rw [eq_of_wirePart hpart hx], htail⟩

/-! ## Requests carry the address of the client that sent them -/

def RequestOf (R : Zmsg → Prop) (msg : Zmsg) : Prop :=
  ∀ command rest, msg = [] :: mdpwWorker :: command :: rest → cstr command = mdpwRequest →
    ∃ m, R m ∧ rest = wire m

theorem requestOf_of_mem_outbound {R : Zmsg → Prop} {worker : Frame} {l : List Action} {msg : Zmsg}
    (hl : ∀ a ∈ l, (∃ d, a = .request d ∧ R d.msg) ∨ ∀ f, a.frames = some f → Broker.NoRequest f)
    (h : msg ∈ outbound worker l) : RequestOf R msg := by
  obtain ⟨a, ha, hmsg⟩ := List.mem_filterMap.mp h
  split at hmsg
  · next address rest hframes =>
    split_ifs at hmsg
    obtain rfl := Option.some.inj hmsg
    intro command tail heq hcmd
    obtain ⟨d, rfl, hR⟩ | hno := hl a ha
    · obtain ⟨-, rfl⟩ := by simpa [Action.frames, workerFrames, wrap, pushFront] using hframes
      obtain ⟨-, -, -, rfl⟩ := by simpa [wire] using heq
      exact ⟨d.msg, hR, rfl⟩
    · have hhead : command.head? ≠ some 64 := by
        intro h64
        cases command with
        | nil => cases h64
        | cons c cs =>
          obtain rfl := Option.some.inj h64
          simp [cstr, mdpwRequest] at hcmd
      obtain ⟨t₁, rfl, h₁⟩ := wire_eq_cons heq (by decide)
      obtain ⟨t₂, rfl, h₂⟩ := wire_eq_cons h₁ (by decide)
      obtain ⟨t₃, rfl, -⟩ := wire_eq_cons h₂ hhead
      exact absurd hcmd (hno _ hframes _ _ _ _ rfl)
  · cases hmsg

def Routed (msg : Zmsg) : Prop := ∃ (c : Address) (body : Zmsg), msg = c.frame :: [] :: body

def RequestRouted (msg : Zmsg) : Prop :=
  ∀ command rest, msg = [] :: mdpwWorker :: command :: rest → cstr command = mdpwRequest →
    ∃ (c : Address) (body : Zmsg), rest = c.frame :: [] :: body

theorem RequestOf.routed {msg : Zmsg} (h : RequestOf Routed msg) : RequestRouted msg := by
  intro command rest heq hcmd
  obtain ⟨m, ⟨c, body, rfl⟩, rfl⟩ := h command rest heq hcmd
  exact ⟨c, wire body, by simp [wire, c.stable]; rfl⟩

namespace System
variable {cfg : Config} {s t : System}

/-! ## What a step moves -/

theorem toBroker_eq_some {r : Received} {actions : List Action}
    (h : s.toBroker cfg r = some (t, actions)) :
    ∃ b, s.broker.step r = some b ∧ actions = b.log.drop s.broker.log.length ∧
      t = { s with broker := b, inbox := s.inbox ++ outbound cfg.name.frame actions } := by
  obtain ⟨b, hb, hres⟩ := Option.map_eq_some_iff.mp h
  obtain ⟨rfl, rfl⟩ := Prod.mk.inj hres
  exact ⟨b, hb, rfl, rfl⟩

theorem wire_brokerFrames (command key value : Frame) (msg : Zmsg) :
    ∃ rest, wire (brokerFrames command key value msg) = [] :: mdpwWorker :: rest := by
  refine ⟨_, congrArg₂ List.cons ?_ (congrArg₂ List.cons ?_ rfl)⟩
  · decide
  · decide

inductive Moves (cfg : Config) (s : System) (e : Event) (t : System) : Prop
  | broker {c : Address} {msg : Zmsg} {clock : ℕ → Int}
      (hsource : (∃ clock, e = .peer c msg clock ∧ c.frame ≠ cfg.name.frame) ∨
        c = cfg.name ∧ ∃ rest, msg = [] :: mdpwWorker :: rest)
      (hb : s.broker.step ⟨c.frame :: msg, clock⟩ = some t.broker)
      (hinbox : ∀ m ∈ t.inbox, m ∈ s.inbox ∨
        m ∈ outbound cfg.name.frame (t.broker.log.drop s.broker.log.length))
      (hreply : t.replyTo = s.replyTo) (htasks : t.tasks = s.tasks)
  | request {command address : Frame} {rest body : Zmsg}
      (hmem : ([] :: mdpwWorker :: command :: rest) ∈ s.inbox) (hc : cstr command = mdpwRequest)
      (hun : unwrap rest = .ok (address, body)) (hb : t.broker = s.broker)
      (hinbox : ∀ m ∈ t.inbox, m ∈ s.inbox) (hreply : t.replyTo = address)
      (htasks : t.tasks = s.tasks ++ [⟨address, body.getLast?.getD []⟩])
  | neither (hb : t.broker = s.broker) (hinbox : ∀ m ∈ t.inbox, m ∈ s.inbox)
      (hreply : t.replyTo = s.replyTo) (htasks : ∀ task ∈ t.tasks, task ∈ s.tasks)

theorem moves_sendToBroker {e : Event} {u : System} {command key value : Frame} {msg : Zmsg}
    {clock : ℕ → Int} {actions : List Action} (hb : u.broker = s.broker)
    (hinbox : ∀ m ∈ u.inbox, m ∈ s.inbox) (hreply : u.replyTo = s.replyTo)
    (htasks : u.tasks = s.tasks)
    (h : u.sendToBroker cfg command key value msg clock = some (t, actions)) :
    Moves cfg s e t := by
  obtain ⟨b, hstep, rfl, rfl⟩ := toBroker_eq_some h
  rw [hb] at hstep
  refine .broker (.inr ⟨rfl, wire_brokerFrames command key value msg⟩) hstep (fun m hm => ?_) hreply
    htasks
  obtain hm | hm := List.mem_append.mp hm
  · exact .inl (hinbox m hm)
  · exact .inr (hb ▸ hm)

theorem moves_reconnect {e : Event} {u : System} {clock : ℕ → Int} (hb : u.broker = s.broker)
    (hreply : u.replyTo = s.replyTo) (htasks : u.tasks = s.tasks)
    (h : u.reconnect cfg clock = some t) : Moves cfg s e t := by
  obtain ⟨⟨t', actions⟩, hsend, rfl⟩ := Option.map_eq_some_iff.mp h
  exact moves_sendToBroker (u := { u with inbox := [] }) hb nofun hreply htasks hsend

theorem foldl_send (client : Option Frame) (outs : List Frame) (s : System) :
    outs.foldl (fun s data => s.send client data) s =
      { s with pair := s.pair ++ outs.map fun data => ⟨client, wire [data]⟩ } := by
  induction outs generalizing s with
  | nil => simp
  | cons data outs ih =>
    rw [List.foldl_cons, ih]
    simp [send]

theorem handle_eq_some {outs : List Frame} (h : s.handle outs = some t) :
    ∃ task rest, s.tasks = task :: rest ∧ t = { s with
      tasks := rest
      pair := s.pair ++ outs.map fun data => ⟨some task.client, wire [data]⟩ } := by
  unfold handle at h
  split at h
  · cases h
  · next task rest htasks =>
    rw [foldl_send] at h
    exact ⟨task, rest, htasks, (Option.some.inj h).symm⟩

theorem moves_receive {e : Event} {msg : Zmsg} {rest : List Zmsg} {clock : ℕ → Int}
    (hin : s.inbox = msg :: rest) (h : receive cfg { s with inbox := rest } msg clock = some t) :
    Moves cfg s e t := by
  have hrest : ∀ m ∈ rest, m ∈ s.inbox := fun m hm => hin ▸ List.mem_cons_of_mem msg hm
  unfold receive at h
  split at h
  · next empty header command msg =>
    split_ifs at h with hhead hreq hdis
    · obtain ⟨rfl, rfl⟩ := hhead
      split at h
      · cases h
      · next address body hun =>
        obtain rfl := Option.some.inj h
        exact .request (hin ▸ List.mem_cons_self) hreq hun rfl hrest rfl rfl
    · exact moves_reconnect rfl rfl rfl h
    · exact Option.some.inj h ▸ .neither rfl hrest rfl fun _ => id
  · cases h

theorem moves_forward {e : Event} {reply : Reply} {rest : List Reply} {clock : ℕ → Int}
    (h : forward cfg { s with pair := rest } reply clock = some t) : Moves cfg s e t := by
  unfold forward at h
  split_ifs at h
  obtain ⟨⟨t', actions⟩, hsend, rfl⟩ := Option.map_eq_some_iff.mp h
  cases moves_sendToBroker (e := e) rfl (by exact fun _ => id) rfl rfl hsend with
  | broker hsource hb hinbox hreply htasks => exact .broker hsource hb hinbox hreply htasks
  | request hmem hc hun hb hinbox hreply htasks =>
    exact .request hmem hc hun hb hinbox hreply htasks
  | neither hb hinbox hreply htasks => exact .neither hb hinbox hreply htasks

theorem moves_step {e : Event} (h : s.step cfg e = some t) : Moves cfg s e t := by
  cases e with
  | peer c msg clock =>
    simp only [step] at h
    split_ifs at h with hne
    obtain ⟨⟨t', actions⟩, hsend, rfl⟩ := Option.map_eq_some_iff.mp h
    obtain ⟨b, hstep, rfl, rfl⟩ := toBroker_eq_some hsend
    exact .broker (.inl ⟨clock, rfl, hne⟩) hstep (fun m hm => List.mem_append.mp hm) rfl rfl
  | poll clock =>
    simp only [step, poll] at h
    split at h
    · next msg rest hin => exact moves_receive hin h
    · split at h
      · exact moves_forward h
      · exact Option.some.inj h ▸ .neither rfl (fun _ => id) rfl fun _ => id
  | handle outs =>
    obtain ⟨task, rest, htasks, rfl⟩ := handle_eq_some h
    exact .neither rfl (fun _ => id) rfl fun _ hm => htasks ▸ List.mem_cons_of_mem task hm
  | push data => exact Option.some.inj h ▸ .neither rfl (fun _ => id) rfl fun _ => id
  | heartbeat clock =>
    obtain ⟨⟨t', actions⟩, hsend, rfl⟩ := Option.map_eq_some_iff.mp h
    exact moves_sendToBroker rfl (fun _ => id) rfl rfl hsend
  | reconnect clock => exact moves_reconnect rfl rfl rfl h

/-! ## The queued requests -/

theorem queue_broker {R : Zmsg → Prop} {r : Received} (hw : s.broker.WellFormed)
    (hq : ∀ n, ∀ msg ∈ s.broker.queue n, R msg)
    (hnew : ∀ p x header service body, r.msg = p :: x :: header :: service :: body →
      cstr header = mdpcClient → cstr service ≠ mdpwHeartbeat → R (wrap (cstr p) [] body))
    (hb : s.broker.step r = some t.broker)
    (hinbox : ∀ m ∈ t.inbox, m ∈ s.inbox ∨
      m ∈ outbound cfg.name.frame (t.broker.log.drop s.broker.log.length)) :
    (∀ n, ∀ msg ∈ t.broker.queue n, R msg) ∧ ∀ m ∈ t.inbox, m ∈ s.inbox ∨ RequestOf R m := by
  obtain ⟨hq', l, hlog, hl⟩ := Broker.actions_of_step hw hq hnew hb
  refine ⟨hq', fun m hm => (hinbox m hm).imp_right fun hm => ?_⟩
  rw [hlog, List.drop_left] at hm
  exact requestOf_of_mem_outbound hl hm

/-- Whatever the receive thread will read as a REQUEST names the client that sent it. -/
structure Addressed (s : System) : Prop where
  wf : s.broker.WellFormed
  queue : ∀ n, ∀ msg ∈ s.broker.queue n, Routed msg
  inbox : ∀ msg ∈ s.inbox, RequestRouted msg
  replyTo : s.replyTo ≠ [] → ∃ c : Address, s.replyTo = c.frame

theorem addressed_initial : initial.Addressed :=
  ⟨Broker.wellFormed_initial, nofun, nofun, fun h => absurd rfl h⟩

theorem Addressed.of_eq (hs : s.Addressed) (hb : t.broker = s.broker)
    (hr : t.replyTo = s.replyTo) (hi : ∀ msg ∈ t.inbox, msg ∈ s.inbox) : t.Addressed :=
  ⟨hb ▸ hs.wf, hb ▸ hs.queue, fun msg hm => hs.inbox msg (hi msg hm), hr ▸ hs.replyTo⟩

theorem addressed_step {e : Event} (hs : s.Addressed) (h : s.step cfg e = some t) :
    t.Addressed := by
  cases moves_step h with
  | @broker c msg clock hsource hb hinbox hreply htasks =>
    have hnew : ∀ p x header service body, c.frame :: msg = p :: x :: header :: service :: body →
        cstr header = mdpcClient → cstr service ≠ mdpwHeartbeat →
          Routed (wrap (cstr p) [] body) := by
      intro p x header service body hp _ _
      obtain ⟨rfl, -⟩ := List.cons.inj hp
      exact ⟨c, body, by simp [wrap, pushFront]⟩
    obtain ⟨hq, hin⟩ := queue_broker hs.wf hs.queue hnew hb hinbox
    exact ⟨Broker.wellFormed_step hs.wf hb, hq,
      fun m hm => (hin m hm).elim (hs.inbox m) RequestOf.routed, hreply ▸ hs.replyTo⟩
  | request hmem hc hun hb hinbox hreply htasks =>
    obtain ⟨c, body', rfl⟩ := hs.inbox _ hmem _ _ rfl hc
    obtain ⟨rfl, -⟩ : c.frame = _ ∧ _ := by simpa [unwrap] using hun
    exact ⟨hb ▸ hs.wf, hb ▸ hs.queue, fun m hm => hs.inbox m (hinbox m hm), fun _ => ⟨c, hreply⟩⟩
  | neither hb hinbox hreply htasks => exact hs.of_eq hb hreply hinbox

/-! ## Delivery -/

def AllDelivered (s : System) : Prop :=
  ∀ x ∈ s.delivered, ∀ c ∈ x.1.client, x.2.head? = some c

def AnswersLast (s : System) (e : Event) : Prop :=
  ∀ clock reply rest, e = .poll clock → s.inbox = [] → s.pair = reply :: rest →
    ∀ c ∈ reply.client, s.replyTo = c

theorem wire_replyFrames (c : Address) (msg : Zmsg) :
    wire (brokerFrames mdpwReply [] [] (wrap c.frame [] msg)) =
      [] :: mdpwWorker :: mdpwReply :: c.frame :: [] :: wire msg := by
  have hconst : recvPart (sendPart (cstr [])) = [] ∧
      recvPart (sendPart (cstr mdpwWorker)) = mdpwWorker ∧
      recvPart (sendPart (cstr mdpwReply)) = mdpwReply := by decide
  simp [brokerFrames, wrap, pushFront, wire, c.stable, hconst]
  decide

theorem reply_sent {b b' : Broker} {w c : Address} {msg : Zmsg} {clock : ℕ → Int}
    (h : b.step ⟨w.frame :: [] :: mdpwWorker :: mdpwReply :: c.frame :: [] :: msg, clock⟩ = some b') :
    ∃ p srv rest, b.link w.frame = some p ∧ b.deref p = .ok srv ∧
      b'.log = b.log ++ .sent (clientFrames c.frame srv.name msg) :: rest := by
  obtain ⟨b₁, call, hacc, hd⟩ := Broker.step_eq_some h
  have hlog : ∃ l, b'.log = b₁.log ++ l := by
    cases call with
    | none => exact ⟨[], by rw [Except.ok.inj hd, List.append_nil]⟩
    | some call =>
      obtain ⟨p, srv, last, sent, -, -, -, rfl⟩ := Broker.serviceDispatch_eq_ok hd
      exact ⟨_, rfl⟩
  obtain ⟨l, hl⟩ := hlog
  cases hacc with
  | client hmsg hh hstep =>
    obtain ⟨-, -, rfl, -⟩ := by simpa using hmsg
    exact absurd hh (by decide)
  | invalid hmsg hc hw =>
    obtain ⟨-, -, rfl, -⟩ := by simpa using hmsg
    exact absurd rfl hw
  | worker hmsg hh hstep =>
    obtain ⟨rfl, rfl, rfl, rfl⟩ := by simpa using hmsg
    have hcmd : ∀ command, command ≠ mdpwReply →
        (mdpwReply :: c.frame :: [] :: msg).head?.map cstr ≠ some command :=
      fun _ hne h => hne (Option.some.inj h).symm
    cases hstep with
    | reservedReady hc hr h => exact absurd hc (hcmd _ (by decide))
    | ready hc hr h => exact absurd hc (hcmd _ (by decide))
    | heartbeat hc h => exact absurd hc (hcmd _ (by decide))
    | disconnect hc h =>
      obtain ⟨hc, -⟩ | hc := hc
      exacts [absurd hc (hcmd _ (by decide)), absurd hc (hcmd _ (by decide))]
    | invalid hc => exact absurd rfl (hc mdpwReply (by decide))
    | reply hc h =>
      obtain ⟨client, rest, p, srv, call, hun, hp, hsrv, hwait, rfl⟩ := Broker.workerReply_eq_ok h
      obtain ⟨rfl, rfl⟩ : c.frame = client ∧ msg = rest := by simpa [unwrap] using hun
      obtain ⟨q, s, -, -, -, rfl⟩ := Broker.workerWaiting_eq_ok hwait
      have hreq : (b.workerRequire w.frame).log = b.log := by
        unfold Broker.workerRequire
        split <;> rfl
      have hservices := Broker.services_workerRequire b w.frame
      obtain ⟨hs, hser⟩ := Broker.deref_eq_ok.mp hsrv
      rw [Address.cstr_frame, Broker.link_workerRequire] at hp
      rw [Address.cstr_frame, hservices] at hs
      refine ⟨p, srv, l, hp, Broker.deref_eq_ok.mpr ⟨hs, hser⟩, ?_⟩
      rw [hl]
      simp [Broker.setService, Broker.setWorker, Broker.act, hreq]

theorem forward_sent {reply : Reply} {clock : ℕ → Int} (hs : s.Addressed)
    (h : s.forward cfg reply clock = some t) :
    ∃ p srv, s.replyTo ≠ [] ∧ s.broker.link cfg.name.frame = some p ∧ s.broker.deref p = .ok srv ∧
      t.delivered = s.delivered ++ [(reply, clientFrames s.replyTo srv.name (wire reply.msg))] := by
  unfold forward at h
  split_ifs at h with hempty
  obtain ⟨⟨t', actions⟩, hsend, rfl⟩ := Option.map_eq_some_iff.mp h
  obtain ⟨c, hc⟩ := hs.replyTo hempty
  rw [hc, sendToBroker, wire_replyFrames] at hsend
  obtain ⟨b, hb, rfl, rfl⟩ := toBroker_eq_some hsend
  obtain ⟨p, srv, rest, hp, hsrv, hlog⟩ := reply_sent hb
  refine ⟨p, srv, hempty, hp, hsrv, ?_⟩
  simp [hlog, Action.frames, hc]

theorem delivered_toBroker {r : Received} {actions : List Action}
    (h : s.toBroker cfg r = some (t, actions)) : t.delivered = s.delivered := by
  obtain ⟨b, -, -, rfl⟩ := toBroker_eq_some h
  rfl

theorem delivered_reconnect {clock : ℕ → Int} (h : s.reconnect cfg clock = some t) :
    t.delivered = s.delivered := by
  obtain ⟨⟨t', actions⟩, hsend, rfl⟩ := Option.map_eq_some_iff.mp h
  obtain ⟨b, -, -, rfl⟩ := toBroker_eq_some hsend
  rfl

theorem delivered_receive {msg : Zmsg} {clock : ℕ → Int} (h : s.receive cfg msg clock = some t) :
    t.delivered = s.delivered := by
  unfold receive at h
  split at h
  · split_ifs at h
    · split at h
      · cases h
      · exact Option.some.inj h ▸ rfl
    · exact delivered_reconnect h
    · exact Option.some.inj h ▸ rfl
  · cases h

theorem delivered_step {e : Event} (hs : s.Addressed) (h : s.step cfg e = some t) :
    (t.delivered = s.delivered ∧
      ∀ clock reply rest, e = .poll clock → s.inbox = [] → s.pair ≠ reply :: rest) ∨
    ∃ clock reply rest p srv, e = .poll clock ∧ s.inbox = [] ∧ s.pair = reply :: rest ∧
      s.replyTo ≠ [] ∧ s.broker.link cfg.name.frame = some p ∧ s.broker.deref p = .ok srv ∧
      t.delivered = s.delivered ++ [(reply, clientFrames s.replyTo srv.name (wire reply.msg))] := by
  cases e with
  | peer c msg clock =>
    simp only [step] at h
    split_ifs at h
    obtain ⟨⟨t', actions⟩, hb, rfl⟩ := Option.map_eq_some_iff.mp h
    exact Or.inl ⟨delivered_toBroker hb, nofun⟩
  | poll clock =>
    simp only [step, poll] at h
    split at h
    · next msg rest hin =>
      have hdel := delivered_receive h
      exact Or.inl ⟨hdel, fun _ _ _ _ hnil => absurd (hin.symm.trans hnil) (by simp)⟩
    · next hin =>
      split at h
      · next reply rest hpair =>
        have hs' : Addressed { s with pair := rest } := hs.of_eq rfl rfl fun _ => id
        obtain ⟨p, srv, hne, hp, hsrv, hdel⟩ := forward_sent hs' h
        exact Or.inr ⟨clock, reply, rest, p, srv, rfl, hin, hpair, hne, hp, hsrv, hdel⟩
      · next hpair =>
        obtain rfl := Option.some.inj h
        exact Or.inl ⟨rfl, fun _ _ _ _ _ => by simp [hpair]⟩
  | handle outs =>
    obtain ⟨task, rest, -, rfl⟩ := handle_eq_some h
    exact Or.inl ⟨rfl, nofun⟩
  | push data => exact Or.inl ⟨Option.some.inj h ▸ rfl, nofun⟩
  | heartbeat clock =>
    obtain ⟨⟨t', actions⟩, hsend, rfl⟩ := Option.map_eq_some_iff.mp h
    exact Or.inl ⟨delivered_toBroker hsend, nofun⟩
  | reconnect clock => exact Or.inl ⟨delivered_reconnect h, nofun⟩

theorem allDelivered_step_iff {e : Event} (hs : s.Addressed) (hd : s.AllDelivered)
    (h : s.step cfg e = some t) : t.AllDelivered ↔ s.AnswersLast e := by
  obtain ⟨hdel, hnot⟩ | ⟨clock, reply, rest, p, srv, rfl, hin, hpair, hne, -, -, hdel⟩ :=
    delivered_step hs h
  · refine iff_of_true (fun x hx => hd x (hdel ▸ hx)) ?_
    exact fun clock reply rest he hin hpair => absurd hpair (hnot clock reply rest he hin)
  · obtain ⟨address, haddress⟩ := hs.replyTo hne
    have hhead : (clientFrames s.replyTo srv.name (wire reply.msg)).head? = some s.replyTo := by
      simp [clientFrames, wrap, pushFront, haddress]
    constructor
    · intro ht clock' reply' rest' _ _ hpair' c hc
      obtain ⟨rfl, -⟩ := List.cons.inj (hpair.symm.trans hpair')
      have hx := ht (reply, _) (hdel ▸ List.mem_append_right _ (List.mem_singleton.mpr rfl)) c hc
      exact Option.some.inj (hhead.symm.trans hx)
    · intro hlast x hx c hc
      rw [hdel] at hx
      obtain hx | hx := List.mem_append.mp hx
      · exact hd x hx c hc
      · obtain rfl := List.mem_singleton.mp hx
        rw [hhead, hlast clock reply rest rfl hin hpair c hc]

theorem allDelivered_always_iff (hs : s.Addressed) (hd : s.AllDelivered) (es : List Event) :
    Run.Always (step cfg) AllDelivered s es ↔ Run.EachStep (step cfg) AnswersLast s es :=
  Run.always_iff_eachStep (fun _ _ _ hs h => addressed_step hs h)
    (fun _ _ _ hs hd h => allDelivered_step_iff hs hd h) hs hd es

/-- For any clients and any interleaving, every reply goes to the client of the request it
was made for exactly as long as the receive thread forwards no reply after it has received
the request of another client. -/
theorem allDelivered_run_iff (cfg : Config) (es : List Event) :
    Run.Always (step cfg) AllDelivered initial es ↔ Run.EachStep (step cfg) AnswersLast initial es :=
  allDelivered_always_iff addressed_initial nofun es

def worker1 : Address := .named [119, 49] (by decide) (by decide) (by decide)
def gateway1 : Address := .named [103, 49] (by decide) (by decide) (by decide)
def gateway2 : Address := .named [103, 50] (by decide) (by decide) (by decide)

/-- The requests of two gateways arrive before the first one is answered: the answer to the
first goes to the second. -/
theorem not_allDelivered_of_two_requests :
    ¬ Run.Always (step ⟨worker1, [97]⟩) AllDelivered initial
      [.reconnect fun _ => 0,
       .peer gateway1 [[], mdpcClient, [97], [65]] fun _ => 0,
       .peer gateway2 [[], mdpcClient, [97], [66]] fun _ => 0,
       .poll fun _ => 0, .poll fun _ => 0, .handle [[120]], .poll fun _ => 0] := by
  intro h
  rw [allDelivered_always_iff addressed_initial nofun] at h
  obtain ⟨-, h₁⟩ := h _ rfl
  obtain ⟨-, h₂⟩ := h₁ _ rfl
  obtain ⟨-, h₃⟩ := h₂ _ rfl
  obtain ⟨-, h₄⟩ := h₃ _ rfl
  obtain ⟨-, h₅⟩ := h₄ _ rfl
  obtain ⟨-, h₆⟩ := h₅ _ rfl
  obtain ⟨hlast, -⟩ := h₆ _ rfl
  exact absurd (hlast _ _ _ rfl rfl rfl gateway1.frame (by decide)) (by decide)

end System

end IceBridge.Workers
