import IceBridge.Lib.Window
import IceBridge.Router.Pointers

/-! The broker with the history of what it received and did, and which workers wait
anywhere: a worker comes into a waiting list only by a message of its own. -/

namespace IceBridge.Router

inductive BrokerEvent
  | received (msg : Zmsg)
  | did (action : Action)
deriving DecidableEq, Repr

def commandOf : Zmsg → Option (Frame × Frame)
  | s :: _ :: h :: c :: _ => if cstr h = mdpwWorker then some (cstr s, cstr c) else none
  | _ => none

namespace BrokerEvent

def IsFrom (w : Frame) (commands : List Frame) : BrokerEvent → Prop
  | received msg => ∃ c ∈ commands, commandOf msg = some (w, c)
  | did _ => False

def IsRequestTo (w : Frame) : BrokerEvent → Prop
  | did (.request d) => d.worker = w
  | _ => False

end BrokerEvent

structure Watched where
  broker : Broker := initial
  history : List BrokerEvent := []

/-- One message, recorded with the actions it leads to. -/
def Watched.step (s : Watched) (r : Received) : Option Watched :=
  (s.broker.step r).map fun b =>
    ⟨b, s.history ++ .received r.msg :: (b.log.drop s.broker.log.length).map .did⟩

theorem commandOf_worker {r : Received} {s e hd c : Frame} {msg : Zmsg}
    (hmsg : r.msg = s :: e :: hd :: msg) (hh : cstr hd = mdpwWorker)
    (hc : msg.head?.map cstr = some c) : commandOf r.msg = some (cstr s, c) := by
  cases msg with
  | nil => simp at hc
  | cons part rest =>
    obtain rfl : cstr part = c := by simpa using hc
    simp [hmsg, commandOf, hh]

theorem commandOf_eq_some {m : Zmsg} {w c : Frame} (h : commandOf m = some (w, c)) :
    ∃ s e hd part rest, m = s :: e :: hd :: part :: rest ∧ cstr hd = mdpwWorker ∧
      cstr s = w ∧ cstr part = c := by
  unfold commandOf at h
  split at h
  · next s e hd part rest =>
    split_ifs at h with hh
    obtain ⟨rfl, rfl⟩ := Prod.mk.inj (Option.some.inj h)
    exact ⟨s, e, hd, part, rest, rfl, hh, rfl, rfl⟩
  · cases h

/-! ## Workers that wait -/

namespace Broker
variable {b b' : Broker} {v w : Frame}

def Waits (b : Broker) (v : Frame) : Prop := ∃ n srv, b.services n = some srv ∧ v ∈ srv.waiting

theorem Waits.of_services (hs : b'.services = b.services) (h : b'.Waits v) : b.Waits v := by
  obtain ⟨n, srv, hn, hv⟩ := h
  exact ⟨n, srv, hs ▸ hn, hv⟩

theorem Waits.of_setService {srv : Service} (h : (b.setService srv).Waits v) :
    b.Waits v ∨ v ∈ srv.waiting := by
  obtain ⟨n, s, hn, hv⟩ := h
  obtain ⟨-, rfl⟩ | hn := services_setService hn
  exacts [Or.inr hv, Or.inl ⟨n, s, hn, hv⟩]

theorem Waits.of_required {n t : Frame} {p : Option ServicePtr} (hreq : Required b n t p b')
    (h : b'.Waits v) : b.Waits v := by
  obtain ⟨m, s, hm, hv⟩ := h
  cases hreq with
  | unknown ht => exact ⟨m, s, hm, hv⟩
  | same hs ht => exact ⟨m, s, hm, hv⟩
  | @changed old ty hs hold ht =>
    simp only [changed, Function.update_apply] at hm
    split_ifs at hm
    · obtain rfl := Option.some.inj hm
      exact ⟨n, old, hs, hv⟩
    · exact ⟨m, s, hm, hv⟩
  | created hs ht =>
    simp only [created, Function.update_apply] at hm
    split_ifs at hm
    · obtain rfl := Option.some.inj hm
      cases hv
    · exact ⟨m, s, hm, hv⟩

theorem Waits.of_workerWaiting {now : Int} {call : DispatchCall}
    (h : b.workerWaiting w now = .ok (b', call)) (hv : b'.Waits v) : b.Waits v ∨ v = w := by
  obtain ⟨p, srv, -, hsrv, -, rfl⟩ := workerWaiting_eq_ok h
  obtain ⟨hs, -⟩ := deref_eq_ok.mp hsrv
  obtain hv | hv := hv.of_setService
  · exact Or.inl (hv.of_services rfl)
  · exact (Service.mem_workerWaiting.mp hv).imp_left fun hv => ⟨p.name, srv, hs, hv⟩

theorem workerDelete_eq_ok {disconnect : Bool} (h : b.workerDelete w disconnect = .ok b') :
    (b.link w = none ∧ b'.services = b.services) ∨
      ∃ p srv, b.link w = some p ∧ b.deref p = .ok srv ∧
        b'.services = (b.setService (srv.deleteWorker w)).services := by
  have hsent : ∀ c : Broker, c = (if disconnect then
      b.act [.sent (workerFrames w mdpwDisconnect [])] else b) →
      c.services = b.services ∧ c.workers = b.workers := by
    rintro c rfl
    split_ifs
    exacts [⟨rfl, rfl⟩, ⟨rfl, rfl⟩]
  unfold workerDelete at h
  obtain ⟨hserv, hwork⟩ := hsent _ rfl
  generalize (if disconnect then b.act [.sent (workerFrames w mdpwDisconnect [])] else b) = c at *
  have hlink : c.link w = b.link w := by rw [link, link, hwork]
  dsimp only at h
  split at h
  · next hp => exact Or.inl ⟨hlink ▸ hp, Except.ok.inj h ▸ hserv⟩
  · next p hp =>
    obtain ⟨srv, hsrv, h⟩ := bind_eq_ok.mp h
    obtain ⟨hs, hser⟩ := deref_eq_ok.mp hsrv
    obtain rfl := Except.ok.inj h
    refine Or.inr ⟨p, srv, hlink ▸ hp, deref_eq_ok.mpr ⟨hserv ▸ hs, hser⟩, ?_⟩
    simp only [setService, hserv]

theorem Waits.of_workerDelete {disconnect : Bool} (h : b.workerDelete w disconnect = .ok b')
    (hv : b'.Waits v) : b.Waits v := by
  obtain ⟨-, hs⟩ | ⟨p, srv, -, hsrv, hs⟩ := workerDelete_eq_ok h
  · exact hv.of_services hs
  · obtain hv | hv := (hv.of_services hs).of_setService
    · exact hv
    · exact ⟨p.name, srv, (deref_eq_ok.mp hsrv).1, (srv.deleteWorker_sublist w).subset hv⟩

theorem Waits.of_dispatchPending {call : Option DispatchCall} {r : Received}
    (h : b.dispatchPending call r = .ok b') (hv : b'.Waits v) : b.Waits v := by
  cases call with
  | none => exact Except.ok.inj h ▸ hv
  | some call =>
    obtain ⟨p, srv, last, sent, -, hp, hloop, rfl⟩ := serviceDispatch_eq_ok h
    obtain ⟨hs, -⟩ := deref_eq_ok.mp hp
    obtain hv | hv := (hv.of_services rfl : (b.setService last).Waits v).of_setService
    · exact hv
    · exact ⟨p.name, srv, hs, (dispatchLoop_spec hloop).waiting.subset hv⟩

/-- A message after which its sender may wait again: READY, or REPLY and HEARTBEAT of a worker
that has a service. -/
def Rejoins (b : Broker) (r : Received) (v : Frame) : Prop :=
  commandOf r.msg = some (v, mdpwReady) ∨ b.link v ≠ none ∧
    (commandOf r.msg = some (v, mdpwReply) ∨ commandOf r.msg = some (v, mdpwHeartbeat))

theorem Waits.of_accepted {r : Received} {call : Option DispatchCall}
    (hacc : Accepted b r b' call) (hv : b'.Waits v) : b.Waits v ∨ b.Rejoins r v := by
  cases hacc with
  | client hmsg hh hstep =>
    left
    cases hstep with
    | dropped hn => exact hv
    | heartbeat hn clients => exact hv.of_services rfl
    | internal hn hbeat hreq h =>
      obtain ⟨client', rest, rfl⟩ := serviceInternal_eq_ok h
      exact .of_required (required_of_serviceRequire hreq).2 (hv.of_services rfl)
    | request hn hbeat hreq => exact .of_required (required_of_serviceRequire hreq).2 hv
  | @worker s e hd msg _ _ hmsg hh hstep =>
    have hback : (b.workerRequire (cstr s)).Waits v → b.Waits v :=
      Waits.of_services (services_workerRequire b _)
    have hlink := link_workerRequire b (cstr s)
    cases hstep with
    | reservedReady hc hr h => exact Or.inl (hback (hv.of_workerDelete h))
    | ready hc hr h =>
      obtain ⟨rfl, -⟩ | ⟨n, t, rest, p, b₁, c, -, -, hreq, hwait, -⟩ := workerReady_eq_ok h
      · exact Or.inl (hback hv)
      · obtain hv | rfl := hv.of_workerWaiting hwait
        · exact Or.inl (hback (.of_required (required_of_serviceRequire hreq).2 (hv.of_services rfl)))
        · exact Or.inr (Or.inl (commandOf_worker hmsg hh hc))
    | reply hc h =>
      obtain ⟨client, rest, p, srv, c, -, hp, -, hwait, -⟩ := workerReply_eq_ok h
      obtain hv | rfl := hv.of_workerWaiting hwait
      · exact Or.inl (hback (hv.of_services rfl))
      · refine Or.inr (Or.inr ⟨?_, Or.inl (commandOf_worker hmsg hh hc)⟩)
        rw [← hlink, hp]
        exact Option.some_ne_none p
    | heartbeat hc h =>
      obtain hv' | rfl := hv.of_workerWaiting h
      · exact Or.inl (hback hv')
      · obtain ⟨p, srv, hp, -⟩ := workerWaiting_eq_ok h
        refine Or.inr (Or.inr ⟨?_, Or.inr (commandOf_worker hmsg hh hc)⟩)
        rw [← hlink, hp]
        exact Option.some_ne_none p
    | disconnect hc h => exact Or.inl (hback (hv.of_workerDelete h))
    | invalid hc => exact Or.inl (hback hv)
  | invalid hmsg hc hw => exact Or.inl hv

theorem Waits.of_step {r : Received} (h : b.step r = some b') (hv : b'.Waits v) :
    b.Waits v ∨ b.Rejoins r v := by
  obtain ⟨b₁, call, hacc, hd⟩ := step_eq_some h
  exact (hv.of_dispatchPending hd).of_accepted hacc

/-! ## Where workers are attached -/

structure Placed (P : Frame → Frame → Prop) (b : Broker) : Prop where
  attached : ∀ v p, b.link v = some p → P v p.name
  waiting : ∀ m srv, b.services m = some srv → ∀ v ∈ srv.waiting, P v m

variable {P : Frame → Frame → Prop}

theorem placed_initial : Placed P initial := ⟨nofun, nofun⟩

theorem Placed.mono {Q : Frame → Frame → Prop} (hb : b.Placed P) (h : ∀ v m, P v m → Q v m) :
    b.Placed Q :=
  ⟨fun v p hp => h v _ (hb.attached v p hp), fun m srv hm v hv => h v m (hb.waiting m srv hm v hv)⟩

theorem Placed.of_same (hb : b.Placed P) (hs : b'.services = b.services)
    (hl : ∀ v, b'.link v = b.link v) : b'.Placed P :=
  ⟨fun v p hp => hb.attached v p (hl v ▸ hp), fun m srv hm => hb.waiting m srv (hs ▸ hm)⟩

theorem Placed.setService {p : ServicePtr} {srv srv' : Service} (hw : b.WellFormed)
    (hb : b.Placed P) (hp : b.deref p = .ok srv) (hname : srv'.name = srv.name)
    (hgain : ∀ v ∈ srv'.waiting, v ∈ srv.waiting ∨ P v p.name) : (b.setService srv').Placed P := by
  obtain ⟨hs, -⟩ := deref_eq_ok.mp hp
  have hkey : srv.name = p.name := hw.keyed _ _ hs
  refine ⟨hb.attached, fun m s hm v hv => ?_⟩
  obtain ⟨rfl, rfl⟩ | hm := services_setService hm
  · rw [hname, hkey]
    exact (hgain v hv).elim (hb.waiting _ _ hs v) id
  · exact hb.waiting m s hm v hv

theorem Placed.required {n t : Frame} {p : Option ServicePtr} (hw : b.WellFormed)
    (hb : b.Placed P) (h : Required b n t p b') : b'.Placed P := by
  refine ⟨fun v q hq => ?_, fun m s hm v hv => ?_⟩
  · cases h with
    | unknown ht => exact hb.attached v q hq
    | same hs ht => exact hb.attached v q hq
    | changed hs hold ht =>
      rw [link_changed] at hq
      split_ifs at hq with hv
      · obtain rfl := Option.some.inj hq
        rw [hw.keyed _ _ hs]
        exact hb.waiting _ _ hs v hv.1
      · exact hb.attached v q hq
    | created hs ht => exact hb.attached v q hq
  · cases h with
    | unknown ht => exact hb.waiting m s hm v hv
    | same hs ht => exact hb.waiting m s hm v hv
    | @changed old ty hs hold ht =>
      simp only [changed, Function.update_apply] at hm
      split_ifs at hm with hmn
      · obtain rfl := Option.some.inj hm
        rw [hmn, hw.keyed n old hs]
        exact hb.waiting n old hs v hv
      · exact hb.waiting m s hm v hv
    | created hs ht =>
      simp only [created, Function.update_apply] at hm
      split_ifs at hm
      · obtain rfl := Option.some.inj hm
        cases hv
      · exact hb.waiting m s hm v hv

theorem Placed.workerWaiting {now : Int} {call : DispatchCall} (hw : b.WellFormed)
    (hb : b.Placed P) (h : b.workerWaiting w now = .ok (b', call)) : b'.Placed P := by
  obtain ⟨p, srv, hp, hsrv, -, rfl⟩ := workerWaiting_eq_ok h
  have hlink : ∀ v, (b.setWorker w ⟨some p, now + workerExpiry⟩).link v = b.link v := by
    intro v
    rw [link_setWorker]
    split_ifs with hv
    exacts [hv ▸ hp.symm, rfl]
  have hwf : (b.setWorker w ⟨some p, now + workerExpiry⟩).WellFormed :=
    (keeps_setWorker fun hw q hq => hw.linked w q (hp.trans hq)).wf hw
  refine Placed.setService hwf (hb.of_same rfl hlink) hsrv (Service.sameObject_workerWaiting srv w).name
    fun v hv => ?_
  obtain hv | rfl := Service.mem_workerWaiting.mp hv
  exacts [Or.inl hv, Or.inr (hb.attached v p hp)]

theorem Placed.workerDelete {disconnect : Bool} (hw : b.WellFormed) (hb : b.Placed P)
    (h : b.workerDelete w disconnect = .ok b') : b'.Placed P := by
  obtain ⟨n, hset⟩ := settles_workerDelete hw h
  refine ⟨fun v p hp => hb.attached v p (hset.link v ▸ hp), fun m s hm v hv => ?_⟩
  obtain ⟨-, hs⟩ | ⟨p, srv, -, hsrv, hs⟩ := workerDelete_eq_ok h
  · exact hb.waiting m s (hs ▸ hm) v hv
  · have hdel : (b.setService (srv.deleteWorker w)).Placed P := hb.setService hw hsrv rfl fun v hv =>
      Or.inl ((srv.deleteWorker_sublist w).subset hv)
    exact hdel.waiting m s (hs ▸ hm) v hv

theorem Placed.dispatchPending {call : Option DispatchCall} {r : Received} (hw : b.WellFormed)
    (hb : b.Placed P) (h : b.dispatchPending call r = .ok b') : b'.Placed P := by
  cases call with
  | none => exact Except.ok.inj h ▸ hb
  | some call =>
    obtain ⟨p, srv, last, sent, -, hp, hloop, rfl⟩ := serviceDispatch_eq_ok h
    have hd := dispatchLoop_spec hloop
    exact (hb.setService hw hp hd.same.name fun v hv => Or.inl (hd.waiting.subset hv)).of_same rfl
      fun _ => rfl

theorem Placed.accepted {r : Received} {call : Option DispatchCall} (hw : b.WellFormed)
    (hb : b.Placed P) (hready : ∀ w n t, readyOf r.msg = some (w, n, t) → P w n)
    (hacc : Accepted b r b' call) : b'.Placed P := by
  cases hacc with
  | client hmsg hh hstep =>
    cases hstep with
    | dropped hn => exact hb
    | heartbeat hn clients => exact hb.of_same rfl fun _ => rfl
    | internal hn hbeat hreq h =>
      obtain ⟨client', rest, rfl⟩ := serviceInternal_eq_ok h
      exact (hb.required hw (required_of_serviceRequire hreq).2).of_same rfl fun _ => rfl
    | request hn hbeat hreq => exact hb.required hw (required_of_serviceRequire hreq).2
  | @worker s e hd msg _ _ hmsg hh hstep =>
    have hw₀ := (keeps_workerRequire b (cstr s)).wf hw
    have hb₀ := hb.of_same (services_workerRequire b (cstr s)) (link_workerRequire b (cstr s))
    cases hstep with
    | reservedReady hc hr h => exact hb₀.workerDelete hw₀ h
    | ready hc hr h =>
      obtain ⟨rfl, -⟩ | ⟨n, t, rest, p, b₁, c, hargs, hn, hreq, hwait, -⟩ := workerReady_eq_ok h
      · exact hb₀
      obtain ⟨-, hreq⟩ := required_of_serviceRequire hreq
      obtain ⟨hk, hp⟩ := hreq.keeps
      have hw₁ : (b₁.setWorker (cstr s) ⟨p, b₁.expiry (cstr s)⟩).WellFormed :=
        (keeps_setWorker fun _ => hp hw₀).wf (hk.wf hw₀)
      have hb₁ := hb₀.required hw₀ hreq
      have hnew : P (cstr s) (cstr n) := by
        obtain ⟨c₀, hc₀⟩ : ∃ c₀, msg = c₀ :: n :: t :: rest := by
          cases msg with
          | nil => simp at hc
          | cons c₀ args => exact ⟨c₀, congrArg _ hargs⟩
        refine hready (cstr s) (cstr n) (readyType t) ?_
        rw [hc₀] at hc
        simp [hmsg, hc₀, readyOf, hh, Option.some.inj hc, hr, hn]
      refine Placed.workerWaiting hw₁ ⟨fun v q hq => ?_, hb₁.waiting⟩ hwait
      rw [link_setWorker] at hq
      split_ifs at hq with hv
      · obtain rfl : p = some q := hq
        rw [hv, (hreq.services hw₀).1]
        exact hnew
      · exact hb₁.attached v q hq
    | reply hc h =>
      obtain ⟨client, rest, p, srv, c, -, -, -, hwait, -⟩ := workerReply_eq_ok h
      exact Placed.workerWaiting ((keeps_sent _ (noRequest_clientFrames _ _ _)).wf hw₀)
        (hb₀.of_same rfl fun _ => rfl) hwait
    | heartbeat hc h => exact hb₀.workerWaiting hw₀ h
    | disconnect hc h => exact hb₀.workerDelete hw₀ h
    | invalid hc => exact hb₀
  | invalid hmsg hc hw => exact hb

theorem placed_step {r : Received} (hw : b.WellFormed) (hb : b.Placed P)
    (hready : ∀ w n t, readyOf r.msg = some (w, n, t) → P w n) (h : b.step r = some b') :
    b'.Placed P := by
  obtain ⟨b₁, call, hacc, hd⟩ := step_eq_some h
  exact (hb.accepted hw hready hacc).dispatchPending (hacc.keeps.wf hw) hd

end Broker

/-! ## What a message makes the broker do -/

theorem dispatchLoop_worker_mem {expiry : Frame → Int} {reqs : List Zmsg} {clk : ℕ → Int}
    {srv last : Service} {sent : List Dispatch}
    (h : dispatchLoop expiry reqs clk srv = .ok (last, sent)) :
    ∀ d ∈ sent, d.worker ∈ (srv.hasActivedWorker expiry (clk 0)).waiting := by
  induction reqs generalizing clk srv last sent with
  | nil =>
    obtain ⟨rfl, rfl⟩ := by simpa [dispatchLoop] using h
    simp
  | cons msg rest ih =>
    obtain ⟨-, rfl, -⟩ | ⟨w, srv', later, -, hpop, -, hloop, rfl⟩ := dispatchLoop_cons_eq_ok h
    · simp
    · obtain ⟨-, hsub, hmem⟩ := Service.popWorker_eq_ok hpop
      intro d hd
      obtain rfl | hd := List.mem_cons.mp hd
      · exact hmem w rfl
      · exact hsub.subset ((srv'.hasActivedWorker_sublist expiry _).subset (ih hloop d hd))

theorem Broker.Placed.requests {b b' : Broker} {P : Frame → Frame → Prop} {r : Received}
    (hw : b.WellFormed) (hb : b.Placed P) (hready : ∀ w n t, readyOf r.msg = some (w, n, t) → P w n)
    (h : b.step r = some b') :
    ∀ d, Action.request d ∈ b'.log.drop b.log.length → P d.worker d.service := by
  intro d hd
  obtain ⟨b₁, call, hacc, hdisp⟩ := step_eq_some h
  obtain ⟨frames, hlog, -⟩ := hacc.keeps.log
  cases call with
  | none =>
    obtain rfl := Except.ok.inj hdisp
    rw [hlog, List.drop_left] at hd
    simp at hd
  | some call =>
    obtain ⟨p, srv, last, sent, -, hsrv, hloop, rfl⟩ := serviceDispatch_eq_ok hdisp
    obtain ⟨hs, -⟩ := deref_eq_ok.mp hsrv
    have hd : d ∈ sent := by
      simpa [act, Broker.setService, hlog] using hd
    have hwait : d.worker ∈ srv.waiting :=
      (srv.hasActivedWorker_sublist _ _).subset (dispatchLoop_worker_mem hloop d hd)
    have hservice : d.service = p.name := by
      rw [((dispatchLoop_spec hloop).service d hd).1]
      exact (hacc.keeps.wf hw).keyed _ _ hs
    rw [hservice]
    exact (hb.accepted hw hready hacc).waiting _ _ hs _ hwait

namespace Watched
variable {s t : Watched} {r : Received}

structure Sends (s : Watched) (r : Received) (sent : List Dispatch) where
  accepted : Broker
  call : DispatchCall
  ptr : ServicePtr
  service : Service
  last : Service
  accept_eq : s.broker.accept r = .ok (accepted, some call)
  call_service : call.service = some ptr
  deref_eq : accepted.deref ptr = .ok service
  loop_eq : dispatchLoop accepted.expiry (service.requests ++ call.msg.toList)
    (fun i => r.clock (i + 1)) service = .ok (last, sent)

theorem step_eq_some (h : s.step r = some t) :
    s.broker.step r = some t.broker ∧ ∃ (others : List Action) (sent : List Dispatch),
      (∀ a ∈ others, ∀ d, a ≠ .request d) ∧
      t.history = s.history ++ .received r.msg :: others.map .did ++
        sent.map (fun d => .did (.request d)) ∧
      (sent = [] ∨ Nonempty (s.Sends r sent)) := by
  obtain ⟨b, hb, rfl⟩ := Option.map_eq_some_iff.mp h
  have hrecv := hb
  unfold Broker.step Broker.recv at hrecv
  cases hacc : s.broker.accept r with
  | error f => simp [hacc, bind, Except.bind, Except.toOption] at hrecv
  | ok res =>
    obtain ⟨b₁, call⟩ := res
    obtain ⟨frames, hlog, -⟩ := (Broker.accepted_of_accept hacc).keeps.log
    refine ⟨hb, ?_⟩
    simp only [hacc, bind, Except.bind] at hrecv
    cases hd : b₁.dispatchPending call r with
    | error f => simp [hd, Except.toOption] at hrecv
    | ok b₂ =>
      obtain rfl : b₂ = b := by simpa [hd, Except.toOption] using hrecv
      cases call with
      | none =>
        obtain rfl := Except.ok.inj hd
        refine ⟨frames.map .sent, [], by simp, ?_, Or.inl rfl⟩
        simp [hlog]
      | some call =>
        obtain ⟨p, srv, last, sent, hp, hsrv, hloop, rfl⟩ := Broker.serviceDispatch_eq_ok hd
        refine ⟨frames.map .sent ++ call.msg.toList.map (.queued srv.name), sent, ?_, ?_,
          Or.inr ⟨⟨b₁, call, p, srv, last, hacc, hp, hsrv, hloop⟩⟩⟩
        · intro a ha d
          obtain ha | ha := List.mem_append.mp ha
          · obtain ⟨f, -, rfl⟩ := List.mem_map.mp ha
            simp
          · obtain ⟨m, -, rfl⟩ := List.mem_map.mp ha
            simp
        · simp [Broker.act, Broker.setService, hlog, Function.comp_def]

theorem not_isRequestTo_of_others {others : List Action} (h : ∀ a ∈ others, ∀ d, a ≠ .request d)
    (w : Frame) : ∀ e ∈ BrokerEvent.received r.msg :: others.map .did, ¬ e.IsRequestTo w := by
  intro e he hreq
  obtain rfl | he := List.mem_cons.mp he
  · exact hreq
  · obtain ⟨a, ha, rfl⟩ := List.mem_map.mp he
    cases a with
    | request d => exact h _ ha d rfl
    | queued n m => exact hreq
    | sent f => exact hreq

theorem Sends.waits {sent : List Dispatch} (hs : s.Sends r sent) {d : Dispatch} (hd : d ∈ sent) :
    s.broker.Waits d.worker ∨ s.broker.Rejoins r d.worker := by
  have hw : hs.accepted.Waits d.worker := ⟨_, _, (Broker.deref_eq_ok.mp hs.deref_eq).1,
    (hs.service.hasActivedWorker_sublist _ _).subset (dispatchLoop_worker_mem hs.loop_eq d hd)⟩
  exact hw.of_accepted (Broker.accepted_of_accept hs.accept_eq)

end Watched

end IceBridge.Router
