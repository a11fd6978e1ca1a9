import IceBridge.Router.Cursor
import IceBridge.Router.Watched

/-! Whether a worker of a service of type `ServiceWaitResponse` is given one request at a time.
It is out of the waiting list while it is busy, unless a HEARTBEAT of its own puts it back or
a client's request has changed the type of the service. -/

namespace IceBridge.Router
open ServiceType

def BrokerEvent.IsRequestOf (n w : Frame) : BrokerEvent → Prop
  | did (.request d) => d.service = n ∧ d.worker = w
  | _ => False

/-- `w` has had a REQUEST of service `n` and sent no REPLY or READY since. -/
def Awaited (n w : Frame) (history : List BrokerEvent) : Prop :=
  Window.Open (BrokerEvent.IsRequestOf n w) (BrokerEvent.IsFrom w [mdpwReply, mdpwReady]) history

def Watched.OneAtATime (n : Frame) (s : Watched) : Prop :=
  ∀ w, Window.Never (BrokerEvent.IsRequestOf n w) (BrokerEvent.IsFrom w [mdpwReply, mdpwReady])
    (BrokerEvent.IsRequestTo w) s.history

/-- The three things that leave a busy worker in a waiting list do not happen: a HEARTBEAT of its
own, a READY for a second service while it waits for the first, and `pop_worker` of a
`ServiceDoNotWaitResponse`, which a client's request makes of service `n`. -/
structure Watched.Orderly (n : Frame) (s : Watched) (r : Received) : Prop where
  heartbeat : ∀ w, commandOf r.msg = some (w, mdpwHeartbeat) → ¬ Awaited n w s.history
  ready : ∀ w m t, Broker.readyOf r.msg = some (w, m, t) → ∀ m' srv,
    s.broker.services m' = some srv → w ∈ srv.waiting → m' ≠ m → m' ≠ n ∧ m ≠ n
  type : ∀ b call p srv, s.broker.accept r = .ok (b, some call) → call.service = some p →
    p.name = n → b.deref p = .ok srv → srv.requests ++ call.msg.toList ≠ [] →
      (srv.hasActivedWorker b.expiry (r.clock 1)).waiting ≠ [] → srv.type = serviceWaitResponse

/-! ## The loop of a service of type `ServiceWaitResponse` -/

theorem dispatchLoop_length_le {expiry : Frame → Int} {reqs : List Zmsg} {clk : ℕ → Int}
    {srv last : Service} {sent : List Dispatch}
    (h : dispatchLoop expiry reqs clk srv = .ok (last, sent)) : sent.length ≤ reqs.length := by
  have hreq := congrArg List.length (dispatchLoop_spec h).requests
  rw [List.length_append, List.length_map] at hreq
  exact hreq ▸ Nat.le_add_right _ _

theorem dispatchLoop_sublist {expiry : Frame → Int} {reqs : List Zmsg} {clk : ℕ → Int}
    {srv last : Service} {sent : List Dispatch} (ht : srv.type = serviceWaitResponse)
    (h : dispatchLoop expiry reqs clk srv = .ok (last, sent)) :
    (sent.map Dispatch.worker ++ last.waiting).Sublist srv.waiting := by
  induction reqs generalizing clk srv last sent with
  | nil =>
    obtain ⟨rfl, rfl⟩ := by simpa [dispatchLoop] using h
    exact List.Sublist.refl _
  | cons msg rest ih =>
    have hlive := srv.hasActivedWorker_sublist expiry (clk 0)
    have htype : (srv.hasActivedWorker expiry (clk 0)).type = serviceWaitResponse := ht
    obtain ⟨-, rfl, rfl⟩ | ⟨w, srv', later, hne, hpop, -, hloop, rfl⟩ := dispatchLoop_cons_eq_ok h
    · exact hlive
    · unfold Service.popWorker at hpop
      rw [htype] at hpop
      dsimp only at hpop
      split at hpop
      · next hws => exact absurd hws hne
      · next v ws hws =>
        obtain ⟨rfl, rfl⟩ := by simpa using hpop
        rw [hws] at hlive
        exact ((ih rfl hloop).cons_cons v).trans hlive

/-! ## Where the workers of a service wait -/

namespace Broker
variable {n : Frame} {b b' : Broker}

def Parted (n : Frame) (b : Broker) : Prop :=
  ∀ m srv, b.services m = some srv → ∀ w ∈ srv.waiting,
    ∃ p, b.link w = some p ∧ (p.name = n ↔ m = n)

theorem parted_initial : initial.Parted n := nofun

theorem Parted.of_same (hb : b.Parted n) (hs : b'.services = b.services)
    (hl : ∀ v, b'.link v = b.link v) : b'.Parted n := by
  intro m srv hm w hwait
  rw [hl]
  exact hb m srv (hs ▸ hm) w hwait

theorem Required.mem_waiting {m t v : Frame} {p : Option ServicePtr} (hw : b.WellFormed)
    (h : Required b m t p b') {m' : Frame} {srv : Service} (hm : b'.services m' = some srv)
    (hv : v ∈ srv.waiting) :
    ∃ old, b.services m' = some old ∧ v ∈ old.waiting := by
  cases h with
  | unknown ht => exact ⟨srv, hm, hv⟩
  | same hs ht => exact ⟨srv, hm, hv⟩
  | @changed old ty hs hold ht =>
    obtain rfl := hw.keyed _ _ hs
    simp only [Broker.changed, Function.update_apply] at hm
    split_ifs at hm with hname
    · obtain rfl := Option.some.inj hm
      exact ⟨old, hname ▸ hs, hv⟩
    · exact ⟨srv, hm, hv⟩
  | created hs ht =>
    simp only [Broker.created, Function.update_apply] at hm
    split_ifs at hm
    · obtain rfl := Option.some.inj hm
      cases hv
    · exact ⟨srv, hm, hv⟩

theorem Parted.required {m t : Frame} {p : Option ServicePtr} (hw : b.WellFormed)
    (hb : b.Parted n) (h : Required b m t p b') : b'.Parted n := by
  intro m' srv hm' v hv
  obtain ⟨was, hwas, hvwas⟩ := h.mem_waiting hw hm' hv
  obtain ⟨q, hq, hqn⟩ := hb m' was hwas v hvwas
  cases h with
  | unknown ht => exact ⟨q, hq, hqn⟩
  | same hs ht => exact ⟨q, hq, hqn⟩
  | @changed old ty hs hold ht =>
    obtain rfl := hw.keyed _ _ hs
    rw [link_changed]
    split_ifs with hpoint
    · -- it waited in both lists, so both are of `n` or neither is
      obtain ⟨q', hq', hqn'⟩ := hb _ old hs v hpoint.1
      obtain rfl := Option.some.inj (hq.symm.trans hq')
      exact ⟨_, rfl, hqn'.symm.trans hqn⟩
    · exact ⟨q, hq, hqn⟩
  | created hs ht => exact ⟨q, hq, hqn⟩

theorem Parted.setService {p : ServicePtr} {srv srv' : Service} (hw : b.WellFormed)
    (hb : b.Parted n) (hp : b.deref p = .ok srv) (hname : srv'.name = srv.name)
    (hgain : ∀ v ∈ srv'.waiting, v ∈ srv.waiting ∨ b.link v = some p) :
    (b.setService srv').Parted n := by
  obtain ⟨hs, -⟩ := deref_eq_ok.mp hp
  have hkey : srv.name = p.name := hw.keyed _ _ hs
  intro m s hm v hv
  obtain ⟨rfl, rfl⟩ | hm := services_setService hm
  · rw [hname, hkey]
    obtain hv | hlink := hgain v hv
    · exact hb _ _ hs v hv
    · exact ⟨p, hlink, Iff.rfl⟩
  · exact hb m s hm v hv

theorem Parted.workerWaiting {w : Frame} {now : Int} {call : DispatchCall} (hw : b.WellFormed)
    (hb : b.Parted n) (h : b.workerWaiting w now = .ok (b', call)) : b'.Parted n := by
  obtain ⟨p, srv, hp, hsrv, -, rfl⟩ := workerWaiting_eq_ok h
  have hlink : ∀ v, (b.setWorker w ⟨some p, now + workerExpiry⟩).link v = b.link v := by
    intro v
    rw [link_setWorker]
    split_ifs with hv
    exacts [hv ▸ hp.symm, rfl]
  have hwf : (b.setWorker w ⟨some p, now + workerExpiry⟩).WellFormed :=
    (keeps_setWorker fun hw q hq => hw.linked w q (hp.trans hq)).wf hw
  have hset : (b.setWorker w ⟨some p, now + workerExpiry⟩).Parted n := hb.of_same rfl hlink
  refine hset.setService hwf hsrv (Service.sameObject_workerWaiting srv w).name fun v hv => ?_
  obtain hv | rfl := Service.mem_workerWaiting.mp hv
  exacts [Or.inl hv, Or.inr ((hlink v).trans hp)]

theorem Parted.workerDelete {w : Frame} {disconnect : Bool} (hw : b.WellFormed)
    (hb : b.Parted n) (h : b.workerDelete w disconnect = .ok b') : b'.Parted n := by
  obtain ⟨m, hset⟩ := settles_workerDelete hw h
  obtain ⟨-, hs⟩ | ⟨p, srv, -, hsrv, hs⟩ := workerDelete_eq_ok h
  · exact hb.of_same hs hset.link
  · have hdel : (b.setService (srv.deleteWorker w)).Parted n := hb.setService hw hsrv rfl fun v hv =>
      Or.inl ((srv.deleteWorker_sublist w).subset hv)
    exact hdel.of_same hs hset.link

theorem Parted.accepted {r : Received} {call : Option DispatchCall} (hw : b.WellFormed)
    (hb : b.Parted n) (hready : ∀ w m t, readyOf r.msg = some (w, m, t) → ∀ m' srv,
      b.services m' = some srv → w ∈ srv.waiting → m' ≠ m → m' ≠ n ∧ m ≠ n)
    (hacc : Accepted b r b' call) : b'.Parted n := by
  cases hacc with
  | client hmsg hh hstep =>
    cases hstep with
    | dropped hn => exact hb
    | heartbeat hn clients => exact hb.of_same rfl fun _ => rfl
    | internal hn hbeat hreq h =>
      obtain ⟨client', rest, rfl⟩ := serviceInternal_eq_ok h
      exact (hb.required hw (required_of_serviceRequire hreq).2).of_same rfl fun _ => rfl
    | request hn hbeat hreq => exact hb.required hw (required_of_serviceRequire hreq).2
  | @worker s e hd msg _ _ hmsg hh hstep =>
    have hw₀ := (keeps_workerRequire b (cstr s)).wf hw
    have hs₀ := services_workerRequire b (cstr s)
    have hb₀ := hb.of_same hs₀ (link_workerRequire b (cstr s))
    cases hstep with
    | reservedReady hc hr h => exact hb₀.workerDelete hw₀ h
    | ready hc hr h =>
      obtain ⟨rfl, -⟩ | ⟨m, t, rest, p, b₁, c, hargs, hm, hreq, hwait, -⟩ := workerReady_eq_ok h
      · exact hb₀
      obtain ⟨-, hreq⟩ := required_of_serviceRequire hreq
      obtain ⟨hk, hp⟩ := hreq.keeps
      have hw₁ : (b₁.setWorker (cstr s) ⟨p, b₁.expiry (cstr s)⟩).WellFormed :=
        (keeps_setWorker fun _ => hp hw₀).wf (hk.wf hw₀)
      have hof : readyOf r.msg = some (cstr s, cstr m, readyType t) := by
        obtain ⟨c₀, hc₀⟩ : ∃ c₀, msg = c₀ :: m :: t :: rest := by
          cases msg with
          | nil => simp at hc
          | cons c₀ args => exact ⟨c₀, congrArg _ hargs⟩
        rw [hc₀] at hc
        simp [hmsg, hc₀, readyOf, hh, Option.some.inj hc, hr, hm]
      obtain ⟨q, srv, hq, -⟩ := workerWaiting_eq_ok hwait
      obtain rfl : p = some q := by simpa [link_setWorker] using hq
      refine Parted.workerWaiting hw₁ (fun m' s' hm' v hv => ?_) hwait
      rw [link_setWorker]
      split_ifs with hvs
      · obtain ⟨old, hold, hvold⟩ := hreq.mem_waiting hw₀ hm' hv
        refine ⟨q, rfl, ?_⟩
        rw [(hreq.services hw₀).1]
        by_cases hmm : m' = cstr m
        · rw [hmm]
        · obtain ⟨h₁, h₂⟩ := hready _ _ _ hof m' old (hs₀ ▸ hold) (hvs ▸ hvold) hmm
          exact iff_of_false h₂ h₁
      · exact hb₀.required hw₀ hreq m' s' hm' v hv
    | reply hc h =>
      obtain ⟨client, rest, p, srv, c, -, -, -, hwait, -⟩ := workerReply_eq_ok h
      exact Parted.workerWaiting ((keeps_sent _ (noRequest_clientFrames _ _ _)).wf hw₀)
        (hb₀.of_same rfl fun _ => rfl) hwait
    | heartbeat hc h => exact hb₀.workerWaiting hw₀ h
    | disconnect hc h => exact hb₀.workerDelete hw₀ h
    | invalid hc => exact hb₀
  | invalid hmsg hc hw' => exact hb

theorem Parted.dispatchPending {call : Option DispatchCall} {r : Received} (hw : b.WellFormed)
    (hb : b.Parted n) (h : b.dispatchPending call r = .ok b') : b'.Parted n := by
  cases call with
  | none => exact Except.ok.inj h ▸ hb
  | some call =>
    obtain ⟨p, srv, last, sent, -, hp, hloop, rfl⟩ := serviceDispatch_eq_ok h
    have hd := dispatchLoop_spec hloop
    exact (hb.setService hw hp hd.same.name fun v hv => Or.inl (hd.waiting.subset hv)).of_same rfl
      fun _ => rfl

end Broker

/-! ## One message, and runs -/

namespace Watched
variable {n w : Frame} {s t : Watched} {r : Received}

/-- A worker with an unanswered REQUEST of service `n` waits for no service. -/
structure Apart (n : Frame) (s : Watched) : Prop where
  wf : s.broker.WellFormed
  parted : s.broker.Parted n
  idle : ∀ w, Awaited n w s.history → ¬ s.broker.Waits w

theorem apart_initial : ({} : Watched).Apart n :=
  ⟨Broker.wellFormed_initial, Broker.parted_initial, fun _ h => absurd h Window.not_open_nil⟩

theorem awaited_of_append {h l : List BrokerEvent} (hl : ∀ e ∈ l, ¬ e.IsRequestOf n w)
    (ha : Awaited n w (h ++ l)) : Awaited n w h ∧ ∀ e ∈ l, ¬ e.IsFrom w [mdpwReply, mdpwReady] := by
  obtain ha | ⟨pre, a, mid, rfl, ha, -⟩ := Window.open_append.mp ha
  · exact ha
  · exact absurd ha (hl a (by simp))

theorem not_isRequestOf_of_others {others : List Action} (h : ∀ a ∈ others, ∀ d, a ≠ .request d) :
    ∀ e ∈ BrokerEvent.received r.msg :: others.map .did, ¬ e.IsRequestOf n w := by
  intro e he hreq
  apply not_isRequestTo_of_others h w e he
  cases e with
  | received msg => exact hreq
  | did action =>
    cases action with
    | request d => exact hreq.2
    | queued m msg => exact hreq
    | sent frames => exact hreq

theorem Apart.not_awaited {b : Broker} {call : Option DispatchCall} {others : List Action}
    (hs : s.Apart n) (hc : s.Orderly n r) (hacc : Broker.Accepted s.broker r b call)
    (hothers : ∀ a ∈ others, ∀ d, a ≠ .request d) (hw : b.Waits w) :
    ¬ Awaited n w (s.history ++ .received r.msg :: others.map .did) := by
  intro hawaited
  obtain ⟨hbefore, hnone⟩ := awaited_of_append (not_isRequestOf_of_others hothers) hawaited
  have hmsg := hnone (.received r.msg) List.mem_cons_self
  obtain hwaits | hready | ⟨-, hreply | hbeat⟩ := hw.of_accepted hacc
  · exact hs.idle w hbefore hwaits
  · exact hmsg ⟨mdpwReady, by simp, hready⟩
  · exact hmsg ⟨mdpwReply, by simp, hreply⟩
  · exact hc.heartbeat w hbeat hbefore

theorem Sends.type {sent : List Dispatch} (hsend : s.Sends r sent) (hs : s.Apart n)
    (hc : s.Orderly n r) {d : Dispatch} (hd : d ∈ sent) (hservice : d.service = n) :
    hsend.ptr.name = n ∧ hsend.service.type = serviceWaitResponse := by
  have hwf := (Broker.accepted_of_accept hsend.accept_eq).keeps.wf hs.wf
  have hkey := hwf.keyed _ _ (Broker.deref_eq_ok.mp hsend.deref_eq).1
  have hname : hsend.ptr.name = n :=
    hkey.symm.trans (((dispatchLoop_spec hsend.loop_eq).service d hd).1.symm.trans hservice)
  refine ⟨hname, hc.type _ _ _ _ hsend.accept_eq hsend.call_service hname hsend.deref_eq ?_ ?_⟩
  · intro hnil
    have hlen := dispatchLoop_length_le hsend.loop_eq
    rw [hnil, List.length_nil] at hlen
    exact absurd (List.length_pos_of_mem hd) (not_lt.mpr hlen)
  · exact List.ne_nil_of_mem (dispatchLoop_worker_mem hsend.loop_eq d hd)

theorem Sends.waits_accepted {sent : List Dispatch} (hsend : s.Sends r sent) {d : Dispatch}
    (hd : d ∈ sent) : hsend.accepted.Waits d.worker :=
  ⟨_, _, (Broker.deref_eq_ok.mp hsend.deref_eq).1,
    (hsend.service.hasActivedWorker_sublist _ _).subset
      (dispatchLoop_worker_mem hsend.loop_eq d hd)⟩

theorem Sends.nodup {sent : List Dispatch} (hsend : s.Sends r sent) (hs : s.Apart n)
    (hc : s.Orderly n r) {d : Dispatch} (hd : d ∈ sent) (hservice : d.service = n) :
    (sent.map Dispatch.worker ++ hsend.last.waiting).Nodup := by
  have hwf := (Broker.accepted_of_accept hsend.accept_eq).keeps.wf hs.wf
  exact (hwf.nodup _ _ (Broker.deref_eq_ok.mp hsend.deref_eq).1).sublist
    (dispatchLoop_sublist (hsend.type hs hc hd hservice).2 hsend.loop_eq)

theorem Sends.services {sent : List Dispatch} (hsend : s.Sends r sent) {c : Broker}
    (h : s.broker.step r = some c) :
    c.services = (hsend.accepted.setService hsend.last).services := by
  have hrecv := Broker.step_eq_ok h
  unfold Broker.recv at hrecv
  rw [hsend.accept_eq, ok_bind] at hrecv
  obtain ⟨p, srv, last, sent', hp, hsrv, hloop, rfl⟩ := Broker.serviceDispatch_eq_ok hrecv
  obtain rfl := Option.some.inj (hsend.call_service.symm.trans hp)
  obtain rfl := Except.ok.inj (hsend.deref_eq.symm.trans hsrv)
  obtain ⟨rfl, -⟩ := Prod.mk.inj (Except.ok.inj (hsend.loop_eq.symm.trans hloop))
  rfl

theorem Sends.not_waits {sent : List Dispatch} (hsend : s.Sends r sent) (hs : s.Apart n)
    (hc : s.Orderly n r) {c : Broker} (h : s.broker.step r = some c) {d : Dispatch}
    (hd : d ∈ sent) (hservice : d.service = n) : ¬ c.Waits d.worker := by
  obtain ⟨hname, -⟩ := hsend.type hs hc hd hservice
  have hacc := Broker.accepted_of_accept hsend.accept_eq
  have hparted := hs.parted.accepted hs.wf hc.ready hacc
  have hsrv := (Broker.deref_eq_ok.mp hsend.deref_eq).1
  have hlast : hsend.last.name = n := by
    rw [(dispatchLoop_spec hsend.loop_eq).same.name, (hacc.keeps.wf hs.wf).keyed _ _ hsrv, hname]
  have hgone : d.worker ∉ hsend.last.waiting := fun hin =>
    (List.nodup_append.mp (hsend.nodup hs hc hd hservice)).2.2 _ (List.mem_map_of_mem hd) _ hin rfl
  have hmem : d.worker ∈ hsend.service.waiting :=
    (hsend.service.hasActivedWorker_sublist _ _).subset (dispatchLoop_worker_mem hsend.loop_eq d hd)
  rintro ⟨m, srv, hm, hin⟩
  rw [hsend.services h] at hm
  by_cases hmn : m = n
  · have hat : (hsend.accepted.setService hsend.last).services m = some hsend.last := by
      rw [hmn, ← hlast]
      exact Function.update_self ..
    exact hgone (Option.some.inj (hm.symm.trans hat) ▸ hin)
  · obtain ⟨rfl, -⟩ | hm := Broker.services_setService hm
    · exact hmn hlast
    · -- it would be attached to `n` and to another service
      obtain ⟨q, hq, hqn⟩ := hparted m srv hm d.worker hin
      obtain ⟨q', hq', hqn'⟩ := hparted _ _ hsrv d.worker hmem
      obtain rfl := Option.some.inj (hq.symm.trans hq')
      exact hmn (hqn.mp (hqn'.mpr hname))

theorem apart_step (hs : s.Apart n) (hc : s.Orderly n r) (h : s.step r = some t) : t.Apart n := by
  obtain ⟨hb, others, sent, hothers, hhist, hsends⟩ := step_eq_some h
  obtain ⟨b₁, call, hacc, hdisp⟩ := Broker.step_eq_some hb
  have hparted₁ := hs.parted.accepted hs.wf hc.ready hacc
  refine ⟨Broker.wellFormed_step hs.wf hb, hparted₁.dispatchPending (hacc.keeps.wf hs.wf) hdisp,
    fun w ha hw => ?_⟩
  rw [hhist] at ha
  obtain ⟨ha, -⟩ | ⟨pre, a, mid, heq, ha, -⟩ := Window.open_append.mp ha
  · exact hs.not_awaited hc hacc hothers (hw.of_dispatchPending hdisp) ha
  · have hmem : a ∈ sent.map fun d => BrokerEvent.did (.request d) := by simp [heq]
    obtain ⟨d, hd, rfl⟩ := List.mem_map.mp hmem
    obtain ⟨hservice, rfl⟩ : d.service = n ∧ d.worker = w := ha
    obtain rfl | ⟨⟨hsend⟩⟩ := hsends
    · cases hd
    · exact hsend.not_waits hs hc hb hd hservice hw

theorem oneAtATime_step (hs : s.Apart n) (honce : s.OneAtATime n) (hc : s.Orderly n r)
    (h : s.step r = some t) : t.OneAtATime n := by
  obtain ⟨-, others, sent, hothers, hhist, hsends⟩ := step_eq_some h
  intro w
  have hbefore := Window.never_append_of_forall (honce w)
    (not_isRequestTo_of_others (r := r) hothers w)
  rw [hhist]
  refine Window.never_append hbefore fun pre c post heq hbad hopen => ?_
  -- the event is one of the REQUESTs sent, after those in `ds₁`
  obtain ⟨ds₁, ds₂, hsplit, rfl, hds₂⟩ := List.map_eq_append_iff.mp heq
  obtain ⟨d, ds₃, rfl, rfl, rfl⟩ := List.map_eq_cons_iff.mp hds₂
  obtain rfl : d.worker = w := hbad
  have hd : d ∈ sent := by simp [hsplit]
  obtain rfl | ⟨⟨hsend⟩⟩ := hsends
  · cases hd
  obtain ⟨hopen, -⟩ | ⟨pre, a, mid, heq, ha, -⟩ := Window.open_append.mp hopen
  · -- a REQUEST of an earlier message
    exact hs.not_awaited hc (Broker.accepted_of_accept hsend.accept_eq) hothers
      (hsend.waits_accepted hd) hopen
  · -- a REQUEST of the same message
    have hmem : a ∈ ds₁.map fun d => BrokerEvent.did (.request d) := by simp [heq]
    obtain ⟨d', hd', rfl⟩ := List.mem_map.mp hmem
    obtain ⟨hservice, hworker⟩ : d'.service = n ∧ d'.worker = d.worker := ha
    have hmem' : d' ∈ sent := by simp [hsplit, hd']
    have hnodup := (List.nodup_append.mp (hsend.nodup hs hc hmem' hservice)).1
    rw [hsplit, List.map_append, List.map_cons, List.nodup_append] at hnodup
    exact hnodup.2.2 _ (List.mem_map_of_mem hd') _ List.mem_cons_self hworker

/-- In every run from the empty broker whose messages leave no busy worker in a waiting list, a
worker has at most one REQUEST of the service at a time. -/
theorem oneAtATime_run (n : Frame) (rs : List Received)
    (hrun : Run.EachStep step (Orderly n) {} rs) : Run.Always step (OneAtATime n) {} rs := by
  have hstep : ∀ (s : Watched) r t, s.Apart n ∧ s.OneAtATime n → s.Orderly n r →
      s.step r = some t → t.Apart n ∧ t.OneAtATime n := fun s r t hs hc h =>
    ⟨apart_step hs.1 hc h, oneAtATime_step hs.1 hs.2 hc h⟩
  have hinit : ({} : Watched).Apart n ∧ ({} : Watched).OneAtATime n :=
    ⟨apart_initial, fun w => Window.never_nil⟩
  exact (Run.always_of_eachStep hstep hinit hrun).mono fun _ hs => hs.2

theorem Orderly.of_accept {b : Broker} {call : DispatchCall} {p : ServicePtr} {srv : Service}
    (hacc : s.broker.accept r = .ok (b, some call)) (hp : call.service = some p)
    (hsrv : b.deref p = .ok srv) (h : srv.waiting = [] ∨ srv.type = serviceWaitResponse)
    (hbeat : ∀ w, commandOf r.msg ≠ some (w, mdpwHeartbeat))
    (hready : Broker.readyOf r.msg = none ∨ ∀ v, ¬ s.broker.Waits v) : s.Orderly n r := by
  refine ⟨fun w hw => absurd hw (hbeat w), fun w m t hof m' s' hm' hw => ?_, ?_⟩
  · obtain hnone | hfree := hready
    · exact absurd (hnone.symm.trans hof) (Option.some_ne_none _).symm
    · exact absurd ⟨m', s', hm', hw⟩ (hfree w)
  · intro b' call' p' srv' hacc' hp' _ hsrv' _ hlive
    obtain ⟨rfl, hcall⟩ := Prod.mk.inj (Except.ok.inj (hacc.symm.trans hacc'))
    obtain rfl := Option.some.inj hcall
    obtain rfl := Option.some.inj (hp.symm.trans hp')
    obtain rfl := Except.ok.inj (hsrv.symm.trans hsrv')
    obtain hnil | htype := h
    · exact absurd (List.subset_nil.mp (hnil ▸ (srv.hasActivedWorker_sublist _ _).subset)) hlive
    · exact htype

theorem oneAtATime_answered : Run.Always step (OneAtATime [97]) {}
    [⟨[[103], [], mdpcClient, [97], [65]], fun _ => 0⟩,
     ⟨[[103], [], mdpcClient, [97], [66]], fun _ => 0⟩,
     ⟨[[119, 49], [], mdpwWorker, mdpwReady, [97], serviceWaitResponse.text], fun _ => 0⟩,
     ⟨[[119, 49], [], mdpwWorker, mdpwReply, [103], [], [88]], fun _ => 0⟩] := by
  refine oneAtATime_run [97] _ fun s₁ h₁ =>
    ⟨.of_accept rfl rfl rfl (.inl rfl) nofun (.inl rfl), fun s₂ h₂ => ?_⟩
  obtain rfl := Option.some.inj h₁
  refine ⟨.of_accept rfl rfl rfl (.inl rfl) nofun (.inl rfl), fun s₃ h₃ => ?_⟩
  obtain rfl := Option.some.inj h₂
  refine ⟨.of_accept rfl rfl rfl (.inr rfl) (fun w hw => ?_) (.inr ?_), fun s₄ h₄ => ?_⟩
  · cases (Prod.mk.inj (Option.some.inj hw)).2
  · rintro v ⟨m, srv, hm, hv⟩
    by_cases hma : m = [97]
    · obtain rfl := hma
      obtain rfl := Option.some.inj (Eq.trans (Eq.symm hm) rfl)
      cases hv
    · cases hm.symm.trans ((Function.update_of_ne hma ..).trans ((Function.update_of_ne hma ..).trans
        (Function.update_of_ne hma ..)))
  obtain rfl := Option.some.inj h₃
  refine ⟨.of_accept rfl rfl rfl (.inr rfl) (fun w hw => ?_) (.inl rfl), trivial⟩
  cases (Prod.mk.inj (Option.some.inj hw)).2

def twoRequests : List Received :=
  [⟨[[119, 49], [], mdpwWorker, mdpwReady, [97], serviceWaitResponse.text], fun _ => 0⟩,
   ⟨[[103], [], mdpcClient, [97], [65]], fun _ => 0⟩,
   ⟨[[103], [], mdpcClient, [97], [66]], fun _ => 0⟩]

/-- The first request changes the type of the service, so the worker stays in the list and has
the second request before it has answered. -/
theorem not_oneAtATime_twoRequests :
    (∀ r ∈ twoRequests, ∀ w t, Broker.readyOf r.msg = some (w, [97], t) →
        t = serviceWaitResponse.text) ∧
      ¬ Run.Always step (OneAtATime [97]) {} twoRequests := by
  constructor
  · intro r hr w t hready
    simp only [twoRequests, List.mem_cons, List.not_mem_nil, or_false] at hr
    obtain rfl | rfl | rfl := hr
    · exact (Prod.mk.inj (Prod.mk.inj (Option.some.inj hready)).2).2.symm
    · cases hready
    · cases hready
  · intro h
    obtain ⟨-, h₁⟩ := h
    obtain ⟨-, h₂⟩ := h₁ _ rfl
    obtain ⟨-, h₃⟩ := h₂ _ rfl
    have hlast := h₃ _ rfl
    obtain ⟨e, he, hclose⟩ := hlast [119, 49] [_, _, _] _ [_, _] _ [] rfl ⟨rfl, rfl⟩ rfl
    simp only [List.mem_cons, List.not_mem_nil, or_false] at he
    obtain rfl | rfl := he
    · obtain ⟨c, -, hc⟩ := hclose
      cases hc
    · exact hclose

end Watched

end IceBridge.Router
