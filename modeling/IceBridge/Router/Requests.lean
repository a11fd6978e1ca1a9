import IceBridge.Router.Pointers

/-! The fate of client requests: those of one service name are passed to workers in the
order they arrived, and the queue holds exactly those not yet passed on. -/

namespace IceBridge.Router

def queuedTo (name : Frame) (log : List Action) : List Zmsg :=
  log.filterMap fun
    | .queued n msg => if n = name then some msg else none
    | _ => none

def sentFor (name : Frame) (log : List Action) : List Zmsg :=
  log.filterMap fun
    | .request d => if d.service = name then some d.msg else none
    | _ => none

theorem queuedTo_append (name : Frame) (l l' : List Action) :
    queuedTo name (l ++ l') = queuedTo name l ++ queuedTo name l' := List.filterMap_append

theorem sentFor_append (name : Frame) (l l' : List Action) :
    sentFor name (l ++ l') = sentFor name l ++ sentFor name l' := List.filterMap_append

@[simp] theorem queuedTo_map_sent (name : Frame) (frames : List Zmsg) :
    queuedTo name (frames.map Action.sent) = [] := by
  simp [queuedTo, List.filterMap_map]

@[simp] theorem sentFor_map_sent (name : Frame) (frames : List Zmsg) :
    sentFor name (frames.map Action.sent) = [] := by
  simp [sentFor, List.filterMap_map]

@[simp] theorem queuedTo_map_request (name : Frame) (ds : List Dispatch) :
    queuedTo name (ds.map Action.request) = [] := by
  simp [queuedTo, List.filterMap_map]

@[simp] theorem sentFor_map_queued (name n : Frame) (msgs : List Zmsg) :
    sentFor name (msgs.map (Action.queued n)) = [] := by
  simp [sentFor, List.filterMap_map]

theorem queuedTo_map_queued (name n : Frame) (msgs : List Zmsg) :
    queuedTo name (msgs.map (Action.queued n)) = if name = n then msgs else [] := by
  by_cases h : n = name
  · simp [queuedTo, List.filterMap_map, h]
  · simp [queuedTo, List.filterMap_map, h, Ne.symm h]

theorem sentFor_map_request (name n : Frame) (ds : List Dispatch)
    (h : ∀ d ∈ ds, d.service = n) :
    sentFor name (ds.map Action.request) = if name = n then ds.map Dispatch.msg else [] := by
  induction ds with
  | nil => simp [sentFor]
  | cons d ds ih =>
    have hd : d.service = n := h d List.mem_cons_self
    have ih := ih fun d' hd' => h d' (List.mem_cons_of_mem d hd')
    simp only [sentFor, List.map_cons, List.filterMap_cons, hd] at ih ⊢
    rw [ih]
    split_ifs with hn hn' hn'
    exacts [rfl, absurd hn.symm hn', absurd hn'.symm hn, rfl]

namespace Broker
variable {b b' : Broker}

/-- For every service name, what arrived is what was passed on, then what is queued. -/
def InOrder (b : Broker) : Prop :=
  ∀ name, queuedTo name b.log = sentFor name b.log ++ b.queue name

theorem Keeps.inOrder (h : b.Keeps b') (hw : b.WellFormed) (hb : b.InOrder) : b'.InOrder := by
  intro name
  obtain ⟨frames, hlog, -⟩ := h.log
  rw [hlog, queuedTo_append, sentFor_append, queuedTo_map_sent, sentFor_map_sent,
    List.append_nil, List.append_nil, h.queue hw, hb name]

theorem inOrder_serviceDispatch {call : DispatchCall} {clk : ℕ → Int} (hw : b.WellFormed)
    (hb : b.InOrder) (h : b.serviceDispatch call clk = .ok b') : b'.InOrder := by
  obtain ⟨p, srv, last, sent, -, hp, hloop, rfl⟩ := serviceDispatch_eq_ok h
  obtain ⟨hs, -⟩ := deref_eq_ok.mp hp
  have hd := dispatchLoop_spec hloop
  intro name
  have hqueue : ((b.setService last).act (call.msg.toList.map (Action.queued srv.name) ++
      sent.map Action.request)).queue name = (b.setService last).queue name := rfl
  rw [hqueue, queue_setService hd.same]
  simp only [act, setService, queuedTo_append, sentFor_append, queuedTo_map_queued,
    queuedTo_map_request, sentFor_map_queued, List.append_nil, List.nil_append, hb name,
    sentFor_map_request name srv.name sent fun d hd' => (hd.service d hd').1]
  split_ifs with hn
  · have hq : b.queue name = srv.requests := by
      rw [queue, hn, hw.keyed _ _ hs, hs]
      rfl
    rw [hq, List.append_assoc, List.append_assoc, hd.requests]
  · rw [List.append_nil, List.append_nil]

theorem inOrder_step {r : Received} (hw : b.WellFormed) (hb : b.InOrder)
    (h : b.step r = some b') : b'.InOrder := by
  obtain ⟨b₁, call, hacc, hd⟩ := step_eq_some h
  have hin₁ := hacc.keeps.inOrder hw hb
  cases call with
  | none => exact Except.ok.inj hd ▸ hin₁
  | some call => exact inOrder_serviceDispatch (hacc.keeps.wf hw) hin₁ hd

/-- What holds of the queued requests and of a client's new one holds of every request a
step passes on; nothing else it sends is a REQUEST. -/
theorem actions_of_step {R : Zmsg → Prop} {r : Received} (hw : b.WellFormed)
    (hq : ∀ n, ∀ m ∈ b.queue n, R m)
    (hnew : ∀ s e header service body, r.msg = s :: e :: header :: service :: body →
      cstr header = mdpcClient → cstr service ≠ mdpwHeartbeat → R (wrap (cstr s) [] body))
    (h : b.step r = some b') :
    (∀ n, ∀ m ∈ b'.queue n, R m) ∧ ∃ l, b'.log = b.log ++ l ∧ ∀ a ∈ l,
      (∃ d, a = .request d ∧ R d.msg) ∨ ∀ f, a.frames = some f → NoRequest f := by
  obtain ⟨b₁, call, hacc, hd⟩ := step_eq_some h
  obtain ⟨frames, hlog, hno⟩ := hacc.keeps.log
  have hq₁ : ∀ n, ∀ m ∈ b₁.queue n, R m := fun n m hm => hq n m (hacc.keeps.queue hw n ▸ hm)
  have hsent : ∀ a ∈ frames.map Action.sent,
      (∃ d, a = .request d ∧ R d.msg) ∨ ∀ f, a.frames = some f → NoRequest f := by
    intro a ha
    obtain ⟨f, hf, rfl⟩ := List.mem_map.mp ha
    exact Or.inr fun g hg => Option.some.inj hg ▸ hno f hf
  cases call with
  | none => exact Except.ok.inj hd ▸ ⟨hq₁, _, hlog, hsent⟩
  | some call =>
    obtain ⟨p, srv, last, sent, -, hp, hloop, rfl⟩ := serviceDispatch_eq_ok hd
    obtain ⟨hs, -⟩ := deref_eq_ok.mp hp
    have hdis := dispatchLoop_spec hloop
    have hR : ∀ m ∈ srv.requests ++ call.msg.toList, R m := by
      intro m hm
      obtain hm | hm := List.mem_append.mp hm
      · exact hq₁ p.name m (by simpa [queue, hs] using hm)
      · obtain ⟨s, e, header, service, body, hmsg, hclient, hbeat, rfl⟩ :=
          hacc.call_msg (Option.mem_toList.mp hm)
        exact hnew s e header service body hmsg hclient hbeat
    refine ⟨fun n m hm => ?_, _, by rw [act, setService, hlog, List.append_assoc], fun a ha => ?_⟩
    · have hm' : m ∈ (b₁.setService last).queue n := hm
      rw [queue_setService hdis.same] at hm'
      split_ifs at hm'
      · exact hR m (hdis.requests ▸ List.mem_append_right _ hm')
      · exact hq₁ n m hm'
    · obtain ha | ha := List.mem_append.mp ha
      · exact hsent a ha
      obtain ha | ha := List.mem_append.mp ha
      · obtain ⟨m, -, rfl⟩ := List.mem_map.mp ha
        exact Or.inr fun f hf => absurd hf.symm (Option.some_ne_none f)
      · obtain ⟨d, hd, rfl⟩ := List.mem_map.mp ha
        refine Or.inl ⟨d, rfl, hR d.msg (hdis.requests ▸ List.mem_append_left _ ?_)⟩
        exact List.mem_map_of_mem hd

/-! ## From the messages received -/

/-- The request for a service that a client's message is, under its address. -/
def requestFor (name : Frame) : Zmsg → Option Zmsg
  | s :: _ :: h :: n :: body =>
    if cstr h = mdpcClient ∧ cstr n = name ∧ name ≠ [] ∧ name ≠ mdpwHeartbeat ∧
        reserved name = false then
      some (wrap (cstr s) [] body)
    else none
  | _ => none

/-- The clients' requests for a service among the messages of a run, in order. -/
def arrivedFor (name : Frame) (rs : List Received) : List Zmsg :=
  rs.filterMap fun r => requestFor name r.msg

theorem requestFor_of_not_client {s e h name : Frame} {msg : Zmsg} (hh : cstr h ≠ mdpcClient) :
    requestFor name (s :: e :: h :: msg) = none := by
  cases msg with
  | nil => rfl
  | cons n body => exact if_neg fun hc => hh hc.1

theorem requestFor_eq_some {s e h name : Frame} {msg : Zmsg} {m : Zmsg}
    (hm : requestFor name (s :: e :: h :: msg) = some m) : cstr h = mdpcClient ∧
      msg.head?.map cstr = some name ∧ name ≠ [] ∧ name ≠ mdpwHeartbeat ∧ reserved name = false := by
  cases msg with
  | nil => cases hm
  | cons n body =>
    simp only [requestFor] at hm
    split_ifs at hm with hc
    exact ⟨hc.1, congrArg some hc.2.1, hc.2.2⟩

theorem Accepted.requestFor_eq_none {r : Received} (h : Accepted b r b' none) (name : Frame) :
    requestFor name r.msg = none := by
  by_contra hne
  obtain ⟨m, hm⟩ := Option.ne_none_iff_exists'.mp hne
  cases h with
  | client hmsg hh hstep =>
    rw [hmsg] at hm
    obtain ⟨-, hname, hempty, hbeat, hplain⟩ := requestFor_eq_some hm
    cases hstep with
    | dropped hn => exact hempty (Option.some.inj (hname.symm.trans hn))
    | heartbeat hn clients => exact hbeat (Option.some.inj (hname.symm.trans hn))
    | internal hn hbeat hreq h hres =>
      obtain rfl := Option.some.inj (hname.symm.trans hn)
      exact Bool.true_eq_false_eq_False (hres.symm.trans hplain)
  | worker hmsg hh hstep =>
    rw [hmsg] at hm
    exact absurd (hh.symm.trans (requestFor_eq_some hm).1) (by decide)
  | invalid hmsg hc hw =>
    rw [hmsg] at hm
    exact hc (requestFor_eq_some hm).1

theorem Accepted.requestFor_toList {r : Received} {call : DispatchCall} {p : ServicePtr}
    (hw : b.WellFormed) (h : Accepted b r b' (some call)) (hp : call.service = some p)
    (name : Frame) :
    (requestFor name r.msg).toList = if name = p.name then call.msg.toList else [] := by
  cases h with
  | @client s e hd msg _ _ hmsg hh hstep =>
    cases hstep with
    | @request n _ _ hn hbeat hreq hres =>
      obtain ⟨service, hservice, rfl⟩ := Option.map_eq_some_iff.mp hn
      obtain ⟨body, rfl⟩ := List.head?_eq_some_iff.mp hservice
      obtain ⟨hempty, hreq⟩ := required_of_serviceRequire hreq
      obtain rfl : _ = some p := hp
      rw [(hreq.services hw).1, hmsg, requestFor]
      split_ifs with hc hname hname
      · rfl
      · exact absurd hc.2.1.symm hname
      · exact absurd ⟨hh, hname.symm, hname ▸ hempty, hname ▸ hbeat, hname ▸ hres⟩ hc
      · rfl
  | worker hmsg hh hstep =>
    rw [hstep.call_msg, hmsg, requestFor_of_not_client (by rw [hh]; decide), Option.toList_none,
      ite_self]

theorem queuedTo_step {r : Received} (hw : b.WellFormed) (h : b.step r = some b') (name : Frame) :
    queuedTo name b'.log = queuedTo name b.log ++ (requestFor name r.msg).toList := by
  obtain ⟨b₁, call, hacc, hd⟩ := step_eq_some h
  obtain ⟨frames, hlog, -⟩ := hacc.keeps.log
  have hb₁ : queuedTo name b₁.log = queuedTo name b.log := by
    rw [hlog, queuedTo_append, queuedTo_map_sent, List.append_nil]
  cases call with
  | none =>
    obtain rfl := Except.ok.inj hd
    rw [hb₁, hacc.requestFor_eq_none, Option.toList_none, List.append_nil]
  | some call =>
    obtain ⟨p, srv, last, sent, hp, hsrv, -, rfl⟩ := serviceDispatch_eq_ok hd
    have hkey := (hacc.keeps.wf hw).keyed _ _ (deref_eq_ok.mp hsrv).1
    rw [hacc.requestFor_toList hw hp, ← hkey, ← queuedTo_map_queued]
    simp only [act, setService, queuedTo_append, hb₁, queuedTo_map_request, List.append_nil]

/-- A client cannot request the service that has the heartbeat's name. -/
theorem queuedTo_heartbeat_step {r : Received} (hw : b.WellFormed)
    (hb : queuedTo mdpwHeartbeat b.log = []) (h : b.step r = some b') :
    queuedTo mdpwHeartbeat b'.log = [] := by
  rw [queuedTo_step hw h, hb, List.nil_append, Option.toList_eq_nil_iff]
  unfold requestFor
  split
  · exact if_neg fun hc => hc.2.2.2.1 rfl
  · rfl

theorem queuedTo_exec {rs : List Received} (hw : b.WellFormed) (h : Run.exec step b rs = some b')
    (name : Frame) : queuedTo name b'.log = queuedTo name b.log ++ arrivedFor name rs := by
  induction rs generalizing b with
  | nil =>
    obtain rfl := Option.some.inj h
    exact (List.append_nil _).symm
  | cons r rs ih =>
    obtain ⟨b₁, hb₁, hrun⟩ := Option.bind_eq_some_iff.mp h
    rw [ih (wellFormed_step hw hb₁) hrun, queuedTo_step hw hb₁, List.append_assoc]
    congr 1
    rw [arrivedFor, arrivedFor, List.filterMap_cons]
    cases requestFor name r.msg with
    | none => rfl
    | some m => rfl

/-- After any messages, the clients' requests for a service are those passed to `worker_send`
for it, in the same order, followed by the queue of that name. -/
theorem requests_in_order {rs : List Received} (h : Run.exec step initial rs = some b)
    (name : Frame) : arrivedFor name rs = sentFor name b.log ++ b.queue name := by
  have hstep : ∀ (b : Broker) r b', b.WellFormed ∧ b.InOrder → b.step r = some b' →
      b'.WellFormed ∧ b'.InOrder :=
    fun b r b' hb h => ⟨wellFormed_step hb.1 h, inOrder_step hb.1 hb.2 h⟩
  obtain ⟨-, hin⟩ := Run.exec_invariant hstep ⟨wellFormed_initial, fun _ => rfl⟩ h
  rw [← hin name, queuedTo_exec wellFormed_initial h]
  rfl

def changing : List Received :=
  [⟨[[103], [], mdpcClient, [97], [65]], fun _ => 0⟩,
   ⟨[[119], [], mdpwWorker, mdpwReady, [97], ServiceType.serviceWaitResponse.text], fun _ => 0⟩,
   ⟨[[103], [], mdpcClient, [97], [66]], fun _ => 0⟩]

theorem requests_in_order_changing : ∃ b, Run.exec step initial changing = some b ∧
    sentFor [97] b.log = [wrap [103] [] [[65]]] ∧ b.queue [97] = [wrap [103] [] [[66]]] ∧
    arrivedFor [97] changing = sentFor [97] b.log ++ b.queue [97] := by
  obtain ⟨b, hb, hsent, hqueue⟩ : ∃ b, Run.exec step initial changing = some b ∧
      sentFor [97] b.log = [wrap [103] [] [[65]]] ∧ b.queue [97] = [wrap [103] [] [[66]]] :=
    ⟨_, rfl, rfl, rfl⟩
  exact ⟨b, hb, hsent, hqueue, requests_in_order hb [97]⟩

end Broker

end IceBridge.Router
