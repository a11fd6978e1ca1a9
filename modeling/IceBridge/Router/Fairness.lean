import IceBridge.Lib.Rotation
import IceBridge.Router.Cursor
import IceBridge.Router.Watched

/-! How a `ServiceDoNotWaitResponse` shares its requests out. While its waiting list stays as it
is, `pop_worker` goes round the list from where the remembered position stands, so no worker
gets more than one request more than another. -/

namespace IceBridge.Router
open ServiceType

structure ServiceCall where
  msg : Option Zmsg
  expiry : Frame → Int
  clock : ℕ → Int

def ServiceCall.Sendable (call : ServiceCall) : Prop := ∀ msg ∈ call.msg, Router.Sendable msg

instance (call : ServiceCall) : Decidable call.Sendable :=
  inferInstanceAs (Decidable (∀ msg ∈ call.msg, Router.Sendable msg))

namespace Service

def dispatch (srv : Service) (call : ServiceCall) : Result (Service × List Dispatch) :=
  dispatchLoop call.expiry (srv.requests ++ call.msg.toList) call.clock srv

def dispatchAll : Service → List ServiceCall → Result (Service × List Dispatch)
  | srv, [] => .ok (srv, [])
  | srv, call :: calls => do
    let (next, sent) ← srv.dispatch call
    let (last, later) ← next.dispatchAll calls
    return (last, sent ++ later)

def Alive (waiting : List Frame) (expiry : Frame → Int) (clock : ℕ → Int) : Prop :=
  ∀ w ∈ waiting, ∀ i, ¬ expiry w < clock i

/-- `last` is the service after REQUESTs to its workers in turn, from the position on where the
next `pop_worker` starts. -/
structure Rotated (srv last : Service) (sent : List Dispatch) : Prop where
  type : last.type = srv.type
  waiting : last.waiting = srv.waiting
  inRange : last.InRange
  position : last.position % srv.waiting.length =
    (srv.position + sent.length) % srv.waiting.length
  round : Rotation.Round srv.waiting srv.position (sent.map Dispatch.worker)

variable {srv mid last : Service} {sent later : List Dispatch}

theorem Rotated.trans (h : srv.Rotated mid sent) (h' : mid.Rotated last later) :
    srv.Rotated last (sent ++ later) := by
  refine ⟨h'.type.trans h.type, h'.waiting.trans h.waiting, h'.inRange, ?_, ?_⟩
  · rw [List.length_append, ← Nat.add_assoc, ← h.waiting, h'.position, Nat.add_mod, h.waiting,
      h.position, ← Nat.add_mod]
  · rw [List.map_append]
    apply h.round.append
    rw [List.length_map]
    have hround := h'.round
    rw [h.waiting] at hround
    exact hround.congr h.position

theorem hasActivedWorker_of_alive {expiry : Frame → Int} {clock : ℕ → Int} {i : ℕ}
    (h : Alive srv.waiting expiry clock) : srv.hasActivedWorker expiry (clock i) = srv := by
  have hall : ∀ w ∈ srv.waiting, decide (¬ expiry w < clock i) = true := by
    intro w hw
    exact decide_eq_true (h w hw i)
  rw [hasActivedWorker, List.filter_eq_self.mpr hall]

theorem nextPos_eq_mod (hne : srv.waiting ≠ []) (hle : srv.position ≤ srv.waiting.length) :
    srv.nextPos = srv.position % srv.waiting.length := by
  have hpos : 0 < srv.waiting.length := List.length_pos_of_ne_nil hne
  rw [nextPos_of_position]
  split_ifs with hend
  · rw [hend, Nat.mod_self]
  · rw [Nat.mod_eq_of_lt (lt_of_le_of_ne hle hend)]

theorem popWorker_rotated (ht : srv.type = serviceDoNotWaitResponse) (hne : srv.waiting ≠ [])
    (hin : srv.InRange) : ∃ w, srv.popWorker = .ok (some w, srv.advance) ∧
      ∀ d : Dispatch, d.worker = w → srv.Rotated srv.advance [d] := by
  obtain ⟨w, hget, hpop⟩ := popWorker_doNotWait ht hne hin
  have hpos : 0 < srv.waiting.length := List.length_pos_of_ne_nil hne
  have hmod := nextPos_eq_mod hne hin.position.2
  have hlt : srv.nextPos < srv.waiting.length := hmod ▸ Nat.mod_lt _ hpos
  refine ⟨w, hpop, ?_⟩
  rintro d rfl
  refine ⟨rfl, rfl, ⟨srv.nextPos + 1, rfl, hlt⟩, ?_, ?_⟩
  · show (srv.nextPos + 1) % srv.waiting.length = (srv.position + 1) % srv.waiting.length
    rw [hmod, Nat.mod_add_mod]
  · rw [List.map_singleton, Rotation.round_cons, ← hmod]
    exact ⟨hget, Rotation.round_nil⟩

theorem dispatchLoop_rotated {expiry : Frame → Int} {clock : ℕ → Int} (reqs : List Zmsg)
    (ht : srv.type = serviceDoNotWaitResponse) (hne : srv.waiting ≠ []) (hin : srv.InRange)
    (halive : Alive srv.waiting expiry clock) (hsend : ∀ msg ∈ reqs, Sendable msg) :
    ∃ last sent, dispatchLoop expiry reqs clock srv = .ok (last, sent) ∧ last.requests = [] ∧
      sent.map Dispatch.msg = reqs ∧ srv.Rotated last sent := by
  induction reqs generalizing srv clock with
  | nil =>
    exact ⟨{ srv with requests := [] }, [], rfl, rfl, rfl, rfl, rfl, hin, rfl, Rotation.round_nil⟩
  | cons msg rest ih =>
    obtain ⟨w, hpop, hrot⟩ := popWorker_rotated ht hne hin
    have hlive := hasActivedWorker_of_alive (i := 0) halive
    set d : Dispatch := ⟨srv.name, srv.serial, w, msg, srv.waiting, expiry w, clock 0⟩ with hd
    have hstep : srv.Rotated srv.advance [d] := hrot d rfl
    have hlater : Alive srv.advance.waiting expiry fun i => clock (i + 1) := by
      intro v hv i
      exact halive v hv (i + 1)
    obtain ⟨last, sent, hloop, hreq, hmsg, hrest⟩ := @ih srv.advance _ ht hne hstep.inRange hlater
      fun m hm => hsend m (List.mem_cons_of_mem msg hm)
    refine ⟨last, d :: sent, ?_, hreq, ?_, hstep.trans hrest⟩
    · have hne' : (srv.hasActivedWorker expiry (clock 0)).waiting ≠ [] := by
        rw [hlive]
        exact hne
      have hpop' : (srv.hasActivedWorker expiry (clock 0)).popWorker = .ok (some w, srv.advance) :=
        (congrArg popWorker hlive).trans hpop
      rw [dispatchLoop_of_popWorker hne' hpop', if_pos (hsend msg List.mem_cons_self), hloop, hlive]
      rfl
    · rw [List.map_cons, hmsg]

theorem dispatchAll_rotated (calls : List ServiceCall)
    (ht : srv.type = serviceDoNotWaitResponse) (hne : srv.waiting ≠ []) (hin : srv.InRange)
    (hreq : srv.requests = [])
    (halive : ∀ call ∈ calls, Alive srv.waiting call.expiry call.clock)
    (hsend : ∀ call ∈ calls, call.Sendable) :
    ∃ last sent, srv.dispatchAll calls = .ok (last, sent) ∧ srv.Rotated last sent ∧
      last.requests = [] ∧ sent.map Dispatch.msg = calls.flatMap fun call => call.msg.toList := by
  induction calls generalizing srv with
  | nil => exact ⟨srv, [], rfl, ⟨rfl, rfl, hin, rfl, Rotation.round_nil⟩, hreq, rfl⟩
  | cons call calls ih =>
    have hqueue : srv.requests ++ call.msg.toList = call.msg.toList := by
      rw [hreq, List.nil_append]
    obtain ⟨next, sent, hcall, hempty, hmsg, hstep⟩ := dispatchLoop_rotated call.msg.toList ht hne
      hin (halive call List.mem_cons_self)
      fun m hm => hsend call List.mem_cons_self m (Option.mem_toList.mp hm)
    have hrest : ∀ c ∈ calls, Alive next.waiting c.expiry c.clock := by
      intro c hc
      rw [hstep.waiting]
      exact halive c (List.mem_cons_of_mem _ hc)
    obtain ⟨last, later, hcalls, hrot, hlast, hlater⟩ := ih (hstep.type.trans ht)
      (hstep.waiting ▸ hne) hstep.inRange hempty hrest
      fun c hc => hsend c (List.mem_cons_of_mem _ hc)
    refine ⟨last, sent ++ later, ?_, hstep.trans hrot, hlast, ?_⟩
    · rw [dispatchAll, dispatch, hqueue, hcall, ok_bind]
      dsimp only
      rw [hcalls]
      rfl
    · rw [List.map_append, hmsg, hlater, List.flatMap_cons]

theorem dispatch_of_not_sendable {call : ServiceCall}
    (ht : srv.type = serviceDoNotWaitResponse) (hne : srv.waiting ≠ []) (hin : srv.InRange)
    (hreq : srv.requests = []) (halive : Alive srv.waiting call.expiry call.clock)
    (hsend : ¬ call.Sendable) : srv.dispatch call = .error .assertion := by
  have hlive := hasActivedWorker_of_alive (i := 0) halive
  obtain ⟨w, hpop, -⟩ := popWorker_rotated ht hne hin
  cases hmsg : call.msg with
  | none => exact absurd (fun m hm => absurd (hmsg.symm.trans hm) (Option.some_ne_none m).symm) hsend
  | some msg =>
    have hbad : ¬ Sendable msg := by
      intro h
      apply hsend
      intro m hm
      obtain rfl := Option.some.inj (hmsg.symm.trans hm)
      exact h
    have hne' : (srv.hasActivedWorker call.expiry (call.clock 0)).waiting ≠ [] := by
      rw [hlive]
      exact hne
    have hpop' : (srv.hasActivedWorker call.expiry (call.clock 0)).popWorker =
        .ok (some w, srv.advance) := (congrArg popWorker hlive).trans hpop
    rw [dispatch, hreq, hmsg, List.nil_append, Option.toList_some,
      dispatchLoop_of_popWorker hne' hpop', if_neg hbad]

end Service

namespace Broker
variable {b b' : Broker}

/-! ## Between messages no service has both requests and workers -/

/-- A service with a worker waiting has no request queued, the one of this name apart. -/
def Drained (b : Broker) (busy : Option Frame) : Prop :=
  ∀ n srv, b.services n = some srv → busy ≠ some n → srv.waiting = [] ∨ srv.requests = []

theorem drained_initial : initial.Drained none := nofun

theorem Drained.of_services {busy : Option Frame} (hb : b.Drained busy)
    (hs : b'.services = b.services) : b'.Drained busy := fun n srv hn => hb n srv (hs ▸ hn)

theorem Drained.required {n t : Frame} {p : Option ServicePtr} (hb : b.Drained none)
    (h : Required b n t p b') : b'.Drained none := by
  intro m srv hm hbusy
  cases h with
  | unknown ht => exact hb m srv hm hbusy
  | same hs ht => exact hb m srv hm hbusy
  | @changed old ty hs hold ht =>
    simp only [changed, Function.update_apply] at hm
    split_ifs at hm
    · obtain rfl := Option.some.inj hm
      exact hb n old hs (Option.some_ne_none n).symm
    · exact hb m srv hm hbusy
  | created hs ht =>
    simp only [created, Function.update_apply] at hm
    split_ifs at hm
    · obtain rfl := Option.some.inj hm
      exact Or.inl rfl
    · exact hb m srv hm hbusy

theorem Drained.workerWaiting {w : Frame} {now : Int} {call : DispatchCall} (hw : b.WellFormed)
    (hb : b.Drained none) (h : b.workerWaiting w now = .ok (b', call)) :
    b'.Drained (call.service.map ServicePtr.name) := by
  obtain ⟨p, srv, -, hsrv, rfl, rfl⟩ := workerWaiting_eq_ok h
  intro m s hm hbusy
  obtain ⟨hname, -⟩ | hm := services_setService hm
  · have hkey := hw.keyed _ _ (deref_eq_ok.mp hsrv).1
    rw [(Service.sameObject_workerWaiting srv w).name, hkey] at hname
    exact absurd (congrArg some hname.symm) hbusy
  · exact hb m s hm (Option.some_ne_none m).symm

theorem Drained.workerDelete {w : Frame} {disconnect : Bool} (hb : b.Drained none)
    (h : b.workerDelete w disconnect = .ok b') : b'.Drained none := by
  obtain ⟨-, hs⟩ | ⟨p, srv, -, hsrv, hs⟩ := workerDelete_eq_ok h
  · exact hb.of_services hs
  · refine Drained.of_services (b := b.setService (srv.deleteWorker w)) ?_ hs
    intro m s hm hbusy
    obtain ⟨-, rfl⟩ | hm := services_setService hm
    · refine (hb _ _ (deref_eq_ok.mp hsrv).1 (Option.some_ne_none _).symm).imp_left fun hnil => ?_
      show srv.waiting.filter _ = []
      rw [hnil, List.filter_nil]
    · exact hb m s hm hbusy

theorem Drained.accepted {r : Received} {call : Option DispatchCall} (hw : b.WellFormed)
    (hb : b.Drained none) (h : Accepted b r b' call) :
    b'.Drained (call.bind fun c => c.service.map ServicePtr.name) := by
  have hweak : ∀ {c : Broker} {busy : Option Frame}, c.Drained none → c.Drained busy :=
    fun hc n srv hn _ => hc n srv hn (Option.some_ne_none n).symm
  cases h with
  | client hmsg hh hstep =>
    cases hstep with
    | dropped hn => exact hb
    | heartbeat hn clients => exact hb.of_services rfl
    | internal hn hbeat hreq h =>
      obtain ⟨client', rest, rfl⟩ := serviceInternal_eq_ok h
      exact (hb.required (required_of_serviceRequire hreq).2).of_services rfl
    | request hn hbeat hreq => exact hweak (hb.required (required_of_serviceRequire hreq).2)
  | @worker s e hd msg _ _ hmsg hh hstep =>
    have hw₀ := (keeps_workerRequire b (cstr s)).wf hw
    have hb₀ := hb.of_services (services_workerRequire b (cstr s))
    cases hstep with
    | reservedReady hc hr h => exact hb₀.workerDelete h
    | ready hc hr h =>
      obtain ⟨rfl, rfl, -⟩ | ⟨n, t, rest, p, b₁, c, -, -, hreq, hwait, rfl⟩ := workerReady_eq_ok h
      · exact hb₀
      · obtain ⟨-, hreq⟩ := required_of_serviceRequire hreq
        obtain ⟨hk, hp⟩ := hreq.keeps
        exact ((hb₀.required hreq).of_services rfl).workerWaiting
          ((keeps_setWorker fun _ => hp hw₀).wf (hk.wf hw₀)) hwait
    | reply hc h =>
      obtain ⟨client, rest, p, srv, c, -, -, -, hwait, rfl⟩ := workerReply_eq_ok h
      exact (hb₀.of_services rfl).workerWaiting
        ((keeps_sent _ (noRequest_clientFrames _ _ _)).wf hw₀) hwait
    | heartbeat hc h => exact hb₀.workerWaiting hw₀ h
    | disconnect hc h => exact hb₀.workerDelete h
    | invalid hc => exact hb₀
  | invalid hmsg hc hw' => exact hb

end Broker

theorem dispatchLoop_drained {expiry : Frame → Int} {reqs : List Zmsg} {clk : ℕ → Int}
    {srv last : Service} {sent : List Dispatch}
    (h : dispatchLoop expiry reqs clk srv = .ok (last, sent)) :
    last.waiting = [] ∨ last.requests = [] := by
  induction reqs generalizing clk srv last sent with
  | nil =>
    obtain ⟨rfl, rfl⟩ := by simpa [dispatchLoop] using h
    exact Or.inr rfl
  | cons msg rest ih =>
    obtain ⟨hnil, -, rfl⟩ | ⟨w, srv', later, -, -, -, hloop, -⟩ := dispatchLoop_cons_eq_ok h
    · exact Or.inl hnil
    · exact ih hloop

namespace Broker
variable {b b' : Broker}

theorem drained_step {r : Received} (hw : b.WellFormed) (hb : b.Drained none)
    (h : b.step r = some b') : b'.Drained none := by
  obtain ⟨b₁, call, hacc, hd⟩ := step_eq_some h
  have hb₁ := hb.accepted hw hacc
  cases call with
  | none => exact Except.ok.inj hd ▸ hb₁
  | some call =>
    obtain ⟨p, srv, last, sent, hp, hsrv, hloop, rfl⟩ := serviceDispatch_eq_ok hd
    have hkey := (hacc.keeps.wf hw).keyed _ _ (deref_eq_ok.mp hsrv).1
    intro m s hm _
    obtain ⟨-, rfl⟩ | hm' := services_setService (b := b₁) hm
    · exact dispatchLoop_drained hloop
    · by_cases hname : m = p.name
      · have hlast : s = last := by
          have hset : (b₁.setService last).services m = some last := by
            rw [hname, setService, (dispatchLoop_spec hloop).same.name, hkey]
            exact Function.update_self ..
          exact Option.some.inj (hm.symm.trans hset)
        exact hlast ▸ dispatchLoop_drained hloop
      · refine hb₁ m s hm' fun hbusy => hname ?_
        rw [Option.bind_some, hp] at hbusy
        exact (Option.some.inj hbusy).symm

/-! ## Sharing out -/

theorem serviceDispatch_eq (b : Broker) (p : ServicePtr) (msg : Option Zmsg) (clk : ℕ → Int) :
    b.serviceDispatch ⟨some p, msg⟩ clk = (do
      let srv ← b.deref p
      let (last, sent) ← srv.dispatch ⟨msg, b.expiry, clk⟩
      return (b.setService last).act
        (msg.toList.map (Action.queued srv.name) ++ sent.map Action.request)) := rfl

/-- In a broker reached by any messages, let the workers of a `ServiceDoNotWaitResponse` stay
those of its list, none of them expired, and let the position be in range. Then calls of
`service_dispatch` send on every request, up to one that ends the broker because it cannot be
sent, and at no time has a worker had two more of the REQUESTs than another. -/
theorem dispatched_evenly {rs : List Received} {b : Broker} {n : Frame} {srv : Service}
    (hb : Run.exec step initial rs = some b) (hs : b.services n = some srv)
    (ht : srv.type = serviceDoNotWaitResponse) (hne : srv.waiting ≠ []) (hin : srv.InRange)
    (calls : List ServiceCall)
    (halive : ∀ call ∈ calls, Service.Alive srv.waiting call.expiry call.clock) :
    ∃ last sent, srv.dispatchAll (calls.takeWhile fun call => call.Sendable) = .ok (last, sent) ∧
      last.waiting = srv.waiting ∧
      sent.map Dispatch.msg =
        (calls.takeWhile fun call => call.Sendable).flatMap (fun call => call.msg.toList) ∧
      (∀ call ∈ calls, ¬ call.Sendable → last.dispatch call = .error .assertion) ∧
      ∀ k, ∀ v ∈ srv.waiting, ∀ w ∈ srv.waiting,
        ((sent.take k).map Dispatch.worker).count v ≤
          ((sent.take k).map Dispatch.worker).count w + 1 := by
  have hstep : ∀ (b : Broker) r b', b.WellFormed ∧ b.Drained none → b.step r = some b' →
      b'.WellFormed ∧ b'.Drained none :=
    fun b r b' hb h => ⟨wellFormed_step hb.1 h, drained_step hb.1 hb.2 h⟩
  obtain ⟨hwf, hdrained⟩ := Run.exec_invariant hstep ⟨wellFormed_initial, drained_initial⟩ hb
  have hreq : srv.requests = [] := (hdrained n srv hs (Option.some_ne_none n).symm).resolve_left hne
  obtain ⟨last, sent, hcalls, hrot, hempty, hmsg⟩ := Service.dispatchAll_rotated
    (calls.takeWhile fun call => call.Sendable) ht hne hin hreq
    (fun call hcall => halive call ((List.takeWhile_sublist _).subset hcall))
    (fun call hcall => by simpa using List.mem_takeWhile_imp hcall)
  refine ⟨last, sent, hcalls, hrot.waiting, hmsg, fun call hcall hbad => ?_, fun k v hv w hw => ?_⟩
  · refine Service.dispatch_of_not_sendable (hrot.type.trans ht) (hrot.waiting ▸ hne) hrot.inRange
      hempty ?_ hbad
    rw [hrot.waiting]
    exact halive call hcall
  · have hround := hrot.round.take k
    rw [← List.map_take] at hround
    exact hround.count_le (hwf.nodup n srv hs) hv hw

theorem dispatched_evenly_ready :
    ∃ b srv last sent, Run.exec step initial
        [⟨[[119, 49], [], mdpwWorker, mdpwReady, [97], []], fun _ => 0⟩,
         ⟨[[119, 50], [], mdpwWorker, mdpwReady, [97], []], fun _ => 0⟩] = some b ∧
      b.services [97] = some srv ∧
      srv.dispatchAll [⟨some [[65]], b.expiry, fun _ => 0⟩, ⟨some [[66]], b.expiry, fun _ => 0⟩,
        ⟨some [[67]], b.expiry, fun _ => 0⟩] = .ok (last, sent) ∧
      sent.map Dispatch.msg = [[[65]], [[66]], [[67]]] ∧
      ∀ k, ∀ v ∈ srv.waiting, ∀ w ∈ srv.waiting,
        ((sent.take k).map Dispatch.worker).count v ≤
          ((sent.take k).map Dispatch.worker).count w + 1 := by
  have halive : ∀ b : Broker, (∀ w ∈ [[119, 49], [119, 50]], ¬ b.expiry w < 0) →
      ∀ call ∈ ([⟨some [[65]], b.expiry, fun _ => 0⟩, ⟨some [[66]], b.expiry, fun _ => 0⟩,
        ⟨some [[67]], b.expiry, fun _ => 0⟩] : List ServiceCall),
        Service.Alive [[119, 49], [119, 50]] call.expiry call.clock := by
    intro b hb call hcall w hw i
    simp only [List.mem_cons, List.not_mem_nil, or_false] at hcall
    obtain rfl | rfl | rfl := hcall <;> exact hb w hw
  obtain ⟨b, srv, hb, hs, ht, hw, hc, he⟩ : ∃ b srv, Run.exec step initial
        [⟨[[119, 49], [], mdpwWorker, mdpwReady, [97], []], fun _ => 0⟩,
         ⟨[[119, 50], [], mdpwWorker, mdpwReady, [97], []], fun _ => 0⟩] = some b ∧
      b.services [97] = some srv ∧ srv.type = serviceDoNotWaitResponse ∧
      srv.waiting = [[119, 49], [119, 50]] ∧ srv.cursor = some 0 ∧
      ∀ w ∈ srv.waiting, b.expiry w = workerExpiry :=
    ⟨_, _, rfl, rfl, rfl, rfl, rfl, by decide⟩
  rw [hw] at he
  have hexp : ∀ w ∈ [[119, 49], [119, 50]], ¬ b.expiry w < 0 := by
    intro w hmem
    rw [he w hmem]
    decide
  obtain ⟨last, sent, hcalls, -, hmsg, -, heven⟩ := dispatched_evenly hb hs ht
    (hw ▸ List.cons_ne_nil _ _) ⟨0, hc, Nat.zero_le _⟩ _ (hw ▸ halive b hexp)
  exact ⟨b, srv, last, sent, hb, hs, hcalls, hmsg, heven⟩

end Broker

end IceBridge.Router
