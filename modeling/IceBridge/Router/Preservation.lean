import IceBridge.Router.Broker
import Mathlib.Tactic.Common

/-! What the functions of the broker do when they do not fault, case by case, and what
they keep: the services stay well formed, and up to `service_dispatch` no request moves. -/

namespace IceBridge.Router
open ServiceType

theorem createService_eq_some {t n : Frame} {k : ℕ} {srv : Service} :
    createService t n k = some srv ↔
      ∃ ty : ServiceType, ty.text = t ∧ srv = ⟨n, k, ty, [], [], 0, false, 0, false⟩ := by
  have hne : serviceWaitResponse.text ≠ serviceDoNotWaitResponse.text := by decide
  constructor
  · intro h
    unfold createService at h
    split_ifs at h with h1 h2
    · exact ⟨_, h1.symm, (Option.some.inj h).symm⟩
    · exact ⟨_, h2.symm, (Option.some.inj h).symm⟩
  · rintro ⟨ty, rfl, rfl⟩
    cases ty
    · simp [createService]
    · simp [createService, hne.symm]

theorem createService_eq_none {t n : Frame} {k : ℕ} (h : createService t n k = none)
    (ty : ServiceType) : ty.text ≠ t := fun hty => by
  simp [createService_eq_some.mpr ⟨ty, hty, rfl⟩] at h

namespace Broker
variable {b b' : Broker}

theorem deref_eq_ok {p : ServicePtr} {srv : Service} :
    b.deref p = .ok srv ↔ b.services p.name = some srv ∧ srv.serial = p.serial := by
  unfold deref
  cases b.services p.name with
  | none => simp
  | some s =>
    simp only [Option.some.injEq]
    split_ifs with hs
    · simp only [Except.ok.injEq]
      exact ⟨fun h => ⟨h, h ▸ hs⟩, And.left⟩
    · simp only [false_iff, not_and]
      rintro rfl
      exact hs

/-! ## The outcomes of `service_require` -/

def changed (b : Broker) (old : Service) (ty : ServiceType) : Broker :=
  { b with
    services := Function.update b.services old.name
      (some ⟨old.name, b.nextSerial, ty, old.waiting, old.requests, 0, false, old.waiting.length,
        false⟩)
    workers := fun w => (b.workers w).map fun wrk =>
      if w ∈ old.waiting then { wrk with service := some ⟨old.name, b.nextSerial⟩ } else wrk
    nextSerial := b.nextSerial + 1 }

def created (b : Broker) (n : Frame) (ty : ServiceType) : Broker :=
  { b with
    services := Function.update b.services n (some ⟨n, b.nextSerial, ty, [], [], 0, false, 0, false⟩)
    nextSerial := b.nextSerial + 1 }

theorem services_changed (b : Broker) (old : Service) (ty : ServiceType) :
    (b.changed old ty).services old.name =
      some ⟨old.name, b.nextSerial, ty, old.waiting, old.requests, 0, false, old.waiting.length,
        false⟩ :=
  Function.update_self ..

theorem services_created (b : Broker) (n : Frame) (ty : ServiceType) :
    (b.created n ty).services n = some ⟨n, b.nextSerial, ty, [], [], 0, false, 0, false⟩ :=
  Function.update_self ..

inductive Required (b : Broker) (n t : Frame) : Option ServicePtr → Broker → Prop
  | unknown (ht : ∀ ty : ServiceType, ty.text ≠ t) : Required b n t none b
  | same {srv : Service} (h : b.services n = some srv) (ht : srv.type.text = t) :
      Required b n t (some srv.ptr) b
  | changed {old : Service} {ty : ServiceType} (h : b.services n = some old)
      (hold : old.type.text ≠ t) (ht : ty.text = t) :
      Required b n t (some ⟨old.name, b.nextSerial⟩) (b.changed old ty)
  | created {ty : ServiceType} (h : b.services n = none) (ht : ty.text = t) :
      Required b n t (some ⟨n, b.nextSerial⟩) (b.created n ty)

theorem required_of_serviceRequire {n t : Frame} {p : Option ServicePtr}
    (h : b.serviceRequire n t = .ok (p, b')) : n ≠ [] ∧ Required b n t p b' := by
  unfold serviceRequire at h
  split_ifs at h with hn
  refine ⟨hn, ?_⟩
  cases hs : b.services n with
  | some old =>
    simp only [hs] at h
    split_ifs at h with ht
    · obtain ⟨rfl, rfl⟩ := by simpa using h
      exact .same hs ht
    · unfold serviceChange at h
      cases hc : createService t old.name b.nextSerial with
      | none =>
        obtain ⟨rfl, rfl⟩ := by simpa [hc] using h
        exact .unknown (createService_eq_none hc)
      | some new =>
        obtain ⟨ty, hty, rfl⟩ := createService_eq_some.mp hc
        obtain ⟨rfl, rfl⟩ := by simpa [hc] using h
        have hcap : max 0 old.waiting.length = old.waiting.length := Nat.zero_max _
        unfold Service.copy
        dsimp only
        rw [hcap]
        exact @Required.changed b n t old ty hs ht hty
  | none =>
    simp only [hs] at h
    cases hc : createService t n b.nextSerial with
    | none =>
      obtain ⟨rfl, rfl⟩ := by simpa [hc] using h
      exact .unknown (createService_eq_none hc)
    | some new =>
      obtain ⟨ty, hty, rfl⟩ := createService_eq_some.mp hc
      obtain ⟨rfl, rfl⟩ := by simpa [hc] using h
      exact .created hs hty

/-! ## What every message keeps -/

structure WellFormed (b : Broker) : Prop where
  keyed : ∀ n srv, b.services n = some srv → srv.name = n
  fresh : ∀ n srv, b.services n = some srv → srv.serial < b.nextSerial
  linked : ∀ w p, b.link w = some p → p.serial < b.nextSerial
  nodup : ∀ n srv, b.services n = some srv → srv.waiting.Nodup

theorem wellFormed_initial : initial.WellFormed :=
  ⟨nofun, nofun, nofun, nofun⟩

def queue (b : Broker) (name : Frame) : List Zmsg := ((b.services name).map Service.requests).getD []

def NoRequest (frames : Zmsg) : Prop :=
  ∀ a e c rest, frames = a :: e :: mdpwWorker :: c :: rest → cstr c ≠ mdpwRequest

theorem noRequest_clientFrames (client service : Frame) (msg : Zmsg) :
    NoRequest (clientFrames client service msg) := by
  intro a e c rest h
  simp only [clientFrames, wrap, pushFront, List.cons.injEq] at h
  exact absurd h.2.2.1 (by decide)

theorem noRequest_disconnect (w : Frame) : NoRequest (workerFrames w mdpwDisconnect []) := by
  intro a e c rest h
  simp only [workerFrames, wrap, pushFront, List.cons.injEq] at h
  rw [← h.2.2.2.1]
  decide

structure Keeps (b b' : Broker) : Prop where
  wf : b.WellFormed → b'.WellFormed
  queue : b.WellFormed → ∀ n, b'.queue n = b.queue n
  log : ∃ frames : List Zmsg, b'.log = b.log ++ frames.map Action.sent ∧ ∀ f ∈ frames, NoRequest f

theorem Keeps.refl (b : Broker) : b.Keeps b := ⟨id, fun _ _ => rfl, ⟨[], by simp⟩⟩

theorem Keeps.trans {c : Broker} (h : b.Keeps b') (h' : b'.Keeps c) : b.Keeps c := by
  obtain ⟨f, hf, hno⟩ := h.log
  obtain ⟨f', hf', hno'⟩ := h'.log
  refine ⟨fun hw => h'.wf (h.wf hw), fun hw n => (h'.queue (h.wf hw) n).trans (h.queue hw n),
    f ++ f', by rw [hf', hf, List.map_append, List.append_assoc], fun g hg => ?_⟩
  obtain hg | hg := List.mem_append.mp hg
  exacts [hno g hg, hno' g hg]

theorem keeps_sent (b : Broker) {frames : Zmsg} (h : NoRequest frames) :
    b.Keeps (b.act [.sent frames]) :=
  ⟨fun h => ⟨h.keyed, h.fresh, h.linked, h.nodup⟩, fun _ _ => rfl, ⟨[frames], rfl, by simpa using h⟩⟩

theorem send_eq_ok {frames : Zmsg} :
    b.send frames = .ok b' ↔ Sendable frames ∧ b' = b.act [.sent frames] := by
  unfold send
  rw [bind_eq_ok]
  constructor
  · rintro ⟨f, hf, h⟩
    obtain ⟨hs, rfl⟩ := Router.send_eq_ok.mp hf
    exact ⟨hs, (Except.ok.inj h).symm⟩
  · rintro ⟨hs, rfl⟩
    exact ⟨frames, Router.send_eq_ok.mpr ⟨hs, rfl⟩, rfl⟩

theorem link_setWorker (b : Broker) (w v : Frame) (wrk : BrokerWorker) :
    (b.setWorker w wrk).link v = if v = w then wrk.service else b.link v := by
  simp only [link, setWorker, Function.update_apply]
  split_ifs <;> rfl

theorem keeps_setWorker {w : Frame} {wrk : BrokerWorker}
    (h : b.WellFormed → ∀ p ∈ wrk.service, p.serial < b.nextSerial) :
    b.Keeps (b.setWorker w wrk) := by
  refine ⟨fun hw => ⟨hw.keyed, hw.fresh, fun v p hp => ?_, hw.nodup⟩, fun _ _ => rfl, ⟨[], by
    simp [setWorker]⟩⟩
  rw [link_setWorker] at hp
  split_ifs at hp
  · exact h hw p hp
  · exact hw.linked v p hp

theorem services_setService {srv : Service} {n : Frame} {s : Service}
    (h : (b.setService srv).services n = some s) :
    (n = srv.name ∧ s = srv) ∨ b.services n = some s := by
  simp only [setService, Function.update_apply] at h
  split_ifs at h with hn
  exacts [Or.inl ⟨hn, (Option.some.inj h).symm⟩, Or.inr h]

section
variable {p : ServicePtr} {srv srv' : Service} (hp : b.deref p = .ok srv)
  (hsame : srv.SameObject srv')
include hsame

theorem queue_setService (n : Frame) :
    (b.setService srv').queue n = if n = srv.name then srv'.requests else b.queue n := by
  simp only [queue, setService, hsame.name, Function.update_apply]
  split_ifs <;> rfl

include hp

theorem wellFormed_setService (hw : b.WellFormed) (hnd : srv'.waiting.Nodup) :
    (b.setService srv').WellFormed := by
  obtain ⟨hs, -⟩ := deref_eq_ok.mp hp
  refine ⟨fun n s h => ?_, fun n s h => ?_, hw.linked, fun n s h => ?_⟩
  · obtain ⟨rfl, rfl⟩ | h := services_setService h
    exacts [rfl, hw.keyed n s h]
  · obtain ⟨-, rfl⟩ | h := services_setService h
    exacts [hsame.serial ▸ hw.fresh _ _ hs, hw.fresh n s h]
  · obtain ⟨-, rfl⟩ | h := services_setService h
    exacts [hnd, hw.nodup n s h]

theorem keeps_setService (hreq : srv'.requests = srv.requests)
    (hnd : srv.waiting.Nodup → srv'.waiting.Nodup) : b.Keeps (b.setService srv') := by
  obtain ⟨hs, -⟩ := deref_eq_ok.mp hp
  refine ⟨fun hw => wellFormed_setService hp hsame hw (hnd (hw.nodup _ _ hs)), fun hw n => ?_,
    ⟨[], by simp [setService]⟩⟩
  rw [queue_setService hsame, hreq]
  split_ifs with hn
  · rw [queue, hn, hw.keyed _ _ hs, hs]
    rfl
  · rfl

end

theorem workers_ne_none {w : Frame} {p : ServicePtr} (h : b.link w = some p) :
    b.workers w ≠ none := by
  intro hnone
  simp [link, hnone] at h

theorem link_changed (b : Broker) (old : Service) (ty : ServiceType) (w : Frame) :
    (b.changed old ty).link w =
      if w ∈ old.waiting ∧ b.workers w ≠ none then some ⟨old.name, b.nextSerial⟩ else b.link w := by
  simp only [link, changed]
  cases b.workers w with
  | none => simp
  | some wrk => by_cases hw : w ∈ old.waiting <;> simp [hw]

theorem keeps_changed {n : Frame} {old : Service} (h : b.services n = some old)
    (ty : ServiceType) : b.Keeps (b.changed old ty) := by
  refine ⟨fun hw => ⟨fun m s hm => ?_, fun m s hm => ?_, fun w p hp => ?_, fun m s hm => ?_⟩,
    fun hw m => ?_, ⟨[], by simp [changed]⟩⟩
  · simp only [changed, Function.update_apply] at hm
    split_ifs at hm with hmn
    · exact hmn ▸ (Option.some.inj hm) ▸ rfl
    · exact hw.keyed m s hm
  · simp only [changed, Function.update_apply] at hm
    split_ifs at hm
    · exact (Option.some.inj hm) ▸ Nat.lt_succ_self _
    · exact (hw.fresh m s hm).trans (Nat.lt_succ_self _)
  · rw [link_changed] at hp
    split_ifs at hp
    · exact (Option.some.inj hp) ▸ Nat.lt_succ_self _
    · exact (hw.linked w p hp).trans (Nat.lt_succ_self _)
  · simp only [changed, Function.update_apply] at hm
    split_ifs at hm
    · exact (Option.some.inj hm) ▸ hw.nodup n old h
    · exact hw.nodup m s hm
  · have hn : old.name = n := hw.keyed n old h
    simp only [queue, changed, hn, Function.update_apply]
    split_ifs with hmn
    · simp [hmn, h]
    · rfl

theorem keeps_created {n : Frame} (h : b.services n = none) (ty : ServiceType) :
    b.Keeps (b.created n ty) := by
  refine ⟨fun hw => ⟨fun m s hm => ?_, fun m s hm => ?_, fun w p hp => ?_, fun m s hm => ?_⟩,
    fun hw m => ?_, ⟨[], by simp [created]⟩⟩
  · simp only [created, Function.update_apply] at hm
    split_ifs at hm with hmn
    · exact hmn ▸ (Option.some.inj hm) ▸ rfl
    · exact hw.keyed m s hm
  · simp only [created, Function.update_apply] at hm
    split_ifs at hm
    · exact (Option.some.inj hm) ▸ Nat.lt_succ_self _
    · exact (hw.fresh m s hm).trans (Nat.lt_succ_self _)
  · exact (hw.linked w p hp).trans (Nat.lt_succ_self _)
  · simp only [created, Function.update_apply] at hm
    split_ifs at hm
    · exact (Option.some.inj hm) ▸ List.nodup_nil
    · exact hw.nodup m s hm
  · simp only [queue, created, Function.update_apply]
    split_ifs with hmn
    · simp [hmn, h]
    · rfl

theorem Required.keeps {n t : Frame} {p : Option ServicePtr} (h : Required b n t p b') :
    b.Keeps b' ∧ (b.WellFormed → ∀ q ∈ p, q.serial < b'.nextSerial) := by
  cases h with
  | unknown ht => exact ⟨.refl b, fun _ => by simp⟩
  | same hs ht => exact ⟨.refl b, fun hw q hq => Option.some.inj hq ▸ hw.fresh _ _ hs⟩
  | changed hs hold ht =>
    exact ⟨keeps_changed hs _, fun _ q hq => Option.some.inj hq ▸ Nat.lt_succ_self _⟩
  | created hs ht =>
    exact ⟨keeps_created hs _, fun _ q hq => Option.some.inj hq ▸ Nat.lt_succ_self _⟩

theorem keeps_workerRequire (b : Broker) (w : Frame) : b.Keeps (b.workerRequire w) := by
  unfold workerRequire
  split
  · exact .refl b
  · exact keeps_setWorker fun _ p hp => by cases hp

theorem keeps_workerDelete {w : Frame} {disconnect : Bool}
    (h : b.workerDelete w disconnect = .ok b') : b.Keeps b' := by
  unfold workerDelete at h
  have hsent : b.Keeps (if disconnect then b.act [.sent (workerFrames w mdpwDisconnect [])] else b) := by
    split_ifs
    exacts [keeps_sent b (noRequest_disconnect w), .refl b]
  refine hsent.trans ?_
  dsimp only at h
  split at h
  · obtain rfl := by simpa using h
    exact .refl _
  · rw [bind_eq_ok] at h
    obtain ⟨srv, hsrv, h⟩ := h
    obtain rfl := by simpa [pure, Except.pure] using h
    exact keeps_setService hsrv ⟨rfl, rfl, rfl⟩ rfl fun hnd => hnd.sublist (srv.deleteWorker_sublist w)

theorem workerWaiting_eq_ok {w : Frame} {now : Int} {call : DispatchCall}
    (h : b.workerWaiting w now = .ok (b', call)) :
    ∃ p srv, b.link w = some p ∧ b.deref p = .ok srv ∧ call = ⟨some p, none⟩ ∧
      b' = (b.setWorker w ⟨some p, now + workerExpiry⟩).setService (srv.workerWaiting w) := by
  unfold workerWaiting at h
  simp only [link_setWorker, if_true] at h
  cases hp : b.link w with
  | none => simp [hp] at h
  | some p =>
    simp only [hp] at h
    rw [bind_eq_ok] at h
    obtain ⟨srv, hsrv, h⟩ := h
    obtain ⟨rfl, rfl⟩ := by simpa [pure, Except.pure] using h
    exact ⟨p, srv, rfl, hsrv, rfl, rfl⟩

theorem Service.sameObject_workerWaiting (srv : Service) (w : Frame) :
    srv.SameObject (srv.workerWaiting w) := by
  unfold Service.workerWaiting Service.pushBack
  split_ifs
  exacts [⟨rfl, rfl, rfl⟩, ⟨rfl, rfl, rfl⟩, ⟨rfl, rfl, rfl⟩]

@[simp] theorem Service.requests_workerWaiting (srv : Service) (w : Frame) :
    (srv.workerWaiting w).requests = srv.requests := by
  unfold Service.workerWaiting Service.pushBack
  split_ifs <;> rfl

theorem keeps_workerWaiting {w : Frame} {now : Int} {call : DispatchCall}
    (h : b.workerWaiting w now = .ok (b', call)) : b.Keeps b' := by
  obtain ⟨p, srv, hp, hsrv, -, rfl⟩ := workerWaiting_eq_ok h
  have hset : b.Keeps (b.setWorker w ⟨some p, now + workerExpiry⟩) :=
    keeps_setWorker fun hw q hq => hw.linked w q (hp.trans hq)
  exact hset.trans <| keeps_setService (by exact hsrv) (Service.sameObject_workerWaiting srv w)
    (Service.requests_workerWaiting srv w) (Service.nodup_workerWaiting w)

def readyType (part : Frame) : Frame :=
  if cstr part ≠ [] then cstr part else serviceDoNotWaitResponse.text

theorem workerReady_eq_ok {w : Frame} {msg : Zmsg} {now : Int} {call : Option DispatchCall}
    (h : b.workerReady w msg now = .ok (b', call)) :
    (b' = b ∧ call = none ∧ ∃ part rest, msg = part :: rest ∧ cstr part = []) ∨
    ∃ n t rest p b₁ c, msg = n :: t :: rest ∧ cstr n ≠ [] ∧
      b.serviceRequire (cstr n) (readyType t) = .ok (p, b₁) ∧
      (b₁.setWorker w ⟨p, b₁.expiry w⟩).workerWaiting w now = .ok (b', c) ∧ call = some c := by
  unfold workerReady at h
  rw [bind_eq_ok] at h
  obtain ⟨⟨n', msg₁⟩, hn, h⟩ := h
  obtain ⟨n, rfl, rfl⟩ := popCstr_eq_ok.mp hn
  dsimp only at h
  split_ifs at h with hempty
  · obtain ⟨rfl, rfl⟩ := by simpa [pure, Except.pure] using h
    exact Or.inl ⟨rfl, rfl, n, msg₁, rfl, hempty⟩
  · rw [bind_eq_ok] at h
    obtain ⟨⟨t', rest⟩, ht, h⟩ := h
    obtain ⟨t, rfl, rfl⟩ := popCstr_eq_ok.mp ht
    rw [bind_eq_ok] at h
    obtain ⟨⟨p, b₁⟩, hreq, h⟩ := h
    rw [bind_eq_ok] at h
    obtain ⟨⟨b₂, c⟩, hwait, h⟩ := h
    obtain ⟨rfl, rfl⟩ := by simpa [pure, Except.pure] using h
    exact Or.inr ⟨n, t, rest, p, b₁, c, rfl, hempty, hreq, hwait, rfl⟩

theorem keeps_workerReady {w : Frame} {msg : Zmsg} {now : Int} {call : Option DispatchCall}
    (h : b.workerReady w msg now = .ok (b', call)) : b.Keeps b' := by
  obtain ⟨rfl, -⟩ | ⟨n, t, rest, p, b₁, c, -, -, hreq, hwait, -⟩ := workerReady_eq_ok h
  · exact .refl b'
  · obtain ⟨hk, hp⟩ := (required_of_serviceRequire hreq).2.keeps
    -- the pointer READY stores is the one `service_require` has just returned
    have hset : b.Keeps (b₁.setWorker w ⟨p, b₁.expiry w⟩) :=
      ⟨fun hw => (keeps_setWorker fun _ => hp hw).wf (hk.wf hw), hk.queue, hk.log⟩
    exact hset.trans (keeps_workerWaiting hwait)

theorem workerReply_eq_ok {w : Frame} {msg : Zmsg} {now : Int} {call : Option DispatchCall}
    (h : b.workerReply w msg now = .ok (b', call)) :
    ∃ client rest p srv c, unwrap msg = .ok (client, rest) ∧ b.link w = some p ∧
      b.deref p = .ok srv ∧
      (b.act [.sent (clientFrames client srv.name rest)]).workerWaiting w now =
        .ok (b', c) ∧ call = some c := by
  unfold workerReply at h
  rw [bind_eq_ok] at h
  obtain ⟨⟨client, rest⟩, hun, h⟩ := h
  cases hp : b.link w with
  | none => simp [hp] at h
  | some p =>
    simp only [hp] at h
    rw [bind_eq_ok] at h
    obtain ⟨srv, hsrv, h⟩ := h
    rw [bind_eq_ok] at h
    obtain ⟨b₁, hsend, h⟩ := h
    obtain ⟨-, rfl⟩ := send_eq_ok.mp hsend
    rw [bind_eq_ok] at h
    obtain ⟨⟨b₂, c⟩, hwait, h⟩ := h
    obtain ⟨rfl, rfl⟩ := by simpa [pure, Except.pure] using h
    exact ⟨client, rest, p, srv, c, hun, rfl, hsrv, hwait, rfl⟩

theorem keeps_workerReply {w : Frame} {msg : Zmsg} {now : Int} {call : Option DispatchCall}
    (h : b.workerReply w msg now = .ok (b', call)) : b.Keeps b' := by
  obtain ⟨client, rest, p, srv, c, -, -, -, hwait, -⟩ := workerReply_eq_ok h
  exact (keeps_sent b (noRequest_clientFrames _ _ _)).trans (keeps_workerWaiting hwait)

inductive WorkerStep (b : Broker) (w : Frame) (msg : Zmsg) (now : Int) :
    Broker → Option DispatchCall → Prop
  | reservedReady {b₁ : Broker} (hc : msg.head?.map cstr = some mdpwReady) (hr : reserved w = true)
      (h : b.workerDelete w false = .ok b₁) : WorkerStep b w msg now b₁ none
  | ready {b₁ : Broker} {call : Option DispatchCall} (hc : msg.head?.map cstr = some mdpwReady)
      (hr : reserved w = false) (h : b.workerReady w msg.tail now = .ok (b₁, call)) :
      WorkerStep b w msg now b₁ call
  | reply {b₁ : Broker} {call : Option DispatchCall} (hc : msg.head?.map cstr = some mdpwReply)
      (h : b.workerReply w msg.tail now = .ok (b₁, call)) : WorkerStep b w msg now b₁ call
  | heartbeat {b₁ : Broker} {call : DispatchCall} (hc : msg.head?.map cstr = some mdpwHeartbeat)
      (h : b.workerWaiting w now = .ok (b₁, call)) : WorkerStep b w msg now b₁ (some call)
  | disconnect {b₁ : Broker} (hc : msg.head?.map cstr = some mdpwHeartbeat ∧ b.link w = none ∨
        msg.head?.map cstr = some mdpwDisconnect)
      (h : b.workerDelete w true = .ok b₁) : WorkerStep b w msg now b₁ none
  | invalid (hc : ∀ command ∈ [mdpwReady, mdpwReply, mdpwHeartbeat, mdpwDisconnect],
        msg.head?.map cstr ≠ some command) : WorkerStep b w msg now b none

theorem workerStep_of_workerProcess {w : Frame} {msg : Zmsg} {now : Int}
    {call : Option DispatchCall} (h : b.workerProcess w msg now = .ok (b', call)) :
    WorkerStep (b.workerRequire w) w msg now b' call := by
  unfold workerProcess at h
  split at h
  · cases h
  rw [bind_eq_ok] at h
  obtain ⟨⟨command, rest⟩, hpop, h⟩ := h
  obtain ⟨part, rfl, rfl⟩ := popCstr_eq_ok.mp hpop
  dsimp only at h
  split at h
  · next hready =>
    split at h
    · next hres =>
      rw [bind_eq_ok] at h
      obtain ⟨b₁, hdel, h⟩ := h
      obtain ⟨rfl, rfl⟩ := by simpa [pure, Except.pure] using h
      exact .reservedReady (congrArg some hready) hres hdel
    · next hres => exact .ready (congrArg some hready) (by simpa using hres) h
  · next hready =>
    split at h
    · next hreply => exact .reply (congrArg some hreply) h
    split at h
    · next hreply hbeat =>
      split at h
      · rw [bind_eq_ok] at h
        obtain ⟨⟨b₁, c⟩, hwait, h⟩ := h
        obtain ⟨rfl, rfl⟩ := by simpa [pure, Except.pure] using h
        exact .heartbeat (congrArg some hbeat) hwait
      · next hlink =>
        rw [bind_eq_ok] at h
        obtain ⟨b₁, hdel, h⟩ := h
        obtain ⟨rfl, rfl⟩ := by simpa [pure, Except.pure] using h
        exact .disconnect (Or.inl ⟨congrArg some hbeat, hlink⟩) hdel
    split at h
    · next hdis =>
      rw [bind_eq_ok] at h
      obtain ⟨b₁, hdel, h⟩ := h
      obtain ⟨rfl, rfl⟩ := by simpa [pure, Except.pure] using h
      exact .disconnect (Or.inr (congrArg some hdis)) hdel
    · next hreply hbeat hdis =>
      obtain ⟨rfl, rfl⟩ := by simpa [pure, Except.pure] using h
      exact .invalid (by simp [hready, hreply, hbeat, hdis])

theorem WorkerStep.keeps {w : Frame} {msg : Zmsg} {now : Int} {call : Option DispatchCall}
    (h : WorkerStep b w msg now b' call) : b.Keeps b' := by
  cases h with
  | reservedReady hc hr h => exact keeps_workerDelete h
  | ready hc hr h => exact keeps_workerReady h
  | reply hc h => exact keeps_workerReply h
  | heartbeat hc h => exact keeps_workerWaiting h
  | disconnect hc h => exact keeps_workerDelete h
  | invalid hc => exact .refl b

inductive ClientStep (b : Broker) (client : Frame) (msg : Zmsg) :
    Broker → Option DispatchCall → Prop
  | dropped (hn : msg.head?.map cstr = some []) : ClientStep b client msg b none
  | heartbeat (hn : msg.head?.map cstr = some mdpwHeartbeat) (clients : List Frame) :
      ClientStep b client msg { b with clients := clients } none
  | internal {n : Frame} {p : Option ServicePtr} {b₁ b₂ : Broker}
      (hn : msg.head?.map cstr = some n) (hbeat : n ≠ mdpwHeartbeat)
      (hreq : b.serviceRequire n serviceDoNotWaitResponse.text = .ok (p, b₁))
      (h : b₁.serviceInternal n (wrap client [] msg.tail) = .ok b₂) (hres : reserved n = true) :
      ClientStep b client msg b₂ none
  | request {n : Frame} {p : Option ServicePtr} {b₁ : Broker}
      (hn : msg.head?.map cstr = some n) (hbeat : n ≠ mdpwHeartbeat)
      (hreq : b.serviceRequire n serviceDoNotWaitResponse.text = .ok (p, b₁))
      (hres : reserved n = false) :
      ClientStep b client msg b₁ (some ⟨p, some (wrap client [] msg.tail)⟩)

theorem clientStep_of_clientProcess {client : Frame} {msg : Zmsg} {call : Option DispatchCall}
    (h : b.clientProcess client msg = .ok (b', call)) : ClientStep b client msg b' call := by
  unfold clientProcess at h
  split at h
  · cases h
  rw [bind_eq_ok] at h
  obtain ⟨⟨n, rest⟩, hpop, h⟩ := h
  obtain ⟨part, rfl, rfl⟩ := popCstr_eq_ok.mp hpop
  dsimp only at h
  split at h
  · next hempty =>
    obtain ⟨rfl, rfl⟩ := by simpa [pure, Except.pure] using h
    exact .dropped (congrArg some hempty)
  split at h
  · next hbeat =>
    obtain ⟨rfl, rfl⟩ := by simpa [pure, Except.pure] using h
    exact .heartbeat (by exact congrArg some hbeat) _
  · next hbeat =>
    rw [bind_eq_ok] at h
    obtain ⟨⟨p, b₁⟩, hreq, h⟩ := h
    dsimp only at h
    split at h
    · next hres =>
      rw [bind_eq_ok] at h
      obtain ⟨b₂, hint, h⟩ := h
      obtain ⟨rfl, rfl⟩ := by simpa [pure, Except.pure] using h
      exact .internal rfl hbeat hreq hint hres
    · next hres =>
      obtain ⟨rfl, rfl⟩ := by simpa [pure, Except.pure] using h
      exact .request rfl hbeat hreq (by simpa using hres)

theorem serviceInternal_eq_ok {n : Frame} {msg : Zmsg} (h : b.serviceInternal n msg = .ok b') :
    ∃ client rest, b' = b.act [.sent (clientFrames client n rest)] := by
  unfold serviceInternal at h
  rw [bind_eq_ok] at h
  obtain ⟨msg', -, h⟩ := h
  rw [bind_eq_ok] at h
  obtain ⟨⟨client, rest⟩, -, h⟩ := h
  exact ⟨client, rest, (send_eq_ok.mp h).2⟩

theorem ClientStep.keeps {client : Frame} {msg : Zmsg} {call : Option DispatchCall}
    (h : ClientStep b client msg b' call) : b.Keeps b' := by
  cases h with
  | dropped hn => exact .refl b
  | heartbeat hn clients =>
    exact ⟨fun h => ⟨h.keyed, h.fresh, h.linked, h.nodup⟩, fun _ _ => rfl, ⟨[], by simp⟩⟩
  | internal hn hbeat hreq h =>
    obtain ⟨client', rest, rfl⟩ := serviceInternal_eq_ok h
    exact (required_of_serviceRequire hreq).2.keeps.1.trans
      (keeps_sent _ (noRequest_clientFrames _ _ _))
  | request hn hbeat hreq => exact (required_of_serviceRequire hreq).2.keeps.1

inductive Accepted (b : Broker) (r : Received) : Broker → Option DispatchCall → Prop
  | client {s e h : Frame} {msg : Zmsg} {b₁ : Broker} {call : Option DispatchCall}
      (hmsg : r.msg = s :: e :: h :: msg) (hh : cstr h = mdpcClient)
      (hstep : ClientStep b (cstr s) msg b₁ call) : Accepted b r b₁ call
  | worker {s e h : Frame} {msg : Zmsg} {b₁ : Broker} {call : Option DispatchCall}
      (hmsg : r.msg = s :: e :: h :: msg) (hh : cstr h = mdpwWorker)
      (hstep : WorkerStep (b.workerRequire (cstr s)) (cstr s) msg (r.clock 0) b₁ call) :
      Accepted b r b₁ call
  | invalid {s e h : Frame} {msg : Zmsg} (hmsg : r.msg = s :: e :: h :: msg)
      (hc : cstr h ≠ mdpcClient) (hw : cstr h ≠ mdpwWorker) : Accepted b r b none

theorem accepted_of_accept {r : Received} {call : Option DispatchCall}
    (h : b.accept r = .ok (b', call)) : Accepted b r b' call := by
  unfold accept at h
  rw [bind_eq_ok] at h
  obtain ⟨⟨sender, m₁⟩, h₁, h⟩ := h
  rw [bind_eq_ok] at h
  obtain ⟨⟨e, m₂⟩, h₂, h⟩ := h
  rw [bind_eq_ok] at h
  obtain ⟨⟨header, m₃⟩, h₃, h⟩ := h
  obtain ⟨s, hs, rfl⟩ := popCstr_eq_ok.mp h₁
  obtain rfl := popFront_eq_ok.mp h₂
  obtain ⟨hd, rfl, rfl⟩ := popCstr_eq_ok.mp h₃
  dsimp only at h
  split at h
  · next hc => exact .client hs hc (clientStep_of_clientProcess h)
  split at h
  · next hw => exact .worker hs hw (workerStep_of_workerProcess h)
  · next hc hw =>
    obtain ⟨rfl, rfl⟩ := by simpa [pure, Except.pure] using h
    exact .invalid hs hc hw

theorem Accepted.keeps {r : Received} {call : Option DispatchCall}
    (h : Accepted b r b' call) : b.Keeps b' := by
  cases h with
  | client hmsg hh hstep => exact hstep.keeps
  | worker hmsg hh hstep => exact (keeps_workerRequire b _).trans hstep.keeps
  | invalid hmsg hc hw => exact .refl b

theorem WorkerStep.call_msg {w : Frame} {msg : Zmsg} {now : Int} {call : DispatchCall}
    (h : WorkerStep b w msg now b' (some call)) : call.msg = none := by
  have hwait : ∀ {b₁ b₂ : Broker} {w : Frame} {now : Int},
      b₁.workerWaiting w now = .ok (b₂, call) → call.msg = none := by
    intro b₁ b₂ w now h
    obtain ⟨p, srv, -, -, rfl, -⟩ := workerWaiting_eq_ok h
    rfl
  cases h with
  | ready hc hr h =>
    obtain ⟨-, h, -⟩ | ⟨n, t, rest, p, b₂, c, -, -, -, h, hcall⟩ := workerReady_eq_ok h
    · cases h
    · exact hwait (Option.some.inj hcall ▸ h)
  | reply hc h =>
    obtain ⟨client, rest, p, srv, c, -, -, -, h, hcall⟩ := workerReply_eq_ok h
    exact hwait (Option.some.inj hcall ▸ h)
  | heartbeat hc h => exact hwait h

theorem Accepted.call_request {r : Received} {call : DispatchCall} {m : Zmsg}
    (h : Accepted b r b' (some call)) (hm : call.msg = some m) :
    ∃ s e header service body, r.msg = s :: e :: header :: service :: body ∧
      cstr header = mdpcClient ∧ cstr service ≠ mdpwHeartbeat ∧ m = wrap (cstr s) [] body ∧
      b.serviceRequire (cstr service) serviceDoNotWaitResponse.text = .ok (call.service, b') := by
  cases h with
  | @client s e hd msg _ _ hmsg hh hstep =>
    cases hstep with
    | request hn hbeat hreq =>
      obtain ⟨service, hservice, rfl⟩ := Option.map_eq_some_iff.mp hn
      obtain ⟨rest, rfl⟩ := List.head?_eq_some_iff.mp hservice
      exact ⟨s, e, hd, service, rest, hmsg, hh, hbeat, (Option.some.inj hm).symm, hreq⟩
  | worker hmsg hh hstep => exact absurd (hm.symm.trans hstep.call_msg) (Option.some_ne_none m)

theorem Accepted.call_msg {r : Received} {call : DispatchCall} {m : Zmsg}
    (h : Accepted b r b' (some call)) (hm : call.msg = some m) :
    ∃ s e header service body, r.msg = s :: e :: header :: service :: body ∧
      cstr header = mdpcClient ∧ cstr service ≠ mdpwHeartbeat ∧ m = wrap (cstr s) [] body := by
  obtain ⟨s, e, header, service, body, hmsg, hh, hbeat, hm, -⟩ := h.call_request hm
  exact ⟨s, e, header, service, body, hmsg, hh, hbeat, hm⟩

/-! ## Dispatching -/

theorem serviceDispatch_eq_ok {call : DispatchCall} {clk : ℕ → Int}
    (h : b.serviceDispatch call clk = .ok b') :
    ∃ p srv last sent, call.service = some p ∧ b.deref p = .ok srv ∧
      dispatchLoop b.expiry (srv.requests ++ call.msg.toList) clk srv = .ok (last, sent) ∧
      b' = (b.setService last).act
        (call.msg.toList.map (Action.queued srv.name) ++ sent.map Action.request) := by
  unfold serviceDispatch at h
  cases hp : call.service with
  | none => simp [hp] at h
  | some p =>
    simp only [hp] at h
    rw [bind_eq_ok] at h
    obtain ⟨srv, hsrv, h⟩ := h
    rw [bind_eq_ok] at h
    obtain ⟨⟨last, sent⟩, hloop, h⟩ := h
    exact ⟨p, srv, last, sent, rfl, hsrv, hloop, (Except.ok.inj h).symm⟩

theorem step_eq_some {r : Received} (h : b.step r = some b') :
    ∃ b₁ call, Accepted b r b₁ call ∧ b₁.dispatchPending call r = .ok b' := by
  unfold step recv at h
  cases hb : b.accept r with
  | error f => simp [hb, bind, Except.bind, Except.toOption] at h
  | ok res =>
    obtain ⟨b₁, call⟩ := res
    simp only [hb, bind, Except.bind] at h
    cases hd : b₁.dispatchPending call r with
    | error f => simp [hd, Except.toOption] at h
    | ok b₂ =>
      obtain rfl : b₂ = b' := by simpa [hd, Except.toOption] using h
      exact ⟨b₁, call, accepted_of_accept hb, hd⟩

theorem wellFormed_serviceDispatch {call : DispatchCall} {clk : ℕ → Int} (hw : b.WellFormed)
    (h : b.serviceDispatch call clk = .ok b') : b'.WellFormed := by
  obtain ⟨p, srv, last, sent, -, hp, hloop, rfl⟩ := serviceDispatch_eq_ok h
  obtain ⟨hs, -⟩ := deref_eq_ok.mp hp
  have hd := dispatchLoop_spec hloop
  have hwf := wellFormed_setService hp hd.same hw ((hw.nodup _ _ hs).sublist hd.waiting)
  exact ⟨hwf.keyed, hwf.fresh, hwf.linked, hwf.nodup⟩

theorem wellFormed_dispatchPending {call : Option DispatchCall} {r : Received} (hw : b.WellFormed)
    (h : b.dispatchPending call r = .ok b') : b'.WellFormed := by
  cases call with
  | none => exact Except.ok.inj h ▸ hw
  | some call => exact wellFormed_serviceDispatch hw h

theorem wellFormed_step {r : Received} (hw : b.WellFormed) (h : b.step r = some b') :
    b'.WellFormed := by
  obtain ⟨b₁, call, hacc, hd⟩ := step_eq_some h
  exact wellFormed_dispatchPending (hacc.keeps.wf hw) hd

end Broker

end IceBridge.Router
