import IceBridge.Router.Preservation

/-! Whether workers and services agree on who is attached to whom. A service that
changes its type is a new object, and only the workers waiting at that moment are
pointed to it; a worker that registers elsewhere stays in the list it was waiting in. -/

namespace IceBridge.Router
open ServiceType

namespace Broker
variable {b b' : Broker}

/-- Every `m_service` is null or a value of `m_services`, every waiting worker is attached
to the service it waits in, and waits there once. -/
structure Linked (b : Broker) : Prop where
  pointer : ∀ w p, b.link w = some p → ∃ n srv, b.services n = some srv ∧ srv.ptr = p
  waiting : ∀ n srv w, b.services n = some srv → w ∈ srv.waiting → b.link w = some srv.ptr
  nodup : ∀ n srv, b.services n = some srv → srv.waiting.Nodup

theorem linked_initial : initial.Linked := ⟨nofun, nofun, nofun⟩

/-- Requiring the service `n` with type `t` leaves no worker behind: if the service changes
its type, then every worker attached to it is waiting, `attached` apart, and `attached`
is not waiting in another service. -/
structure Harmless (b : Broker) (n t : Frame) (attached : Option Frame) : Prop where
  change : ∀ old v, b.services n = some old → old.type.text ≠ t → b.link v = some old.ptr →
    v ∈ old.waiting ∨ attached = some v
  elsewhere : ∀ m srv v, attached = some v → m ≠ n → b.services m = some srv → v ∉ srv.waiting

def readyOf : Zmsg → Option (Frame × Frame × Frame)
  | s :: _ :: h :: c :: n :: t :: _ =>
    if cstr h = mdpwWorker ∧ cstr c = mdpwReady ∧ reserved (cstr s) = false ∧ cstr n ≠ [] then
      some (cstr s, cstr n, readyType t)
    else none
  | _ => none

def clientOf : Zmsg → Option Frame
  | _ :: _ :: h :: n :: _ =>
    if cstr h = mdpcClient ∧ cstr n ≠ [] ∧ cstr n ≠ mdpwHeartbeat then some (cstr n) else none
  | _ => none

/-- The message leaves no worker behind. A request asks for the default type, whatever the
type of the service is. -/
def KeepsPointers (b : Broker) (r : Received) : Prop :=
  (∀ w n t, readyOf r.msg = some (w, n, t) → b.Harmless n t (some w)) ∧
    ∀ n, clientOf r.msg = some n → b.Harmless n serviceDoNotWaitResponse.text none

/-! ## What happens after the service is found -/

structure Settles (n : Frame) (b b' : Broker) : Prop where
  link : ∀ v, b'.link v = b.link v
  ptr : ∀ m, (b'.services m).map Service.ptr = (b.services m).map Service.ptr
  gains : ∀ m srv', b'.services m = some srv' → ∀ v ∈ srv'.waiting,
    b'.link v = some srv'.ptr ∨ ∃ srv, b.services m = some srv ∧ v ∈ srv.waiting
  loses : ∀ m srv v, m ≠ n → b.services m = some srv → v ∈ srv.waiting →
    ∃ srv', b'.services m = some srv' ∧ v ∈ srv'.waiting

theorem settles_of_eq {n : Frame} (hs : b'.services = b.services) (hl : ∀ v, b'.link v = b.link v) :
    Settles n b b' := by
  refine ⟨hl, fun m => by rw [hs], fun m srv' hm v hv => Or.inr ⟨srv', hs ▸ hm, hv⟩,
    fun m srv v _ hm hv => ⟨srv, hs ▸ hm, hv⟩⟩

theorem Settles.trans {n : Frame} {c : Broker} (h : Settles n b b') (h' : Settles n b' c) :
    Settles n b c := by
  refine ⟨fun v => (h'.link v).trans (h.link v), fun m => (h'.ptr m).trans (h.ptr m),
    fun m srv' hm v hv => ?_, fun m srv v hmn hm hv => ?_⟩
  · obtain hl | ⟨srv₁, hm₁, hv₁⟩ := h'.gains m srv' hm v hv
    · exact Or.inl hl
    · have hptr : srv'.ptr = srv₁.ptr := by simpa [hm, hm₁] using h'.ptr m
      rw [h'.link, hptr]
      exact h.gains m srv₁ hm₁ v hv₁
  · obtain ⟨srv₁, hm₁, hv₁⟩ := h.loses m srv v hmn hm hv
    exact h'.loses m srv₁ v hmn hm₁ hv₁

theorem settles_setService {p : ServicePtr} {srv srv' : Service} (hw : b.WellFormed)
    (hp : b.deref p = .ok srv) (hsame : srv.SameObject srv')
    (hgain : ∀ v ∈ srv'.waiting, v ∈ srv.waiting ∨ b.link v = some srv.ptr) :
    Settles p.name b (b.setService srv') := by
  obtain ⟨hs, -⟩ := deref_eq_ok.mp hp
  have hname : srv'.name = p.name := hsame.name.trans (hw.keyed _ _ hs)
  have hptr : srv'.ptr = srv.ptr := by simp [Service.ptr, hsame.name, hsame.serial]
  have hat : (b.setService srv').services = Function.update b.services p.name (some srv') := by
    rw [setService, hname]
  refine ⟨fun _ => rfl, fun m => ?_, fun m s hm v hv => ?_, fun m s v hmn hm hv => ⟨s, ?_, hv⟩⟩
  · rw [hat, Function.update_apply]
    split_ifs with hm
    · rw [hm, hs, Option.map_some, Option.map_some, hptr]
    · rfl
  · rw [hat, Function.update_apply] at hm
    split_ifs at hm with hmn
    · obtain rfl := Option.some.inj hm
      obtain hv | hl := hgain v hv
      exacts [Or.inr ⟨srv, hmn ▸ hs, hv⟩, Or.inl (hptr ▸ hl)]
    · exact Or.inr ⟨s, hm, hv⟩
  · rw [hat, Function.update_of_ne hmn, hm]

theorem settles_workerWaiting {w : Frame} {now : Int} {call : DispatchCall} (hw : b.WellFormed)
    (h : b.workerWaiting w now = .ok (b', call)) :
    ∃ p, b.link w = some p ∧ call = ⟨some p, none⟩ ∧ Settles p.name b b' := by
  obtain ⟨p, srv, hp, hsrv, hcall, rfl⟩ := workerWaiting_eq_ok h
  have hlink : ∀ v, (b.setWorker w ⟨some p, now + workerExpiry⟩).link v = b.link v := by
    intro v
    rw [link_setWorker]
    split_ifs with hv
    exacts [hv ▸ hp.symm, rfl]
  have hwf : (b.setWorker w ⟨some p, now + workerExpiry⟩).WellFormed :=
    (keeps_setWorker fun hw q hq => hw.linked w q (hp.trans hq)).wf hw
  have hptr : srv.ptr = p := by
    obtain ⟨hs, hser⟩ := deref_eq_ok.mp hsrv
    rw [Service.ptr, hw.keyed _ _ hs, hser]
  have hset : Settles p.name b (b.setWorker w ⟨some p, now + workerExpiry⟩) :=
    settles_of_eq rfl hlink
  refine ⟨p, hp, hcall, hset.trans <|
    settles_setService hwf hsrv (Service.sameObject_workerWaiting srv w) fun v hv => ?_⟩
  obtain hv | rfl := Service.mem_workerWaiting.mp hv
  · exact Or.inl hv
  · rw [hlink, hp, hptr]
    exact Or.inr rfl

theorem settles_dispatchPending {n : Frame} {call : Option DispatchCall} {r : Received}
    (hw : b.WellFormed) (hcall : ∀ c ∈ call, ∀ p ∈ c.service, p.name = n)
    (h : b.dispatchPending call r = .ok b') : Settles n b b' := by
  cases call with
  | none => exact Except.ok.inj h ▸ settles_of_eq rfl fun _ => rfl
  | some c =>
    obtain ⟨p, srv, last, sent, hc, hp, hloop, rfl⟩ := serviceDispatch_eq_ok h
    have hd := dispatchLoop_spec hloop
    have hset := settles_setService hw hp hd.same fun v hv => Or.inl (hd.waiting.subset hv)
    rw [hcall c rfl p hc] at hset
    exact hset.trans (settles_of_eq rfl fun _ => rfl)

theorem settles_workerDelete {w : Frame} {disconnect : Bool} (hw : b.WellFormed)
    (h : b.workerDelete w disconnect = .ok b') : ∃ n, Settles n b b' := by
  unfold workerDelete at h
  have hsent : ∀ n, Settles n b
      (if disconnect then b.act [.sent (workerFrames w mdpwDisconnect [])] else b) := by
    intro n
    split_ifs
    exacts [settles_of_eq rfl fun _ => rfl, settles_of_eq rfl fun _ => rfl]
  have hwf : (if disconnect then b.act [.sent (workerFrames w mdpwDisconnect [])] else b).WellFormed := by
    split_ifs
    exacts [(keeps_sent b (noRequest_disconnect w)).wf hw, hw]
  dsimp only at h
  split at h
  · exact ⟨[], Except.ok.inj h ▸ hsent []⟩
  · next p hp =>
    rw [bind_eq_ok] at h
    obtain ⟨srv, hsrv, h⟩ := h
    have hsame : srv.SameObject (srv.deleteWorker w) := ⟨rfl, rfl, rfl⟩
    have hset := settles_setService hwf hsrv hsame fun v hv =>
      Or.inl ((srv.deleteWorker_sublist w).subset hv)
    exact ⟨p.name, Except.ok.inj h ▸ (hsent p.name).trans hset⟩

theorem Linked.of_settles {n : Frame} (hb : b.Linked) (h : Settles n b b') (hw : b'.WellFormed) :
    b'.Linked := by
  refine ⟨fun w p hp => ?_, fun m srv' w hm hv => ?_, hw.nodup⟩
  · obtain ⟨m, srv, hm, rfl⟩ := hb.pointer w p (h.link w ▸ hp)
    have hptr := h.ptr m
    rw [hm, Option.map_some] at hptr
    obtain ⟨srv', hm', hp'⟩ := Option.map_eq_some_iff.mp hptr
    exact ⟨m, srv', hm', hp'⟩
  · obtain hl | ⟨srv, hm₁, hv₁⟩ := h.gains m srv' hm w hv
    · exact hl
    · have hptr : srv'.ptr = srv.ptr := by simpa [hm, hm₁] using h.ptr m
      rw [h.link, hptr]
      exact hb.waiting m srv w hm₁ hv₁

/-! ## Requiring a service -/

section
variable {n t : Frame} {p : ServicePtr} {b₁ b₂ b₃ : Broker} {attached : Option Frame}

theorem Required.services (hw : b.WellFormed) (h : Required b n t (some p) b₁) :
    p.name = n ∧ (∃ srv, b₁.services n = some srv ∧ srv.ptr = p) ∧
      ∀ m, m ≠ n → b₁.services m = b.services m := by
  cases h with
  | same hs ht =>
    have hname := hw.keyed _ _ hs
    exact ⟨hname, ⟨_, hs, rfl⟩, fun _ _ => rfl⟩
  | changed hs hold ht =>
    obtain rfl := hw.keyed _ _ hs
    exact ⟨rfl, ⟨_, services_changed .., rfl⟩, fun m hm => Function.update_of_ne hm _ _⟩
  | created hs ht =>
    exact ⟨rfl, ⟨_, services_created .., rfl⟩, fun m hm => Function.update_of_ne hm _ _⟩

theorem Required.waiting (hw : b.WellFormed) (hb : b.Linked) (h : Required b n t (some p) b₁)
    {srv : Service} (hs : b₁.services n = some srv) {v : Frame} (hv : v ∈ srv.waiting) :
    b₁.link v = some p ∧ srv.ptr = p := by
  cases h with
  | same hs' ht =>
    obtain rfl : _ = srv := Option.some.inj (hs'.symm.trans hs)
    exact ⟨hb.waiting n _ v hs hv, rfl⟩
  | changed hs' hold ht =>
    obtain rfl := hw.keyed _ _ hs'
    obtain rfl := Option.some.inj ((services_changed ..).symm.trans hs)
    rw [link_changed, if_pos ⟨hv, workers_ne_none (hb.waiting _ _ v hs' hv)⟩]
    exact ⟨rfl, rfl⟩
  | created hs' ht =>
    obtain rfl := Option.some.inj ((services_created ..).symm.trans hs)
    cases hv

theorem Required.link (h : Required b n t (some p) b₁) (v : Frame) :
    b₁.link v = b.link v ∨
      ∃ old, b.services n = some old ∧ v ∈ old.waiting ∧ b₁.link v = some p := by
  cases h with
  | same hs ht => exact Or.inl rfl
  | changed hs hold ht =>
    rw [link_changed]
    split_ifs with hv
    exacts [Or.inr ⟨_, hs, hv.1, rfl⟩, Or.inl rfl]
  | created hs ht => exact Or.inl rfl

variable (hw : b.WellFormed) (hreq : Required b n t (some p) b₁)
  (hs : b₂.services = b₁.services)
  (hl : ∀ v, b₂.link v = if attached = some v then some p else b₁.link v)
include hw hreq hs hl

theorem Linked.attach (hb : b.Linked) (h : b.Harmless n t attached) (hw₂ : b₂.WellFormed) : b₂.Linked := by
  obtain ⟨hpn, ⟨srv, hsrv, hptr⟩, hother⟩ := hreq.services hw
  refine ⟨fun v q hq => ?_, fun m s v hm hv => ?_, hw₂.nodup⟩
  · rw [hl] at hq
    split_ifs at hq with hatt
    · exact ⟨n, srv, hs ▸ hsrv, hptr.trans (Option.some.inj hq)⟩
    obtain hkeep | ⟨old, -, -, hnew⟩ := hreq.link v
    · have hbv : b.link v = some q := hkeep.symm.trans hq
      obtain ⟨m, s, hm, rfl⟩ := hb.pointer v q hbv
      by_cases hmn : m = n
      · subst hmn
        cases hreq with
        | same hs' ht => exact ⟨m, s, hs ▸ hm, rfl⟩
        | changed hs' hold ht =>
          obtain rfl := Option.some.inj (hm.symm.trans hs')
          -- an attached worker was waiting, so it has been re-pointed
          have hv := (h.change _ v hm hold hbv).resolve_right hatt
          rw [link_changed, if_pos ⟨hv, workers_ne_none hbv⟩] at hq
          exact ⟨m, srv, hs ▸ hsrv, hptr.trans (Option.some.inj hq)⟩
        | created hs' ht => exact absurd (hm.symm.trans hs') (by simp)
      · exact ⟨m, s, hs ▸ (hother m hmn).trans hm, rfl⟩
    · exact ⟨n, srv, hs ▸ hsrv, hptr.trans (Option.some.inj (hnew.symm.trans hq))⟩
  · rw [hs] at hm
    by_cases hmn : m = n
    · subst hmn
      obtain ⟨hlink, hp⟩ := hreq.waiting hw hb hm hv
      rw [hl, hp]
      split_ifs
      exacts [rfl, hlink]
    · rw [hother m hmn] at hm
      have hlink := hb.waiting m s v hm hv
      have hatt : attached ≠ some v := fun ha => h.elsewhere m s v ha hmn hm hv
      rw [hl, if_neg hatt]
      obtain hkeep | ⟨old, hold, hvold, -⟩ := hreq.link v
      · exact hkeep.trans hlink
      · -- a worker waiting in both lists would be attached to both services
        have hsame := Option.some.inj (hlink.symm.trans (hb.waiting n old v hold hvold))
        have hname := congrArg ServicePtr.name hsame
        exact absurd ((hw.keyed m s hm).symm.trans (hname.trans (hw.keyed n old hold))) hmn

theorem Linked.harmless (hset : Settles n b₂ b₃) (h₃ : b₃.Linked) : b.Harmless n t attached := by
  obtain ⟨hpn, ⟨srv, hsrv, hptr⟩, hother⟩ := hreq.services hw
  refine ⟨fun old v hold htype hv => ?_, fun m s v hatt hmn hm hv => ?_⟩
  · by_contra hcon
    obtain ⟨hnw, hatt⟩ := not_or.mp hcon
    have hlink : b₃.link v = some old.ptr := by
      rw [hset.link, hl, if_neg hatt]
      obtain hkeep | ⟨old', hold', hv', -⟩ := hreq.link v
      · exact hkeep.trans hv
      · exact absurd (Option.some.inj (hold.symm.trans hold') ▸ hv') hnw
    -- the service now has a new address, so the old pointer dangles
    obtain ⟨m, s, hm, hsptr⟩ := h₃.pointer v old.ptr hlink
    have hm₂ := hset.ptr m
    rw [hm, Option.map_some, hs] at hm₂
    obtain ⟨s₁, hs₁, hs₁ptr⟩ := Option.map_eq_some_iff.mp hm₂.symm
    have hkey : s₁.name = m := ((hreq.keeps.1.wf hw).keyed m s₁ hs₁)
    have hp₁ : s₁.ptr = old.ptr := hs₁ptr.trans hsptr
    have hmn : m = n := by
      rw [← hkey, ← hw.keyed n old hold]
      exact congrArg ServicePtr.name hp₁
    subst hmn
    cases hreq with
    | same hs' ht => exact htype (Option.some.inj (hold.symm.trans hs') ▸ ht)
    | changed hs' hold' ht =>
      obtain rfl := Option.some.inj (hsrv.symm.trans hs₁)
      have hser := congrArg ServicePtr.serial (hptr.symm.trans hp₁)
      exact absurd hser (hw.fresh _ old hold).ne'
    | created hs' ht => exact absurd (hold.symm.trans hs') (by simp)
  · have hm₂ : b₂.services m = some s := by rw [hs, hother m hmn, hm]
    obtain ⟨s₃, hm₃, hv₃⟩ := hset.loses m s v hmn hm₂ hv
    have hlink := h₃.waiting m s₃ v hm₃ hv₃
    rw [hset.link, hl, if_pos hatt] at hlink
    have hptr₃ : s₃.ptr = s.ptr := by simpa [hm₃, hm₂] using hset.ptr m
    have hname := congrArg ServicePtr.name ((Option.some.inj hlink).trans hptr₃)
    exact hmn ((hw.keyed m s hm).symm.trans (hname.symm.trans hpn))

theorem linked_require_iff (hb : b.Linked) (hset : Settles n b₂ b₃) (hw₂ : b₂.WellFormed)
    (hw₃ : b₃.WellFormed) : b₃.Linked ↔ b.Harmless n t attached :=
  ⟨Linked.harmless hw hreq hs hl hset,
    fun h => (Linked.attach hw hreq hs hl hb h hw₂).of_settles hset hw₃⟩

end

/-! ## One message -/

theorem readyOf_eq_some {m : Zmsg} {w n t : Frame} (h : readyOf m = some (w, n, t)) :
    ∃ s e hd c n' t' rest, m = s :: e :: hd :: c :: n' :: t' :: rest ∧ cstr hd = mdpwWorker ∧
      cstr c = mdpwReady ∧ reserved (cstr s) = false ∧ cstr n' ≠ [] := by
  unfold readyOf at h
  split at h
  · next s e hd c n' t' rest =>
    split_ifs at h with hc
    exact ⟨s, e, hd, c, n', t', rest, rfl, hc⟩
  · cases h

theorem services_workerRequire (b : Broker) (w : Frame) :
    (b.workerRequire w).services = b.services := by
  unfold workerRequire
  split <;> rfl

theorem link_workerRequire (b : Broker) (w v : Frame) : (b.workerRequire w).link v = b.link v := by
  unfold workerRequire
  split
  · rfl
  · next hw =>
    rw [link_setWorker]
    split_ifs with hv
    · simp [hv, link, hw]
    · rfl

theorem harmless_congr {n t : Frame} {attached : Option Frame} (hs : b'.services = b.services)
    (hl : ∀ v, b'.link v = b.link v) : b'.Harmless n t attached ↔ b.Harmless n t attached := by
  constructor
  · intro h
    exact ⟨fun old v ho ht hv => h.change old v (hs ▸ ho) ht ((hl v).trans hv),
      fun m srv v ha hm hmn => h.elsewhere m srv v ha hm (hs ▸ hmn)⟩
  · intro h
    exact ⟨fun old v ho ht hv => h.change old v (hs ▸ ho) ht ((hl v).symm.trans hv),
      fun m srv v ha hm hmn => h.elsewhere m srv v ha hm (hs ▸ hmn)⟩

theorem Required.exists_ptr {n : Frame} {p : Option ServicePtr} {ty : ServiceType}
    (h : Required b n ty.text p b') : ∃ q, p = some q := by
  cases h with
  | unknown ht => exact absurd rfl (ht ty)
  | same hs ht => exact ⟨_, rfl⟩
  | changed hs hold ht => exact ⟨_, rfl⟩
  | created hs ht => exact ⟨_, rfl⟩

theorem keepsPointers_iff_client {r : Received} {n : Frame} (hr : readyOf r.msg = none)
    (hc : clientOf r.msg = some n) :
    b.KeepsPointers r ↔ b.Harmless n serviceDoNotWaitResponse.text none := by
  simp [KeepsPointers, hr, hc]

theorem keepsPointers_iff_ready {r : Received} {w n t : Frame}
    (hr : readyOf r.msg = some (w, n, t)) (hc : clientOf r.msg = none) :
    b.KeepsPointers r ↔ b.Harmless n t (some w) := by
  simp [KeepsPointers, hr, hc]

theorem keepsPointers_of_none {r : Received} (hr : readyOf r.msg = none)
    (hc : clientOf r.msg = none) : b.KeepsPointers r := by
  simp [KeepsPointers, hr, hc]

theorem clientOf_client {r : Received} {s e hd n : Frame} {msg : Zmsg}
    (hmsg : r.msg = s :: e :: hd :: msg) (hh : cstr hd = mdpcClient)
    (hn : msg.head?.map cstr = some n) :
    clientOf r.msg = if n ≠ [] ∧ n ≠ mdpwHeartbeat then some n else none := by
  cases msg with
  | nil => simp at hn
  | cons part rest =>
    obtain rfl : cstr part = n := by simpa using hn
    simp [hmsg, clientOf, hh]

theorem clientOf_worker {r : Received} {s e hd : Frame} {msg : Zmsg}
    (hmsg : r.msg = s :: e :: hd :: msg) (hh : cstr hd ≠ mdpcClient) : clientOf r.msg = none := by
  cases msg with
  | nil => rw [hmsg]; rfl
  | cons part rest => simp [hmsg, clientOf, hh]

theorem readyOf_other {r : Received} {s e hd : Frame} {msg : Zmsg}
    (hmsg : r.msg = s :: e :: hd :: msg)
    (h : cstr hd ≠ mdpwWorker ∨ msg.head?.map cstr ≠ some mdpwReady ∨ reserved (cstr s) = true ∨
      ∃ c n rest, msg = c :: n :: rest ∧ cstr n = []) : readyOf r.msg = none := by
  by_contra hne
  obtain ⟨⟨w, n, t⟩, hr⟩ := Option.ne_none_iff_exists'.mp hne
  obtain ⟨s', e', hd', c, n', t', rest, hm, hh, hc, hres, hn⟩ := readyOf_eq_some hr
  obtain ⟨rfl, rfl, rfl, rfl⟩ := by simpa using hmsg.symm.trans hm
  obtain h | h | h | ⟨c₁, n₁, rest₁, h, hempty⟩ := h
  · exact h hh
  · exact h (by simpa using hc)
  · exact absurd (h.symm.trans hres) (by simp)
  · obtain ⟨-, rfl, -⟩ := by simpa using h
    exact hn hempty

theorem linked_client_iff {r : Received} {s e hd : Frame} {msg : Zmsg} {b₁ : Broker}
    {call : Option DispatchCall} (hw : b.WellFormed) (hb : b.Linked)
    (hmsg : r.msg = s :: e :: hd :: msg) (hh : cstr hd = mdpcClient)
    (hstep : ClientStep b (cstr s) msg b₁ call) (hd' : b₁.dispatchPending call r = .ok b') :
    b'.Linked ↔ b.KeepsPointers r := by
  have hw₁ : b₁.WellFormed := hstep.keeps.wf hw
  have hw' : b'.WellFormed := wellFormed_dispatchPending hw₁ hd'
  have hready : readyOf r.msg = none :=
    readyOf_other hmsg (Or.inl (by rw [hh]; decide))
  cases hstep with
  | dropped hn =>
    obtain rfl := Except.ok.inj hd'
    have hnone : clientOf r.msg = none := by simp [clientOf_client hmsg hh hn]
    exact iff_of_true hb (keepsPointers_of_none hready hnone)
  | heartbeat hn clients =>
    obtain rfl := Except.ok.inj hd'
    have hnone : clientOf r.msg = none := by simp [clientOf_client hmsg hh hn]
    exact iff_of_true ⟨hb.pointer, hb.waiting, hb.nodup⟩ (keepsPointers_of_none hready hnone)
  | internal hn hbeat hreq h =>
    obtain rfl := Except.ok.inj hd'
    obtain ⟨hempty, hreq⟩ := required_of_serviceRequire hreq
    obtain ⟨q, rfl⟩ := hreq.exists_ptr
    obtain ⟨client, rest, rfl⟩ := serviceInternal_eq_ok h
    rw [keepsPointers_iff_client hready
      ((clientOf_client hmsg hh hn).trans (if_pos ⟨hempty, hbeat⟩))]
    exact linked_require_iff hw hreq rfl (fun _ => rfl) hb (settles_of_eq rfl fun _ => rfl)
      (hreq.keeps.1.wf hw) hw'
  | request hn hbeat hreq =>
    obtain ⟨hempty, hreq⟩ := required_of_serviceRequire hreq
    obtain ⟨q, rfl⟩ := hreq.exists_ptr
    rw [keepsPointers_iff_client hready
      ((clientOf_client hmsg hh hn).trans (if_pos ⟨hempty, hbeat⟩))]
    refine linked_require_iff hw hreq rfl (fun _ => rfl) hb
      (settles_dispatchPending hw₁ ?_ hd') hw₁ hw'
    intro c hc p hp
    obtain rfl := Option.some.inj hc
    obtain rfl := Option.some.inj hp
    exact (hreq.services hw).1

theorem settles_waiting {w : Frame} {now : Int} {c : DispatchCall} {b₁ : Broker} {r : Received}
    (hw : b.WellFormed) (hwait : b.workerWaiting w now = .ok (b₁, c))
    (h : b₁.dispatchPending (some c) r = .ok b') :
    ∃ p, b.link w = some p ∧ Settles p.name b b' := by
  obtain ⟨p, hp, rfl, hset⟩ := settles_workerWaiting hw hwait
  refine ⟨p, hp, hset.trans (settles_dispatchPending ((keeps_workerWaiting hwait).wf hw) ?_ h)⟩
  intro c hc q hq
  obtain rfl := Option.some.inj hc
  obtain rfl := Option.some.inj hq
  rfl

theorem linked_worker_iff {r : Received} {s e hd : Frame} {msg : Zmsg} {b₁ : Broker}
    {call : Option DispatchCall} (hw : b.WellFormed) (hb : b.Linked)
    (hmsg : r.msg = s :: e :: hd :: msg) (hh : cstr hd = mdpwWorker)
    (hstep : WorkerStep (b.workerRequire (cstr s)) (cstr s) msg (r.clock 0) b₁ call)
    (hd' : b₁.dispatchPending call r = .ok b') : b'.Linked ↔ b.KeepsPointers r := by
  have hclient : clientOf r.msg = none := clientOf_worker hmsg (by rw [hh]; decide)
  have hs₀ := services_workerRequire b (cstr s)
  have hl₀ := link_workerRequire b (cstr s)
  have hw₀ : (b.workerRequire (cstr s)).WellFormed := (keeps_workerRequire b _).wf hw
  have hb₀ : (b.workerRequire (cstr s)).Linked := hb.of_settles (settles_of_eq (n := []) hs₀ hl₀) hw₀
  have hw₁ : b₁.WellFormed := hstep.keeps.wf hw₀
  have hw' : b'.WellFormed := wellFormed_dispatchPending hw₁ hd'
  cases hstep with
  | reservedReady hc hr h =>
    obtain rfl := Except.ok.inj hd'
    obtain ⟨n, hset⟩ := settles_workerDelete hw₀ h
    exact iff_of_true (hb₀.of_settles hset hw₁) (keepsPointers_of_none
      (readyOf_other hmsg (Or.inr (Or.inr (Or.inl hr)))) hclient)
  | ready hc hr h =>
    obtain ⟨c₀, msg, rfl⟩ : ∃ c₀ rest, msg = c₀ :: rest := by
      cases msg with
      | nil => simp at hc
      | cons c₀ rest => exact ⟨c₀, rest, rfl⟩
    obtain ⟨rfl, rfl, part, rest, hm, hempty⟩ | ⟨n, t, rest, p, b₂, c, hm, hn, hreq, hwait, rfl⟩ :=
      workerReady_eq_ok h
    · obtain rfl := Except.ok.inj hd'
      have hnone := readyOf_other hmsg (Or.inr (Or.inr (Or.inr ⟨c₀, part, rest, by rw [← hm]; rfl, hempty⟩)))
      exact iff_of_true hb₀ (keepsPointers_of_none hnone hclient)
    · obtain rfl : msg = n :: t :: rest := hm
      have hready : readyOf r.msg = some (cstr s, cstr n, readyType t) := by
        simp [hmsg, readyOf, hh, Option.some.inj hc, hr, hn]
      obtain ⟨-, hreq⟩ := required_of_serviceRequire hreq
      obtain ⟨hk, hp⟩ := hreq.keeps
      have hw₂ : (b₂.setWorker (cstr s) ⟨p, b₂.expiry (cstr s)⟩).WellFormed :=
        (keeps_setWorker fun _ => hp hw₀).wf (hk.wf hw₀)
      obtain ⟨q, hq, hset⟩ := settles_waiting hw₂ hwait hd'
      obtain rfl : p = some q := by simpa [link_setWorker] using hq
      rw [keepsPointers_iff_ready hready hclient, ← harmless_congr hs₀ hl₀]
      rw [(hreq.services hw₀).1] at hset
      have hlink : ∀ v, (b₂.setWorker (cstr s) ⟨some q, b₂.expiry (cstr s)⟩).link v =
          if some (cstr s) = some v then some q else b₂.link v := by
        intro v
        rw [link_setWorker]
        simp only [Option.some.injEq, eq_comm]
      exact linked_require_iff hw₀ hreq (by rfl) hlink hb₀ hset hw₂ hw'
  | reply hc h =>
    obtain ⟨client, rest, p, srv, c, -, -, -, hwait, rfl⟩ := workerReply_eq_ok h
    obtain ⟨q, -, hset⟩ := settles_waiting ((keeps_sent _ (noRequest_clientFrames _ _ _)).wf hw₀) hwait hd'
    have hsent : Settles q.name (b.workerRequire (cstr s)) ((b.workerRequire (cstr s)).act
        [.sent (clientFrames client srv.name rest)]) := settles_of_eq rfl fun _ => rfl
    refine iff_of_true (hb₀.of_settles (hsent.trans hset) hw') (keepsPointers_of_none
      (readyOf_other hmsg (Or.inr (Or.inl ?_))) hclient)
    rw [hc]
    decide
  | heartbeat hc h =>
    obtain ⟨q, -, hset⟩ := settles_waiting hw₀ h hd'
    refine iff_of_true (hb₀.of_settles hset hw') (keepsPointers_of_none
      (readyOf_other hmsg (Or.inr (Or.inl ?_))) hclient)
    rw [hc]
    decide
  | disconnect hc h =>
    obtain rfl := Except.ok.inj hd'
    obtain ⟨n, hset⟩ := settles_workerDelete hw₀ h
    refine iff_of_true (hb₀.of_settles hset hw₁) (keepsPointers_of_none
      (readyOf_other hmsg (Or.inr (Or.inl ?_))) hclient)
    obtain ⟨hc, -⟩ | hc := hc
    all_goals
      rw [hc]
      decide
  | invalid hc =>
    obtain rfl := Except.ok.inj hd'
    exact iff_of_true hb₀ (keepsPointers_of_none
      (readyOf_other hmsg (Or.inr (Or.inl (hc _ (by decide))))) hclient)

theorem linked_step_iff {r : Received} (hw : b.WellFormed) (hb : b.Linked)
    (h : b.step r = some b') : b'.Linked ↔ b.KeepsPointers r := by
  obtain ⟨b₁, call, hacc, hd⟩ := step_eq_some h
  cases hacc with
  | client hmsg hh hstep => exact linked_client_iff hw hb hmsg hh hstep hd
  | worker hmsg hh hstep => exact linked_worker_iff hw hb hmsg hh hstep hd
  | invalid hmsg hc hw' =>
    obtain rfl := Except.ok.inj hd
    exact iff_of_true hb (keepsPointers_of_none (readyOf_other hmsg (Or.inl hw'))
      (clientOf_worker hmsg hc))

theorem linked_always_iff (hw : b.WellFormed) (hb : b.Linked) (rs : List Received) :
    Run.Always step Linked b rs ↔ Run.EachStep step KeepsPointers b rs :=
  Run.always_iff_eachStep (fun _ _ _ hw h => wellFormed_step hw h)
    (fun _ _ _ hw hb h => linked_step_iff hw hb h) hw hb rs

/-- Along a run from the empty broker workers and services stay linked exactly as long as
no message leaves a worker behind. -/
theorem linked_run_iff (rs : List Received) :
    Run.Always step Linked initial rs ↔ Run.EachStep step KeepsPointers initial rs :=
  linked_always_iff wellFormed_initial linked_initial rs

/-- A worker of the service `a` disconnects and another one registers for `a` with the other
type: the service is a new object, and the first worker still points to the deleted one. -/
theorem not_linked_after_change :
    ¬ Run.Always step Linked initial
      [⟨[[119, 49], [], mdpwWorker, mdpwReady, [97], serviceDoNotWaitResponse.text], fun _ => 0⟩,
       ⟨[[119, 49], [], mdpwWorker, mdpwDisconnect], fun _ => 0⟩,
       ⟨[[119, 50], [], mdpwWorker, mdpwReady, [97], serviceWaitResponse.text], fun _ => 0⟩] := by
  intro h
  rw [linked_always_iff wellFormed_initial linked_initial] at h
  obtain ⟨-, h₁⟩ := h _ rfl
  obtain ⟨-, h₂⟩ := h₁ _ rfl
  obtain ⟨⟨hready, -⟩, -⟩ := h₂ _ rfl
  have hkeep := (hready [119, 50] [97] serviceWaitResponse.text (by decide)).change _ [119, 49] rfl
    (by decide) (by decide)
  exact absurd hkeep (by decide)

end Broker

end IceBridge.Router
