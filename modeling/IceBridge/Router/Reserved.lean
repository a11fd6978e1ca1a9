import IceBridge.Router.Faults

/-! Which names the broker keeps for itself: the requests `service_internal` answers, the READYs
it refuses, and what it says about a service it is asked for with `mmi.service`. -/

namespace IceBridge.Router
open ServiceType

def mmiPrefix : Frame := ascii ['m', 'm', 'i', '.']

namespace Broker
variable {b b' : Broker} {r : Received} {client worker n : Frame} {args : Zmsg}

def requestOf : Zmsg → Option (Frame × Frame × Zmsg)
  | s :: _ :: h :: n :: m :: rest =>
    if cstr h = mdpcClient ∧ cstr n ≠ [] ∧ cstr n ≠ mdpwHeartbeat then
      some (cstr s, cstr n, m :: rest)
    else none
  | _ => none

def announcedBy : Zmsg → Option (Frame × Frame × Zmsg)
  | s :: _ :: h :: c :: n :: rest =>
    if cstr h = mdpwWorker ∧ cstr c = mdpwReady ∧ cstr n ≠ [] then some (cstr s, cstr n, n :: rest)
    else none
  | _ => none

def AnswersInside (b : Broker) (r : Received) (client n : Frame) (args : Zmsg) : Prop :=
  ∃ p b₁, b.serviceRequire n serviceDoNotWaitResponse.text = .ok (p, b₁) ∧
    b.accept r = do return (← b₁.serviceInternal n (wrap client [] args), none)

def Queues (b : Broker) (r : Received) (client n : Frame) (args : Zmsg) : Prop :=
  ∃ serial b₁, b.serviceRequire n serviceDoNotWaitResponse.text = .ok (some ⟨n, serial⟩, b₁) ∧
    b.accept r = .ok (b₁, some ⟨some ⟨n, serial⟩, some (wrap client [] args)⟩)

def Refuses (b : Broker) (r : Received) (worker : Frame) : Prop :=
  b.accept r = do return (← (b.workerRequire worker).workerDelete worker false, none)

def statusOf (b : Broker) (name : Frame) : Frame :=
  match b.services name with
  | some srv => if srv.waiting ≠ [] then ascii ['2', '0', '0'] else ascii ['4', '0', '4']
  | none => ascii ['4', '0', '4']

def Answers (b : Broker) (r : Received) (client n : Frame) (args : Zmsg) (status : Frame) : Prop :=
  ∃ b', b.accept r = .ok (b', none) ∧
    b'.log = b.log ++ [.sent (clientFrames client n (args.dropLast ++ [status]))]

/-- What the reserved prefix is for: names that begin with it, and no others, are the broker's
own, and every query of `mmi.service` is answered. -/
structure KeepsReserved (b : Broker) (r : Received) : Prop where
  request : ∀ client n args, requestOf r.msg = some (client, n, args) →
    (b.AnswersInside r client n args ↔ mmiPrefix <+: n) ∧
      (¬ mmiPrefix <+: n → b.Queues r client n args)
  ready : ∀ worker n args, announcedBy r.msg = some (worker, n, args) →
    b.Refuses r worker → mmiPrefix <+: n
  query : ∀ client args name, requestOf r.msg = some (client, mmiService, args) →
    body args = .ok name → b.Answers r client mmiService args (b.statusOf name)

/-- No name that is not the broker's own passes the test for the prefix: of four characters or
more, begun with `m`, `i` or a full stop. And a query asks for a service that is known, in frames
that can be sent back. -/
structure NamesApart (b : Broker) (r : Received) : Prop where
  request : ∀ client n args, requestOf r.msg = some (client, n, args) →
    reserved n → mmiPrefix <+: n
  ready : ∀ worker n args, announcedBy r.msg = some (worker, n, args) →
    reserved worker → mmiPrefix <+: n
  query : ∀ client args name, requestOf r.msg = some (client, mmiService, args) →
    body args = .ok name →
      (name = mmiService ∨ b.services name ≠ none) ∧ Sendable args.dropLast

/-! ## The messages -/

theorem reserved_of_prefix (h : mmiPrefix <+: n) : reserved n = true := by
  obtain ⟨rest, rfl⟩ := h
  have hfour : 4 ≤ (mmiPrefix ++ rest).length := by
    rw [List.length_append]
    exact Nat.le_add_right 4 _
  have hfirst : ∃ c ∈ (mmiPrefix ++ rest).head?, c ∈ ascii ['m', 'm', 'i', '.'] :=
    ⟨109, rfl, by decide⟩
  rw [reserved, decide_eq_true hfour, decide_eq_true hfirst, Bool.and_self]

theorem accept_request (h : requestOf r.msg = some (client, n, args)) :
    n ≠ [] ∧ args ≠ [] ∧ cstr client = client ∧ b.accept r = (do
      let (p, b) ← b.serviceRequire n serviceDoNotWaitResponse.text
      if reserved n then return (← b.serviceInternal n (wrap client [] args), none)
      return (b, some ⟨p, some (wrap client [] args)⟩)) := by
  unfold requestOf at h
  split at h
  · next s e hd n' m rest hmsg =>
    split_ifs at h with hc
    obtain ⟨hclient, hname, hbeat⟩ := hc
    obtain ⟨rfl, hrest⟩ := Prod.mk.inj (Option.some.inj h)
    obtain ⟨rfl, rfl⟩ := Prod.mk.inj hrest
    refine ⟨hname, List.cons_ne_nil _ _, cstr_cstr s, ?_⟩
    have haccept : b.accept r = b.clientProcess (cstr s) (n' :: m :: rest) := by
      rw [accept, hmsg]
      exact if_pos hclient
    rw [haccept, clientProcess, if_neg (by simp)]
    show (if cstr n' = [] then _ else _) = _
    rw [if_neg hname]
    show (if cstr n' = mdpwHeartbeat then _ else _) = _
    rw [if_neg hbeat]
  · cases h

theorem accept_ready (h : announcedBy r.msg = some (worker, n, args)) :
    ∃ name rest, args = name :: rest ∧ cstr name = n ∧ n ≠ [] ∧
      b.accept r = if reserved worker then
          do return (← (b.workerRequire worker).workerDelete worker false, none)
        else (b.workerRequire worker).workerReady worker args (r.clock 0) := by
  unfold announcedBy at h
  split at h
  · next s e hd c n' rest hmsg =>
    split_ifs at h with hc
    obtain ⟨hworker, hready, hname⟩ := hc
    obtain ⟨rfl, hrest⟩ := Prod.mk.inj (Option.some.inj h)
    obtain ⟨rfl, rfl⟩ := Prod.mk.inj hrest
    refine ⟨n', rest, rfl, rfl, hname, ?_⟩
    have hne : cstr hd ≠ mdpcClient := by
      rw [hworker]
      decide
    have haccept : b.accept r = b.workerProcess (cstr s) (c :: n' :: rest) (r.clock 0) := by
      rw [accept, hmsg]
      show (if cstr hd = mdpcClient then _ else _) = _
      rw [if_neg hne]
      exact if_pos hworker
    rw [haccept, workerProcess, if_neg (List.cons_ne_nil _ _)]
    show (if cstr c = mdpwReady then _ else _) = _
    rw [if_pos hready]
  · cases h

/-! ## Which way each message goes -/

theorem answersInside_iff (h : requestOf r.msg = some (client, n, args)) :
    b.AnswersInside r client n args ↔ reserved n := by
  obtain ⟨hne, -, -, haccept⟩ := accept_request (b := b) h
  constructor
  · rintro ⟨p, b₁, hreq, hinside⟩
    rw [haccept, hreq, ok_bind] at hinside
    by_contra hn
    dsimp only at hinside
    rw [if_neg hn] at hinside
    obtain ⟨b₂, -, hcall⟩ := bind_eq_ok.mp hinside.symm
    cases hcall
  · intro hn
    obtain ⟨p, b₁, hreq⟩ := serviceRequire_isOk hne serviceDoNotWaitResponse.text
    refine ⟨p, b₁, hreq, ?_⟩
    rw [haccept, hreq, ok_bind]
    exact if_pos hn

theorem queues_of_not_reserved (hw : b.WellFormed) (h : requestOf r.msg = some (client, n, args))
    (hn : ¬ reserved n) : b.Queues r client n args := by
  obtain ⟨hne, -, -, haccept⟩ := accept_request (b := b) h
  obtain ⟨p, b₁, hreq⟩ := serviceRequire_isOk (b := b) hne serviceDoNotWaitResponse.text
  have hrequired := (required_of_serviceRequire hreq).2
  obtain ⟨⟨name, serial⟩, rfl⟩ := hrequired.exists_ptr
  obtain ⟨rfl, -⟩ := hrequired.services hw
  refine ⟨serial, b₁, hreq, ?_⟩
  rw [haccept, hreq, ok_bind]
  exact if_neg hn

theorem workerWaiting_of_deref {w : Frame} {p : ServicePtr} {srv : Service} {now : Int}
    (hp : b.link w = some p) (hsrv : b.deref p = .ok srv) :
    b.workerWaiting w now = .ok ((b.setWorker w ⟨some p, now + workerExpiry⟩).setService
      (srv.workerWaiting w), ⟨some p, none⟩) := by
  have hderef : (b.setWorker w ⟨some p, now + workerExpiry⟩).deref p = .ok srv := hsrv
  simp only [workerWaiting, hp, link_setWorker, if_true, hderef, ok_bind]
  rfl

theorem workerReady_ne_refusal {name : Frame} {rest : Zmsg} {now : Int} (hw : b.WellFormed)
    (hname : cstr name ≠ []) (w : Frame) :
    b.workerReady worker (name :: rest) now ≠ do return (← b.workerDelete w false, none) := by
  intro h
  have hclean : Clean (b.workerReady worker (name :: rest) now) := by
    rw [h]
    exact clean_bind.mpr ⟨clean_workerDelete, fun _ _ => clean_pure _⟩
  obtain ⟨name', rest', heq, htype⟩ := clean_workerReady.mp hclean
  obtain ⟨rfl, rfl⟩ := List.cons.inj heq
  obtain ⟨t, rest, rfl, ty, hty⟩ := htype hname
  obtain ⟨p, b₁, hreq⟩ := serviceRequire_isOk (b := b) hname (readyType t)
  have hrequired := (required_of_serviceRequire hreq).2
  rw [← hty] at hrequired
  obtain ⟨q, rfl⟩ := hrequired.exists_ptr
  obtain ⟨hqn, ⟨srv, hs, rfl⟩, -⟩ := hrequired.services hw
  have hderef : b₁.deref srv.ptr = .ok srv := deref_eq_ok.mpr ⟨hqn ▸ hs, rfl⟩
  have hlink : (b₁.setWorker worker ⟨some srv.ptr, b₁.expiry worker⟩).link worker =
      some srv.ptr := by
    rw [link_setWorker, if_pos rfl]
  rw [workerReady_cons hname, hreq, ok_bind] at h
  dsimp only at h
  rw [workerWaiting_of_deref hlink hderef, ok_bind] at h
  obtain ⟨_, -, hnone⟩ := bind_eq_ok.mp h.symm
  cases hnone

theorem readyRefused_iff (hw : b.WellFormed) (h : announcedBy r.msg = some (worker, n, args)) :
    b.Refuses r worker ↔ reserved worker := by
  obtain ⟨name, rest, rfl, rfl, hname, haccept⟩ := accept_ready (b := b) h
  rw [Refuses, haccept]
  constructor
  · intro hrefused
    by_contra hn
    rw [if_neg hn] at hrefused
    exact workerReady_ne_refusal ((keeps_workerRequire b worker).wf hw) hname worker hrefused
  · exact fun hn => if_pos hn

theorem Required.log {t : Frame} {p : Option ServicePtr} (h : Required b n t p b') :
    b'.log = b.log := by
  cases h <;> rfl

theorem Required.statusOf {t : Frame} {p : ServicePtr} (hw : b.WellFormed)
    (h : Required b n t (some p) b') (name : Frame) : b'.statusOf name = b.statusOf name := by
  have hother := (h.services hw).2.2 name
  by_cases hname : name = n
  · subst hname
    cases h with
    | same hs ht => rfl
    | changed hs hold ht =>
      obtain rfl := hw.keyed _ _ hs
      rw [Broker.statusOf, Broker.statusOf, services_changed, hs]
    | created hs ht => rw [Broker.statusOf, Broker.statusOf, services_created, hs]; rfl
  · rw [Broker.statusOf, Broker.statusOf, hother hname]

theorem internalReply_query {m : Zmsg} {name : Frame} (hbody : body m = .ok name) :
    b.internalReply mmiService m =
      if b.services name = none then .error .unknownService
      else .ok (bodySet (b.statusOf name) m) := by
  rw [internalReply, if_pos rfl, hbody, ok_bind, statusOf]
  cases b.services name with
  | none => rfl
  | some srv =>
    rw [if_neg (Option.some_ne_none srv)]
    dsimp only
    split_ifs <;> rfl

theorem cstr_statusOf (name : Frame) : cstr (b.statusOf name) = b.statusOf name := by
  rw [statusOf]
  split
  · split_ifs <;> rfl
  · rfl

theorem answers_iff {name : Frame} (hw : b.WellFormed)
    (h : requestOf r.msg = some (client, mmiService, args)) (hbody : body args = .ok name) :
    b.Answers r client mmiService args (b.statusOf name) ↔
      (name = mmiService ∨ b.services name ≠ none) ∧ Sendable args.dropLast := by
  obtain ⟨hne, hargs, hclient, haccept⟩ := accept_request (b := b) h
  obtain ⟨p, b₁, hreq⟩ := serviceRequire_isOk (b := b) hne serviceDoNotWaitResponse.text
  have hrequired := (required_of_serviceRequire hreq).2
  obtain ⟨q, rfl⟩ := hrequired.exists_ptr
  have hwrap : body (wrap client [] args) = .ok name := (body_wrap hargs).trans hbody
  have hreply : unwrap (bodySet (b.statusOf name) (wrap client [] args)) =
      .ok (cstr client, args.dropLast ++ [cstr (b.statusOf name)]) := unwrap_bodySet hargs
  have hstatus : Sendable [b.statusOf name] :=
    sendable_cons.mpr ⟨fun _ _ => cstr_statusOf (b := b) name ▸ zero_notMem_cstr _, sendable_nil⟩
  rw [Answers, haccept, hreq, ok_bind, ← hrequired.services_ne_none hw]
  dsimp only
  rw [if_pos (by decide), serviceInternal, internalReply_query hwrap, hrequired.statusOf hw]
  split_ifs with hnone
  · refine iff_of_false ?_ fun hgood => hgood.1 hnone
    rintro ⟨c, hc, -⟩
    cases hc
  · rw [and_iff_right hnone, ok_bind, hreply, hclient, cstr_statusOf, ok_bind]
    dsimp only
    constructor
    · rintro ⟨c, hc, -⟩
      obtain ⟨b₂, hsend, -⟩ := bind_eq_ok.mp hc
      exact (sendable_append.mp (sendable_clientFrames.mp (send_eq_ok.mp hsend).1)).1
    · intro hargs
      have hsend := send_eq_ok.mpr ⟨sendable_clientFrames.mpr (sendable_append.mpr ⟨hargs, hstatus⟩),
        (rfl : b₁.act [.sent (clientFrames client mmiService
          (args.dropLast ++ [b.statusOf name]))] = _)⟩
      refine ⟨_, by rw [hsend]; rfl, ?_⟩
      rw [act, hrequired.log]

/-- A broker that any messages have led to keeps to the reserved prefix for a message exactly
when the test for it goes wrong on no name in it and a query asks for a known service. -/
theorem keepsReserved_iff {rs : List Received} (hb : Run.exec step initial rs = some b)
    (r : Received) : b.KeepsReserved r ↔ b.NamesApart r := by
  have hw : b.WellFormed := Run.exec_invariant (fun _ _ _ hw h => wellFormed_step hw h)
    wellFormed_initial hb
  constructor
  · intro h
    refine ⟨fun client n args hr hres => ?_, fun w n args hr hres => ?_,
      fun client args name hr hbody => ?_⟩
    · exact (h.request client n args hr).1.mp ((answersInside_iff hr).mpr hres)
    · exact h.ready w n args hr ((readyRefused_iff hw hr).mpr hres)
    · exact (answers_iff hw hr hbody).mp (h.query client args name hr hbody)
  · intro h
    refine ⟨fun client n args hr => ⟨?_, fun hn => ?_⟩, fun w n args hr href => ?_,
      fun client args name hr hbody => ?_⟩
    · rw [answersInside_iff hr]
      exact ⟨h.request client n args hr, reserved_of_prefix⟩
    · exact queues_of_not_reserved hw hr fun hres => hn (h.request client n args hr hres)
    · exact h.ready w n args hr ((readyRefused_iff hw hr).mp href)
    · exact (answers_iff hw hr hbody).mpr (h.query client args name hr hbody)

theorem keepsReserved_plain :
    initial.KeepsReserved ⟨[[103], [], mdpcClient, [97], [65]], fun _ => 0⟩ := by
  have hof : requestOf [[103], [], mdpcClient, [97], [65]] = some ([103], [97], [[65]]) := by decide
  have hplain : ∀ client n args,
      requestOf [[103], [], mdpcClient, [97], [65]] = some (client, n, args) → n = [97] := by
    intro client n args hr
    exact (Prod.mk.inj (Prod.mk.inj (Option.some.inj (hr.symm.trans hof))).2).1
  refine (@keepsReserved_iff initial [] rfl _).mpr ⟨?_, nofun, ?_⟩
  · intro client n args hr hres
    obtain rfl := hplain client n args hr
    exact absurd hres (by decide)
  · intro client args name hr
    exact absurd (hplain client mmiService args hr) (by decide)

/-- A request of the service `mail` is answered inside, a worker named `icebox` cannot announce
the service `a`, and a query for a service nobody has named ends the broker. -/
theorem not_keepsReserved :
    ¬ initial.KeepsReserved
        ⟨[[103], [], mdpcClient, ascii ['m', 'a', 'i', 'l'], [65]], fun _ => 0⟩ ∧
      ¬ initial.KeepsReserved ⟨[ascii ['i', 'c', 'e', 'b', 'o', 'x'], [], mdpwWorker, mdpwReady,
        [97], []], fun _ => 0⟩ ∧
      ¬ initial.KeepsReserved ⟨[[103], [], mdpcClient, mmiService, [97]], fun _ => 0⟩ := by
  refine ⟨fun h => ?_, fun h => ?_, fun h => ?_⟩
  · have hprefix := (h.request [103] (ascii ['m', 'a', 'i', 'l']) [[65]] rfl).1.mp
      ((answersInside_iff rfl).mpr (by decide))
    exact absurd hprefix (by decide)
  · have hprefix := h.ready (ascii ['i', 'c', 'e', 'b', 'o', 'x']) [97] [[97], []] rfl
      ((readyRefused_iff wellFormed_initial rfl).mpr (by decide))
    exact absurd hprefix (by decide)
  · obtain hname | hknown := (answers_iff wellFormed_initial rfl rfl).mp
      (h.query [103] [[97]] [97] rfl rfl)
    · exact absurd hname (by decide)
    · exact hknown rfl

end Broker

end IceBridge.Router
