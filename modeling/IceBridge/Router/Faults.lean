import IceBridge.Router.Cursor
import IceBridge.Router.Watched

/-! Which messages end the broker. The handlers take frames off without counting them, a READY
may name a type that `CreateService` does not know, REPLY uses `m_service` before it is tested,
and `send` asserts of some frames of others that they are encoded identities. -/

namespace IceBridge.Router
open ServiceType

def Clean {α : Type} (x : Result α) : Prop :=
  ∀ f ∈ [Fault.emptyMessage, .assertion, .nullService], x ≠ .error f

section
variable {α β : Type} {x : Result α} {g : α → Result β}

@[simp] theorem clean_ok (a : α) : Clean (.ok a : Result α) := fun _ _ => nofun

@[simp] theorem clean_pure (a : α) : Clean (pure a : Result α) := clean_ok a

@[simp] theorem not_clean_emptyMessage : ¬ Clean (.error .emptyMessage : Result α) := fun h =>
  h _ List.mem_cons_self rfl

@[simp] theorem not_clean_assertion : ¬ Clean (.error .assertion : Result α) := fun h =>
  h .assertion (by simp) rfl

@[simp] theorem not_clean_nullService : ¬ Clean (.error .nullService : Result α) := fun h =>
  h .nullService (by simp) rfl

theorem clean_error {e : Fault} (h : e ∉ [Fault.emptyMessage, .assertion, .nullService]) :
    Clean (.error e : Result α) := fun _ hf heq => h (Except.error.inj heq ▸ hf)

theorem clean_bind : Clean (x >>= g) ↔ Clean x ∧ ∀ a, x = .ok a → Clean (g a) := by
  cases x with
  | error e =>
    rw [error_bind]
    exact ⟨fun h => ⟨fun f hf heq => h f hf (congrArg _ (Except.error.inj heq)), nofun⟩,
      fun h f hf heq => h.1 f hf (congrArg _ (Except.error.inj heq))⟩
  | ok a =>
    rw [ok_bind]
    constructor
    · rintro h
      exact ⟨clean_ok a, fun a' ha => Except.ok.inj ha ▸ h⟩
    · exact fun h => h.2 a rfl

theorem clean_unwrap {msg : Zmsg} : Clean (unwrap msg) ↔ msg ≠ [] := by
  unfold unwrap
  split <;> simp

def Service.SendsAll (srv : Service) (expiry : Frame → Int) (reqs : List Zmsg) (clk : ℕ → Int) :
    Prop :=
  ∀ i msg, reqs[i]? = some msg → srv.Serves expiry i clk → Sendable msg

theorem clean_dispatchLoop {expiry : Frame → Int} {reqs : List Zmsg} {clk : ℕ → Int}
    {srv : Service} :
    Clean (dispatchLoop expiry reqs clk srv) ↔ srv.SendsAll expiry reqs clk := by
  have hassert := dispatchLoop_assertion_iff expiry reqs clk srv
  constructor
  · intro h i msg hi hserves
    by_contra hbad
    exact h .assertion (by simp) (hassert.mpr ⟨i, msg, hi, hbad, hserves⟩)
  · rintro h f hf heq
    obtain rfl | rfl := dispatchLoop_error heq
    · exact absurd hf (by decide)
    · obtain ⟨i, msg, hi, hbad, hserves⟩ := hassert.mp heq
      exact hbad (h i msg hi hserves)

theorem clean_send {frames : Zmsg} : Clean (send frames) ↔ Sendable frames := by
  unfold send
  split_ifs with h
  · exact iff_of_true (clean_ok _) h
  · exact iff_of_false not_clean_assertion h

end

namespace Broker
variable {b b' : Broker} {w : Frame} {r : Received}

theorem clean_deref {p : ServicePtr} : Clean (b.deref p) := by
  have hdeleted : Clean (.error .deletedService : Result Service) := clean_error (by decide)
  unfold deref
  split
  · split_ifs
    exacts [clean_ok _, hdeleted]
  · exact hdeleted

theorem clean_send {frames : Zmsg} : Clean (b.send frames) ↔ Sendable frames :=
  clean_bind.trans <| (and_iff_left fun _ _ => clean_pure _).trans Router.clean_send

@[simp] theorem sendable_clientFrames {client service : Frame} {msg : Zmsg} :
    Sendable (clientFrames client service msg) ↔ Sendable msg := by
  rw [clientFrames, sendable_wrap, sendable_wrap]

theorem serviceRequire_isOk {n : Frame} (hn : n ≠ []) (t : Frame) :
    ∃ p b', b.serviceRequire n t = .ok (p, b') := by
  unfold serviceRequire
  rw [if_neg hn]
  split
  · split_ifs
    exacts [⟨_, _, rfl⟩, ⟨_, _, rfl⟩]
  · split
    exacts [⟨_, _, rfl⟩, ⟨_, _, rfl⟩]

theorem clean_workerDelete {disconnect : Bool} : Clean (b.workerDelete w disconnect) := by
  unfold workerDelete
  dsimp only
  split
  · simp
  · exact clean_bind.mpr ⟨clean_deref, fun _ _ => clean_pure _⟩

theorem clean_workerWaiting {now : Int} : Clean (b.workerWaiting w now) ↔ b.link w ≠ none := by
  unfold workerWaiting
  simp only [link_setWorker, if_true]
  cases b.link w with
  | none => simp
  | some p => simpa using clean_bind.mpr ⟨clean_deref, fun _ _ => clean_pure _⟩

theorem clean_serviceDispatch {call : DispatchCall} {clk : ℕ → Int} {p : ServicePtr}
    (hp : call.service = some p) : Clean (b.serviceDispatch call clk) ↔ ∀ srv, b.deref p = .ok srv →
      srv.SendsAll b.expiry (srv.requests ++ call.msg.toList) clk := by
  unfold serviceDispatch
  rw [hp]
  dsimp only
  rw [clean_bind, and_iff_right clean_deref]
  refine forall₂_congr fun srv _ => ?_
  rw [clean_bind, clean_dispatchLoop]
  exact and_iff_left fun _ _ => clean_pure _

/-! ## The handlers -/

/-- The frames of a READY after the command: the service name and, unless that is empty, a type
that `CreateService` knows. -/
def ReadyFrames (args : Zmsg) : Prop :=
  ∃ name rest, args = name :: rest ∧
    (cstr name ≠ [] → ∃ t rest', rest = t :: rest' ∧ ∃ ty : ServiceType, ty.text = readyType t)

theorem Required.ptr_ne_none {n t : Frame} {p : Option ServicePtr} (h : Required b n t p b') :
    p ≠ none ↔ ∃ ty : ServiceType, ty.text = t := by
  cases h with
  | unknown ht => simpa using ht
  | same hs ht => exact iff_of_true (Option.some_ne_none _) ⟨_, ht⟩
  | changed hs hold ht => exact iff_of_true (Option.some_ne_none _) ⟨_, ht⟩
  | created hs ht => exact iff_of_true (Option.some_ne_none _) ⟨_, ht⟩

theorem workerReady_cons {name t : Frame} {rest : Zmsg} {now : Int} (hname : cstr name ≠ []) :
    b.workerReady w (name :: t :: rest) now = (do
      let (p, b) ← b.serviceRequire (cstr name) (readyType t)
      let (b, call) ← (b.setWorker w ⟨p, b.expiry w⟩).workerWaiting w now
      return (b, some call)) := by
  change (if cstr name = [] then _ else _) = _
  rw [if_neg hname]
  rfl

theorem clean_workerReady {msg : Zmsg} {now : Int} :
    Clean (b.workerReady w msg now) ↔ ReadyFrames msg := by
  rcases msg with _ | ⟨name, rest⟩
  · exact iff_of_false not_clean_emptyMessage (by simp [ReadyFrames])
  by_cases hname : cstr name = []
  · have hdropped : b.workerReady w (name :: rest) now = .ok (b, none) := if_pos hname
    exact iff_of_true (hdropped ▸ clean_ok _) ⟨name, rest, rfl, fun h => absurd hname h⟩
  rcases rest with _ | ⟨t, rest⟩
  · have hshort : b.workerReady w [name] now = .error .emptyMessage := if_neg hname
    refine iff_of_false (hshort ▸ not_clean_emptyMessage) ?_
    rintro ⟨name', rest', heq, h⟩
    obtain ⟨rfl, rfl⟩ := List.cons.inj heq
    obtain ⟨t, rest'', hnil, -⟩ := h hname
    cases hnil
  obtain ⟨p, b', hreq⟩ := serviceRequire_isOk (b := b) hname (readyType t)
  rw [workerReady_cons hname, hreq, ok_bind, clean_bind, clean_workerWaiting, link_setWorker,
    if_pos rfl, (required_of_serviceRequire hreq).2.ptr_ne_none]
  constructor
  · rintro ⟨hty, -⟩
    exact ⟨name, t :: rest, rfl, fun _ => ⟨t, rest, rfl, hty⟩⟩
  · rintro ⟨name', rest', heq, h⟩
    obtain ⟨rfl, rfl⟩ := List.cons.inj heq
    obtain ⟨t', rest'', heq', hty⟩ := h hname
    obtain ⟨rfl, -⟩ := List.cons.inj heq'
    exact ⟨hty, fun _ _ => clean_pure _⟩

def ReplySendable (b : Broker) (w : Frame) (args : Zmsg) : Prop :=
  ∀ p srv client rest, b.link w = some p → b.deref p = .ok srv →
    unwrap args = .ok (client, rest) → Sendable rest

theorem clean_workerReply {msg : Zmsg} {now : Int} :
    Clean (b.workerReply w msg now) ↔ msg ≠ [] ∧ b.link w ≠ none ∧ b.ReplySendable w msg := by
  unfold workerReply
  rw [clean_bind, clean_unwrap]
  refine and_congr_right fun hmsg => ?_
  obtain ⟨⟨client, rest⟩, hunwrap⟩ : ∃ a, unwrap msg = .ok a := by
    unfold unwrap
    split
    exacts [absurd rfl hmsg, ⟨_, rfl⟩, ⟨_, rfl⟩]
  rw [hunwrap]
  cases hlink : b.link w with
  | none => exact iff_of_false (fun h => not_clean_nullService (h _ rfl)) (by simp)
  | some p =>
    rw [and_iff_right (Option.some_ne_none p)]
    constructor
    · intro h p' srv client' rest' hp hsrv hun
      obtain rfl := Option.some.inj (hlink.symm.trans hp)
      obtain ⟨rfl, rfl⟩ := Prod.mk.inj (Except.ok.inj (hunwrap.symm.trans hun))
      have hclean := (clean_bind.mp (h _ rfl)).2 srv hsrv
      exact sendable_clientFrames.mp (clean_send.mp (clean_bind.mp hclean).1)
    · rintro h ⟨client', rest'⟩ heq
      obtain ⟨rfl, rfl⟩ := Prod.mk.inj (Except.ok.inj heq)
      refine clean_bind.mpr ⟨clean_deref, fun srv hsrv => clean_bind.mpr ⟨?_, fun b₁ hsend => ?_⟩⟩
      · exact clean_send.mpr (sendable_clientFrames.mpr (h p srv client rest hlink hsrv hunwrap))
      · obtain ⟨-, rfl⟩ := send_eq_ok.mp hsend
        refine clean_bind.mpr ⟨clean_workerWaiting.mpr ?_, fun _ _ => clean_pure _⟩
        exact ne_of_eq_of_ne hlink (Option.some_ne_none p)

theorem clean_workerProcess {command : Frame} {args : Zmsg} {now : Int} :
    Clean (b.workerProcess w (command :: args) now) ↔
      (cstr command = mdpwReady → reserved w = false → ReadyFrames args) ∧
        (cstr command = mdpwReply → args ≠ [] ∧ b.link w ≠ none ∧ b.ReplySendable w args) := by
  have hlink := link_workerRequire b w w
  have hsendable : (b.workerRequire w).ReplySendable w args ↔ b.ReplySendable w args := by
    unfold ReplySendable deref
    rw [hlink, services_workerRequire]
  have heq : ∀ {c : Frame}, cstr command = c → c ≠ mdpwReply → cstr command ≠ mdpwReply :=
    fun h hne h' => hne (h.symm.trans h')
  unfold workerProcess
  rw [if_neg (List.cons_ne_nil _ _)]
  simp only [popCstr, ok_bind]
  split_ifs with hready hres hreply hbeat hdis
  · exact iff_of_true (clean_bind.mpr ⟨clean_workerDelete, fun _ _ => clean_pure _⟩)
      ⟨fun _ h => absurd (hres.symm.trans h) (by simp), fun h => absurd h (heq hready (by decide))⟩
  · have hnot : reserved w = false := by simpa using hres
    rw [clean_workerReady]
    exact ⟨fun h => ⟨fun _ _ => h, fun h' => absurd h' (heq hready (by decide))⟩,
      fun h => h.1 hready hnot⟩
  · rw [clean_workerReply, hlink, hsendable]
    exact ⟨fun h => ⟨fun h' => absurd h' hready, fun _ => h⟩, fun h => h.2 hreply⟩
  · refine iff_of_true ?_ ⟨fun h => absurd h hready, fun h => absurd h hreply⟩
    split
    · next p hp =>
      refine clean_bind.mpr ⟨clean_workerWaiting.mpr ?_, fun _ _ => clean_pure _⟩
      exact ne_of_eq_of_ne hp (Option.some_ne_none p)
    · exact clean_bind.mpr ⟨clean_workerDelete, fun _ _ => clean_pure _⟩
  · exact iff_of_true (clean_bind.mpr ⟨clean_workerDelete, fun _ _ => clean_pure _⟩)
      ⟨fun h => absurd h hready, fun h => absurd h hreply⟩
  · exact iff_of_true (clean_pure _) ⟨fun h => absurd h hready, fun h => absurd h hreply⟩

theorem unwrap_bodySet {client status : Frame} {args : Zmsg} (hargs : args ≠ []) :
    unwrap (bodySet status (wrap client [] args)) =
      .ok (cstr client, args.dropLast ++ [cstr status]) := by
  have hset : bodySet status (wrap client [] args) =
      wrap client [] (args.dropLast ++ [cstr status]) := by
    rw [bodySet, wrap, pushFront, pushFront, List.dropLast_cons_of_ne_nil (List.cons_ne_nil _ _),
      List.dropLast_cons_of_ne_nil hargs]
    rfl
  rw [hset, unwrap_wrap]

theorem body_wrap {client : Frame} {args : Zmsg} (hargs : args ≠ []) :
    body (wrap client [] args) = body args := by
  rw [body, wrap, pushFront, pushFront, List.getLast?_cons_cons, List.getLast?_cons_of_ne_nil hargs]
  rfl

theorem internalReply_cases (b : Broker) (n : Frame) {msg : Zmsg} (hmsg : msg ≠ []) :
    (∃ name, n = mmiService ∧ body msg = .ok name ∧ b.services name = none ∧
      b.internalReply n msg = .error .unknownService) ∨
    (n = mmiService → ∀ name, body msg = .ok name → b.services name ≠ none) ∧
      ∃ status, b.internalReply n msg = .ok (bodySet status msg) := by
  unfold internalReply
  split_ifs with hn
  · obtain ⟨name, hname⟩ : ∃ name, body msg = .ok name := by
      unfold body
      split
      · next hlast => exact absurd (List.getLast?_eq_none_iff.mp hlast) hmsg
      · exact ⟨_, rfl⟩
    rw [hname, ok_bind]
    cases hs : b.services name with
    | none => exact Or.inl ⟨name, hn, rfl, hs, rfl⟩
    | some srv =>
      refine Or.inr ⟨fun _ name' hname' => ?_, ?_⟩
      · obtain rfl := Except.ok.inj hname'
        exact ne_of_eq_of_ne hs (Option.some_ne_none srv)
      · dsimp only
        split_ifs
        exacts [⟨_, rfl⟩, ⟨_, rfl⟩]
  · exact Or.inr ⟨fun h => absurd h hn, _, rfl⟩

theorem clean_serviceInternal {client n : Frame} {args : Zmsg} (hargs : args ≠ []) :
    Clean (b.serviceInternal n (wrap client [] args)) ↔
      ((n = mmiService → ∀ name, body args = .ok name → b.services name ≠ none) →
        Sendable args.dropLast) := by
  have hbody : body (wrap client [] args) = body args := body_wrap hargs
  have hne : wrap client [] args ≠ [] := List.cons_ne_nil _ _
  rw [← hbody]
  unfold serviceInternal
  obtain ⟨name, hn, hname, hs, hreply⟩ | ⟨hknown, status, hreply⟩ := b.internalReply_cases n hne
  · rw [hreply, error_bind]
    exact iff_of_true (clean_error (by decide)) fun h => absurd hs (h hn name hname)
  · have hstatus : Sendable [cstr status] :=
      sendable_cons.mpr ⟨fun _ _ => zero_notMem_cstr status, sendable_nil⟩
    rw [hreply, ok_bind, unwrap_bodySet hargs, ok_bind]
    dsimp only
    rw [clean_send, sendable_clientFrames, sendable_append, and_iff_left hstatus]
    exact ⟨fun h _ => h, fun h => h hknown⟩

/-- The answer of `service_internal` can be sent: it has the frames of the request, and another
last one. A query for an unknown service gets none. -/
def AnswerSendable (b : Broker) (n : Frame) (args : Zmsg) : Prop :=
  reserved n = true → (n = mmiService → ∀ name, body args = .ok name →
    name = mmiService ∨ b.services name ≠ none) → Sendable args.dropLast

theorem Required.services_ne_none {n t : Frame} {p : ServicePtr} (hw : b.WellFormed)
    (h : Required b n t (some p) b') (name : Frame) :
    b'.services name ≠ none ↔ name = n ∨ b.services name ≠ none := by
  obtain ⟨-, ⟨srv, hs, -⟩, hother⟩ := h.services hw
  by_cases hname : name = n
  · rw [hname, hs]
    exact iff_of_true (Option.some_ne_none srv) (Or.inl rfl)
  · rw [hother name hname, or_iff_right hname]

theorem reserved_length {n : Frame} (h : reserved n = true) : 4 ≤ n.length := by
  unfold reserved at h
  exact of_decide_eq_true (Bool.and_eq_true_iff.mp h).1

theorem clean_clientProcess (hw : b.WellFormed) {name : Frame} {args : Zmsg} :
    Clean (b.clientProcess w (name :: args)) ↔
      args ≠ [] ∧ b.AnswerSendable (cstr name) args := by
  unfold clientProcess
  have hlength : (name :: args).length < 2 ↔ args = [] := by
    rw [List.length_cons, ← List.length_eq_zero_iff]
    omega
  by_cases hargs : args = []
  · rw [if_pos (hlength.mpr hargs)]
    exact iff_of_false not_clean_assertion fun h => h.1 hargs
  rw [if_neg (mt hlength.mp hargs), and_iff_right hargs]
  simp only [popCstr, ok_bind]
  have hplain : reserved (cstr name) = false → b.AnswerSendable (cstr name) args :=
    fun h h' => absurd (h.symm.trans h') Bool.false_ne_true
  have hshort : ∀ n : Frame, n.length < 4 → cstr name = n → b.AnswerSendable (cstr name) args := by
    rintro n hn rfl h
    exact absurd (reserved_length h) (not_le.mpr hn)
  by_cases hn : cstr name = []
  · rw [if_pos hn]
    exact iff_of_true (clean_pure _) (hshort _ (by decide) hn)
  obtain ⟨p, b₁, hreq⟩ := serviceRequire_isOk (b := b) hn serviceDoNotWaitResponse.text
  have hrequired := (required_of_serviceRequire hreq).2
  obtain ⟨q, rfl⟩ := hrequired.exists_ptr
  rw [if_neg hn, hreq, ok_bind]
  dsimp only
  split_ifs with hbeat hres
  · exact iff_of_true (clean_pure _) (hshort _ (by decide) hbeat)
  · rw [clean_bind, clean_serviceInternal hargs, and_iff_left fun _ _ => clean_pure _]
    simp only [hrequired.services_ne_none hw]
    constructor
    · intro h _ hquery
      refine h fun hmmi m hm => ?_
      rw [hmmi]
      exact hquery hmmi m hm
    · intro h hquery
      refine h hres fun hmmi m hm => ?_
      rw [← hmmi]
      exact hquery hmmi m hm
  · exact iff_of_true (clean_pure _) (hplain (by simpa using hres))

/-- The frames that the handlers take off are there, a READY names a known type, REPLY comes
from a worker that has a service, and what goes back to a client can be sent. -/
def Readable (b : Broker) : Zmsg → Prop
  | s :: _ :: h :: rest =>
    (cstr h = mdpcClient →
      ∃ name args, rest = name :: args ∧ args ≠ [] ∧ b.AnswerSendable (cstr name) args) ∧
      (cstr h = mdpwWorker → ∃ command args, rest = command :: args ∧
        (cstr command = mdpwReady → reserved (cstr s) = false → ReadyFrames args) ∧
        (cstr command = mdpwReply →
          args ≠ [] ∧ b.link (cstr s) ≠ none ∧ b.ReplySendable (cstr s) args))
  | _ => False

theorem clean_accept (hw : b.WellFormed) : Clean (b.accept r) ↔ b.Readable r.msg := by
  unfold accept
  rcases hmsg : r.msg with _ | ⟨s, _ | ⟨e, _ | ⟨h, rest⟩⟩⟩
  · exact iff_of_false not_clean_emptyMessage id
  · exact iff_of_false not_clean_emptyMessage id
  · exact iff_of_false not_clean_emptyMessage id
  simp only [popCstr, popFront, ok_bind, Readable]
  split_ifs with hc hworker
  · have hnot : cstr h ≠ mdpwWorker := by
      rw [hc]
      decide
    rcases rest with _ | ⟨name, args⟩
    · refine iff_of_false not_clean_assertion ?_
      rintro ⟨hclient, -⟩
      obtain ⟨name, args, hnil, -⟩ := hclient hc
      cases hnil
    · rw [clean_clientProcess hw]
      constructor
      · exact fun h => ⟨fun _ => ⟨name, args, rfl, h⟩, fun h' => absurd h' hnot⟩
      · rintro ⟨hclient, -⟩
        obtain ⟨name', args', heq, h⟩ := hclient hc
        obtain ⟨rfl, rfl⟩ := List.cons.inj heq
        exact h
  · rcases rest with _ | ⟨command, args⟩
    · refine iff_of_false not_clean_assertion ?_
      rintro ⟨-, h⟩
      obtain ⟨command, args, hnil, -⟩ := h hworker
      cases hnil
    · rw [clean_workerProcess]
      constructor
      · exact fun h => ⟨fun hc' => absurd hc' hc, fun _ => ⟨command, args, rfl, h⟩⟩
      · rintro ⟨-, h⟩
        obtain ⟨command', args', heq, h⟩ := h hworker
        obtain ⟨rfl, rfl⟩ := List.cons.inj heq
        exact h
  · exact iff_of_true (clean_pure _) ⟨fun h => absurd h hc, fun h => absurd h hworker⟩

theorem Accepted.service_ne_none {call : DispatchCall} (h : Accepted b r b' (some call)) :
    call.service ≠ none := by
  have hwait : ∀ {b₁ b₂ : Broker} {v : Frame} {now : Int} {call : DispatchCall},
      b₁.workerWaiting v now = .ok (b₂, call) → call.service ≠ none := by
    intro b₁ b₂ v now call h
    obtain ⟨p, srv, -, -, rfl, -⟩ := workerWaiting_eq_ok h
    exact Option.some_ne_none p
  cases h with
  | client hmsg hh hstep =>
    cases hstep with
    | request hn hbeat hreq =>
      exact (required_of_serviceRequire hreq).2.ptr_ne_none.mpr ⟨_, rfl⟩
  | worker hmsg hh hstep =>
    cases hstep with
    | ready hc hr h =>
      obtain ⟨-, h, -⟩ | ⟨n, t, rest, p, b₂, c, -, -, -, h, hcall⟩ := workerReady_eq_ok h
      · cases h
      · exact hwait (Option.some.inj hcall ▸ h)
    | reply hc h =>
      obtain ⟨client, rest, p, srv, c, -, -, -, h, hcall⟩ := workerReply_eq_ok h
      exact hwait (Option.some.inj hcall ▸ h)
    | heartbeat hc h => exact hwait h

def PassesOn (b : Broker) (r : Received) : Prop :=
  ∀ b₁ call p srv, b.accept r = .ok (b₁, some call) → call.service = some p →
    b₁.deref p = .ok srv →
      srv.SendsAll b₁.expiry (srv.requests ++ call.msg.toList) fun i => r.clock (i + 1)

theorem clean_recv (hw : b.WellFormed) :
    Clean (b.recv r) ↔ b.Readable r.msg ∧ b.PassesOn r := by
  unfold recv
  rw [clean_bind, clean_accept hw]
  refine and_congr_right fun _ => ⟨fun h b₁ call p srv hacc hp hsrv => ?_, ?_⟩
  · exact (clean_serviceDispatch hp).mp (h _ hacc) srv hsrv
  · rintro h ⟨b₁, call⟩ hacc
    cases call with
    | none => exact clean_ok _
    | some call =>
      obtain ⟨p, hp⟩ := Option.ne_none_iff_exists'.mp (accepted_of_accept hacc).service_ne_none
      exact (clean_serviceDispatch hp).mpr fun srv hsrv => h b₁ call p srv hacc hp hsrv

/-! ## Workers that never sent READY -/

theorem workerDelete_of_none (hlink : b.link w = none) :
    b.workerDelete w true = .ok (b.act [.sent (workerFrames w mdpwDisconnect [])]) := by
  have hl : (b.act [.sent (workerFrames w mdpwDisconnect [])]).link w = none := hlink
  unfold workerDelete
  simp only [if_true, hl]

end Broker

namespace Watched
variable {s t : Watched} {r : Received}

def NeverReady (w : Frame) (history : List BrokerEvent) : Prop :=
  ∀ e ∈ history, ¬ e.IsFrom w [mdpwReady]

/-- The message is processed without a fault, and REPLY or HEARTBEAT of a worker that never sent
READY has no effect other than a DISCONNECT sent to it. -/
structure Withstands (s : Watched) (r : Received) : Prop where
  faultless : s.broker.recv r ≠ .error .emptyMessage ∧ s.broker.recv r ≠ .error .assertion ∧
    s.broker.recv r ≠ .error .nullService
  stranger : ∀ w, commandOf r.msg = some (w, mdpwReply) ∨ commandOf r.msg = some (w, mdpwHeartbeat) →
    NeverReady w s.history → s.broker.recv r =
      .ok ((s.broker.workerRequire w).act [.sent (workerFrames w mdpwDisconnect [])])

def Registered (s : Watched) : Prop := s.broker.Placed fun w _ => ¬ NeverReady w s.history

theorem registered_step (hw : s.broker.WellFormed) (hs : s.Registered) (h : s.step r = some t) :
    t.Registered := by
  obtain ⟨hb, others, sent, -, hhist, -⟩ := step_eq_some h
  have hmem : ∀ e ∈ s.history, e ∈ t.history := fun e he => by rw [hhist]; simp [he]
  refine Broker.placed_step hw (hs.mono fun w n hold hnever => ?_) (fun w n ty hready hnever => ?_) hb
  · exact hold fun e he => hnever e (hmem e he)
  · obtain ⟨sender, e, hd, c, n', t', rest, hmsg, hh, hc, -⟩ := Broker.readyOf_eq_some hready
    have hsender : cstr sender = w := by
      rw [hmsg] at hready
      simp only [Broker.readyOf] at hready
      split_ifs at hready
      exact (Prod.mk.inj (Option.some.inj hready)).1
    refine hnever (.received r.msg) (by rw [hhist]; simp) ⟨mdpwReady, List.mem_cons_self, ?_⟩
    rw [hmsg, commandOf, if_pos hh, hsender, hc]

theorem recv_heartbeat {w : Frame} (hc : commandOf r.msg = some (w, mdpwHeartbeat))
    (hlink : s.broker.link w = none) : s.broker.recv r =
      .ok ((s.broker.workerRequire w).act [.sent (workerFrames w mdpwDisconnect [])]) := by
  obtain ⟨sender, e, hd, part, rest, hmsg, hh, rfl, hpart⟩ := commandOf_eq_some hc
  have hlink₀ := (Broker.link_workerRequire s.broker (cstr sender) (cstr sender)).trans hlink
  unfold Broker.recv Broker.accept
  rw [hmsg]
  simp only [popCstr, popFront, ok_bind, hh, Broker.workerProcess, hpart]
  rw [if_neg (by decide), if_pos trivial, if_neg (List.cons_ne_nil _ _), if_neg (by decide),
    if_neg (by decide), if_pos trivial]
  simp only [hlink₀]
  rw [Broker.workerDelete_of_none hlink₀]
  rfl

/-- In every state that a run from the empty broker reaches, a message is withstood exactly when
it is readable and what it makes the broker pass on can be sent. -/
theorem withstands_iff {rs : List Received} (hrun : Run.exec step {} rs = some s) (r : Received) :
    s.Withstands r ↔ s.broker.Readable r.msg ∧ s.broker.PassesOn r := by
  have hstep : ∀ (s : Watched) r t, s.broker.WellFormed ∧ s.Registered → s.step r = some t →
      t.broker.WellFormed ∧ t.Registered := by
    rintro s r t ⟨hw, hs⟩ h
    exact ⟨Broker.wellFormed_step hw (step_eq_some h).1, registered_step hw hs h⟩
  have hinit : ({} : Watched).broker.WellFormed ∧ ({} : Watched).Registered :=
    ⟨Broker.wellFormed_initial, Broker.placed_initial⟩
  obtain ⟨hwf, hreg⟩ := Run.exec_invariant hstep hinit hrun
  have hclean : Clean (s.broker.recv r) ↔ s.broker.recv r ≠ .error .emptyMessage ∧
      s.broker.recv r ≠ .error .assertion ∧ s.broker.recv r ≠ .error .nullService := by
    simp [Clean]
  rw [← Broker.clean_recv hwf]
  constructor
  · exact fun h => hclean.mpr h.faultless
  · intro h
    refine ⟨hclean.mp h, fun w hc hnever => ?_⟩
    have hlink : s.broker.link w = none :=
      Option.eq_none_iff_forall_ne_some.mpr fun p hp => hreg.attached w p hp hnever
    obtain hc | hc := hc
    · -- REPLY uses the null pointer
      obtain ⟨sender, e, hd, part, rest, hmsg, hh, rfl, hpart⟩ := commandOf_eq_some hc
      rw [Broker.clean_recv hwf, hmsg] at h
      obtain ⟨command, args, heq, -, hreply⟩ := h.1.2 hh
      obtain ⟨rfl, rfl⟩ := List.cons.inj heq
      exact absurd hlink (hreply hpart).2.1
    · exact recv_heartbeat hc hlink

theorem withstands_heartbeat :
    ({} : Watched).Withstands ⟨[[119, 49], [], mdpwWorker, mdpwHeartbeat], fun _ => 0⟩ := by
  refine (@withstands_iff {} [] rfl _).mpr ⟨⟨fun h => absurd h (by decide), fun _ => ?_⟩, ?_⟩
  · exact ⟨mdpwHeartbeat, [], rfl, fun h => absurd h (by decide), fun h => absurd h (by decide)⟩
  · intro b₁ call p srv hacc
    cases hacc

/-- A REPLY of a worker that the broker does not know uses a null pointer. -/
theorem not_withstands_reply : ¬ ({} : Watched).Withstands
    ⟨[[119, 49], [], mdpwWorker, mdpwReply, [103], [], [88]], fun _ => 0⟩ :=
  fun h => h.faultless.2.2 rfl

end Watched

end IceBridge.Router
