import IceBridge.Lib.Quarantine
import IceBridge.Gateway.SessionRouting

/-! What a session receives is told to its own handler. The end of a session overtakes messages
that are posted after it; they are for nobody then, until the id is used again, and that takes
more than 4096 other sessions that end in the meantime. -/

namespace IceBridge.Gateway
open Eddy (TCPSession Effect NetMessageFilter)
variable {σ M : Type}

def MainTask.messagesOf (c : ℕ) : MainTask M → List M
  | .sendMessageListToHandler session messages => if session = c then messages else []
  | _ => []

def handed (c : ℕ) : ℕ × Effect M → List M
  | (session, .sendMessageListToHandler messages) => if session = c then messages else []
  | _ => []

def own (c : ℕ) (calls : List (OnMessage M)) : List M :=
  (calls.filter fun call => call.handler = c ∧ call.session = c).map OnMessage.message

namespace Threads
variable {x y : Threads σ M} {F : NetMessageFilter σ M} {empty : M → Bool} {c d k : ℕ}
  {conn : Connection σ M}

def onTheWay (c : ℕ) (tasks : List (MainTask M)) : List M := tasks.flatMap (MainTask.messagesOf c)

def inHand (c : ℕ) (pending : List (ℕ × Effect M)) : List M := pending.flatMap (handed c)

/-- As long as the handler is there, all that was parsed has been told to it or waits in order. -/
structure Incoming (x : Threads σ M) (c : ℕ) (conn : Connection σ M) : Prop where
  told : own c x.calls <+: conn.parsed
  inOrder : conn.handler.sessionId ≠ 0 → own c x.calls ++ onTheWay c x.mainTasks ++
    inHand c (x.sessionThread conn.handler.sessionThreadId).pending ++
      conn.session.messagesReceived = conn.parsed
  timerless : conn.session.receiveDelay = false

def Awaited (x : Threads σ M) (c : ℕ) : Prop :=
  ∀ conn : Connection σ M, x.connections[c]? = some conn → conn.session.messagesReceived ≠ [] →
    .packMessageList c ∈ (x.sessionThread conn.handler.sessionThreadId).tasks ∨
      (c, .packMessageList) ∈ (x.sessionThread conn.handler.sessionThreadId).pending

structure Receives (x : Threads σ M) : Prop where
  incoming : ∀ (c : ℕ) (conn : Connection σ M), x.connections[c]? = some conn → Incoming x c conn
  keeps : Quarantine.Keeps 4096 x.manager.sessionIdGenerator.pool (x.closes.map x.idOf)
  closes : ∀ c ∈ x.closes, ∃ conn, x.connections[c]? = some conn ∧ conn.handler.sessionId = 0
  closed : ∀ (c : ℕ) (conn : Connection σ M), x.connections[c]? = some conn →
    conn.handler.sessionId = 0 → c ∈ x.closes
  absent : ∀ c : ℕ, x.connections[c]? = none → own c x.calls = [] ∧ onTheWay c x.mainTasks = []

theorem own_append (c : ℕ) (calls more : List (OnMessage M)) :
    own c (calls ++ more) = own c calls ++ own c more := by
  rw [own, List.filter_append, List.map_append]
  rfl

theorem own_calls (c h s : ℕ) (messages : List M) :
    own c (messages.map fun m => ⟨h, s, m⟩) = if h = c ∧ s = c then messages else [] := by
  unfold own
  split
  · next heq => simp [List.filter_map, Function.comp_def, heq]
  · next hne => simp [List.filter_map, Function.comp_def, hne]

theorem idOf_eq (hc : x.connections[c]? = some conn) : x.idOf c = conn.id := by
  rw [idOf, hc]
  rfl

/-- The handler that a session finds is its own as long as that is there, and another's then. -/
theorem Kept.recipient (hx : Kept x) {h : ℕ} (hc : x.connections[c]? = some conn)
    (hfound : x.recipient c = some h) : h = c ↔ conn.handler.sessionId ≠ 0 := by
  have hmem := (hx.getSessionHandler _ h).mp hfound
  obtain ⟨hvalid, n, hn, hid⟩ := (hx.sound.known _ h).mp hmem
  rw [idOf_eq hc] at hvalid hid
  constructor
  · rintro rfl
    obtain rfl := Option.some.inj ((names_of hc).symm.trans hn)
    exact fun hzero => hvalid (hid.symm.trans hzero)
  · intro hopen
    obtain ⟨hzero, -⟩ | ⟨-, hzero | hsame⟩ := hx.sound.named c _ (names_of hc)
    · exact absurd hzero hvalid
    · exact absurd hzero hopen
    · exact hx.sound.unique hn (names_of hc) (hid.trans hsame.symm) (hid.symm ▸ hvalid)

theorem Kept.recipient_self (hx : Kept x) (hc : x.connections[c]? = some conn)
    (hopen : conn.handler.sessionId ≠ 0) (hid : conn.id ≠ 0) : x.recipient c = some c := by
  refine (hx.getSessionHandler _ c).mpr ((hx.sound.known _ c).mpr ?_)
  rw [idOf_eq hc]
  obtain ⟨hzero, -⟩ | ⟨-, hzero | hsame⟩ := hx.sound.named c _ (names_of hc)
  · exact absurd hzero hid
  · exact absurd hzero hopen
  · exact ⟨hid, _, names_of hc, hsame⟩

theorem Receives.recycled (hx : Receives x) (hkept : Kept x) {h : ℕ}
    (hfound : x.recipient c = some h) :
    h = c ∨ ∃ before after, x.closes = before ++ c :: after ∧ 4096 ≤ after.length := by
  have hmem := (hkept.getSessionHandler _ h).mp hfound
  obtain ⟨hvalid, -⟩ := (hkept.sound.known _ h).mp hmem
  cases hc : x.connections[c]? with
  | none =>
    rw [idOf, hc] at hvalid
    exact absurd rfl hvalid
  | some conn =>
    by_cases hopen : conn.handler.sessionId = 0
    · right
      obtain ⟨before, after, hcloses⟩ := List.append_of_mem (hx.closed c conn hc hopen)
      refine ⟨before, after, hcloses, ?_⟩
      by_contra hfew
      have hkeeps := hx.keeps
      rw [hcloses, List.map_append, List.map_cons] at hkeeps
      have hpool := hkeeps.mem (by simpa using hfew)
      have hids : x.idOf c ∈ x.manager.ids := List.mem_map_of_mem hmem
      exact List.disjoint_of_nodup_append hkept.sound.issued.nodup hpool hids
    · exact .inl ((hkept.recipient hc hfound).mpr hopen)

/-! ## Events that have nothing to do with what is received -/

def Alike (conn new : Connection σ M) : Prop :=
  new.parsed = conn.parsed ∧ new.session = conn.session ∧ new.id = conn.id ∧
    new.handler.sessionId = conn.handler.sessionId ∧
    new.handler.sessionThreadId = conn.handler.sessionThreadId

structure Apart (x y : Threads σ M) : Prop where
  same : y.manager = x.manager ∧ y.calls = x.calls ∧ y.closes = x.closes
  way : ∀ c, onTheWay c y.mainTasks = onTheWay c x.mainTasks
  pending : ∀ k, (y.sessionThread k).pending = (x.sessionThread k).pending
  tasks : ∀ k c, .packMessageList c ∈ (x.sessionThread k).tasks →
    .packMessageList c ∈ (y.sessionThread k).tasks
  connections : ∀ c : ℕ, Option.Rel Alike x.connections[c]? y.connections[c]?

theorem alike_refl (conn : Connection σ M) : Alike conn conn := ⟨rfl, rfl, rfl, rfl, rfl⟩

theorem rel_refl (x : Threads σ M) (c : ℕ) : Option.Rel Alike x.connections[c]? x.connections[c]? := by
  cases x.connections[c]? with
  | none => exact .none
  | some conn => exact .some (alike_refl conn)

theorem rel_onConnection (x : Threads σ M) (c : ℕ) {f : Connection σ M → Connection σ M}
    (hf : ∀ conn, Alike conn (f conn)) (d : ℕ) :
    Option.Rel Alike x.connections[d]? (x.onConnection c f).connections[d]? := by
  rw [onConnection, List.getElem?_modify]
  cases x.connections[d]? with
  | none => exact .none
  | some conn =>
    refine .some ?_
    split
    · exact hf conn
    · exact alike_refl conn

theorem Apart.trans {z : Threads σ M} (h : Apart x y) (h' : Apart y z) : Apart x z := by
  refine ⟨⟨h'.same.1.trans h.same.1, h'.same.2.1.trans h.same.2.1, h'.same.2.2.trans h.same.2.2⟩,
    fun c => (h'.way c).trans (h.way c), fun k => (h'.pending k).trans (h.pending k),
    fun k c hmem => h'.tasks k c (h.tasks k c hmem), fun c => ?_⟩
  have hxy := h.connections c
  have hyz := h'.connections c
  generalize x.connections[c]? = a at hxy
  generalize y.connections[c]? = b at hxy hyz
  generalize z.connections[c]? = e at hyz
  cases hxy with
  | none => exact hyz
  | some hab =>
    cases hyz with
    | some hbe =>
      obtain ⟨hp, hs, hi, hid, ht⟩ := hab
      obtain ⟨hp', hs', hi', hid', ht'⟩ := hbe
      exact .some ⟨hp'.trans hp, hs'.trans hs, hi'.trans hi, hid'.trans hid, ht'.trans ht⟩

theorem Apart.old (h : Apart x y) {new : Connection σ M} (hc : y.connections[c]? = some new) :
    ∃ conn, x.connections[c]? = some conn ∧ Alike conn new := by
  have hrel := h.connections c
  rw [hc] at hrel
  generalize x.connections[c]? = a at hrel ⊢
  cases hrel with
  | some halike => exact ⟨_, rfl, halike⟩

theorem Apart.new (h : Apart x y) (hc : x.connections[c]? = some conn) :
    ∃ new, y.connections[c]? = some new ∧ Alike conn new := by
  have hrel := h.connections c
  rw [hc] at hrel
  generalize y.connections[c]? = a at hrel ⊢
  cases hrel with
  | some halike => exact ⟨_, rfl, halike⟩

theorem Apart.absent (h : Apart x y) (hnone : y.connections[c]? = none) : x.connections[c]? = none := by
  have hrel := h.connections c
  rw [hnone] at hrel
  generalize x.connections[c]? = a at hrel ⊢
  cases hrel
  rfl

theorem Apart.idOf (h : Apart x y) : y.idOf = x.idOf := by
  refine funext fun c => ?_
  cases hc : x.connections[c]? with
  | some conn =>
    obtain ⟨new, hnew, -, -, hid, -⟩ := h.new hc
    rw [idOf_eq hc, idOf_eq hnew, hid]
  | none =>
    have hrel := h.connections c
    rw [hc] at hrel
    have hnone : y.connections[c]? = none := by
      generalize y.connections[c]? = a at hrel ⊢
      cases hrel
      rfl
    rw [Threads.idOf, Threads.idOf, hc, hnone]

theorem Receives.apart (hx : Receives x) (h : Apart x y) : Receives y := by
  obtain ⟨hmanager, hcalls, hcloses⟩ := h.same
  refine ⟨fun c new hnew => ?_, ?_, fun c hmem => ?_, fun c new hnew hzero => ?_,
    fun c hnone => ?_⟩
  · obtain ⟨conn, hc, hparsed, hsession, -, hid, hthread⟩ := h.old hnew
    have hin := hx.incoming c conn hc
    refine ⟨?_, fun hopen => ?_, ?_⟩
    · rw [hcalls, hparsed]
      exact hin.told
    · rw [hcalls, hparsed, hsession, hthread, h.way, h.pending]
      exact hin.inOrder (hid ▸ hopen)
    · rw [hsession]
      exact hin.timerless
  · rw [hmanager, hcloses, h.idOf]
    exact hx.keeps
  · rw [hcloses] at hmem
    obtain ⟨conn, hc, hzero⟩ := hx.closes c hmem
    obtain ⟨new, hnew, -, -, -, hid, -⟩ := h.new hc
    exact ⟨new, hnew, hid.trans hzero⟩
  · obtain ⟨conn, hc, -, -, -, hid, -⟩ := h.old hnew
    rw [hcloses]
    exact hx.closed c conn hc (hid ▸ hzero)
  · rw [hcalls, h.way]
    exact hx.absent c (h.absent hnone)

theorem Awaited.apart (hx : Awaited x c) (h : Apart x y) : Awaited y c := by
  intro new hnew hne
  obtain ⟨conn, hc, -, hsession, -, -, hthread⟩ := h.old hnew
  rw [hsession] at hne
  rw [hthread, h.pending]
  exact (hx conn hc hne).imp_left (h.tasks _ c)

theorem onTheWay_append (c : ℕ) (tasks more : List (MainTask M)) :
    onTheWay c (tasks ++ more) = onTheWay c tasks ++ onTheWay c more := List.flatMap_append

theorem apart_onConnection (x : Threads σ M) (c : ℕ) {f : Connection σ M → Connection σ M}
    (hf : ∀ conn, Alike conn (f conn)) : Apart x (x.onConnection c f) :=
  ⟨⟨rfl, rfl, rfl⟩, fun _ => rfl, fun _ => rfl, fun _ _ => id, rel_onConnection x c hf⟩

theorem apart_postMain (x : Threads σ M) (h : ℕ) : Apart x (x.postMain (.packMessageList h)) := by
  refine ⟨⟨rfl, rfl, rfl⟩, fun c => ?_, fun _ => rfl, fun _ _ => id, rel_refl x⟩
  rw [postMain, onTheWay_append]
  exact List.append_nil _

theorem apart_postSession (x : Threads σ M) (k : ℕ) (task : SessionTask M) :
    Apart x (x.postSession k task) := by
  refine ⟨⟨rfl, rfl, rfl⟩, fun _ => rfl, fun j => ?_, fun j c hmem => ?_, rel_refl x⟩
  · obtain rfl | hne := eq_or_ne j k
    · rw [postSession, sessionThread_self]
    · rw [postSession, sessionThread_ne x _ hne]
  · obtain rfl | hne := eq_or_ne j k
    · rw [postSession, sessionThread_self]
      exact List.mem_append_left _ hmem
    · rwa [postSession, sessionThread_ne x _ hne]

theorem apart_refl (x : Threads σ M) : Apart x x :=
  ⟨⟨rfl, rfl, rfl⟩, fun _ => rfl, fun _ => rfl, fun _ _ => id, rel_refl x⟩

theorem apart_packMessageList (x : Threads σ M) (h : ℕ) : Apart x (x.packMessageList h) := by
  unfold packMessageList
  split
  · exact apart_refl x
  split
  · exact apart_refl x
  · refine Apart.trans (apart_onConnection x h fun conn => ?_) (apart_postSession _ _ _)
    exact ⟨rfl, rfl, rfl, rfl, rfl⟩

theorem apart_send (x : Threads σ M) (h : ℕ) (message : M) : Apart x (x.send empty h message) := by
  unfold send
  split
  · exact apart_refl x
  split
  · exact apart_refl x
  dsimp only
  split
  · refine Apart.trans (apart_onConnection x h fun conn => ?_) (apart_postMain _ h)
    exact ⟨rfl, rfl, rfl, rfl, rfl⟩
  · refine apart_onConnection x h fun conn => ?_
    exact ⟨rfl, rfl, rfl, rfl, rfl⟩

theorem apart_close (x : Threads σ M) (h : ℕ) : Apart x (x.close h) := by
  unfold close
  split
  · exact apart_refl x
  split
  · exact apart_refl x
  · refine Apart.trans ?_ (apart_postSession _ _ _)
    refine Apart.trans (apart_onConnection x h fun conn => ?_) (apart_packMessageList _ h)
    exact ⟨rfl, rfl, rfl, rfl, rfl⟩

theorem apart_popTask {task : SessionTask M} {rest : List (SessionTask M)}
    (htasks : (x.sessionThread k).tasks = task :: rest) (htask : ∀ c, task ≠ .packMessageList c) :
    Apart x (x.onThread k fun t => { t with tasks := rest }) := by
  refine ⟨⟨rfl, rfl, rfl⟩, fun _ => rfl, fun j => ?_, fun j c hmem => ?_, rel_refl x⟩
  · obtain rfl | hne := eq_or_ne j k
    · rw [sessionThread_self]
    · rw [sessionThread_ne x _ hne]
  · rw [tasks_popTask]
    split
    · next hk =>
      rw [hk, htasks, List.mem_cons] at hmem
      exact hmem.resolve_left fun heq => htask c heq.symm
    · exact hmem

theorem none_onConnection {f : Connection σ M → Connection σ M}
    (hnone : (x.onConnection c f).connections[d]? = none) : x.connections[d]? = none := by
  rw [onConnection, List.getElem?_modify, Option.map_eq_map, Option.map_eq_none_iff] at hnone
  exact hnone

/-! ## The sessions and the main thread -/

theorem inHand_effects (c d : ℕ) (effects : List (Effect M)) :
    inHand d (effects.map (c, ·)) =
      if c = d then inHand c (effects.map (c, ·)) else [] := by
  split
  · next heq => rw [heq]
  · next hne =>
    refine List.flatMap_eq_nil_iff.mpr fun p hmem => ?_
    obtain ⟨effect, -, rfl⟩ := List.mem_map.mp hmem
    cases effect with
    | sendMessageListToHandler messages => exact if_neg hne
    | _ => rfl

theorem inHand_packed (c : ℕ) (messages : List M) :
    inHand c ((TCPSession.packed messages).map (c, ·)) = messages := by
  cases messages with
  | nil => rfl
  | cons message messages => simp [TCPSession.packed, inHand, handed]

theorem receiveDelay_step {s t : TCPSession σ M} {e : Eddy.SessionEvent M} (ht : s.step F e = some t)
    (hdelay : ∀ delay, e ≠ .setReceiveDelay delay) : t.receiveDelay = s.receiveDelay := by
  have hclose : ∀ u : TCPSession σ M, u.handleClose.receiveDelay = u.receiveDelay := by
    intro u
    obtain ⟨-, heq⟩ | ⟨-, heq⟩ := TCPSession.handleClose_cases u
    all_goals rw [heq]
  have hread : ∀ u : TCPSession σ M, (u.startRead F).receiveDelay = u.receiveDelay := by
    intro u
    obtain ⟨-, heq⟩ | ⟨-, reading, heq⟩ := TCPSession.startRead_cases F u
    all_goals rw [heq]
  cases e with
  | close =>
    rw [← Option.some.inj ht]
    unfold TCPSession.close
    split
    · rfl
    · exact hclose _
  | postMessageList messages =>
    obtain rfl | ⟨-, ⟨left, rfl⟩ | ⟨f, buffer, ⟨-, rfl⟩ | ⟨-, rfl⟩⟩⟩ :=
      TCPSession.postMessageList_cases ht
    all_goals rfl
  | handleRead reading error data =>
    obtain ⟨-, ⟨-, rfl⟩ | ⟨-, hreceive⟩⟩ := TCPSession.step_handleRead_cases ht
    · exact hclose _
    · rw [TCPSession.receive_cases hreceive, hread]
      rfl
  | handleWrite buffer error =>
    obtain ⟨-, ⟨-, rfl⟩ | ⟨-, hnext⟩⟩ := TCPSession.step_handleWrite_cases ht
    · exact hclose _
    obtain ⟨-, f, left, next, rfl⟩ | ⟨-, rfl⟩ := TCPSession.sendNext_cases hnext
    · rfl
    · split
      · exact hclose _
      · rfl
  | packMessageList => rw [← Option.some.inj ht, TCPSession.packMessageList_eq]
  | setReceiveDelay delay => exact absurd rfl (hdelay delay)

theorem handed_step {s t : TCPSession σ M} {e : Eddy.SessionEvent M} (hcounted : s.HandlersCounted)
    (heffects : s.effects = []) (hdelay : s.receiveDelay = false) (ht : s.step F e = some t)
    (c : ℕ) : inHand c (t.effects.map (c, ·)) ++ t.messagesReceived =
      s.messagesReceived ++ Eddy.Server.parses F s e ∧
    (t.messagesReceived ≠ [] →
      e ≠ .packMessageList ∧ s.messagesReceived ≠ [] ∨ .packMessageList ∈ t.effects) := by
  by_cases hpack : e = .packMessageList
  · subst hpack
    obtain rfl := Option.some.inj ht
    rw [TCPSession.packMessageList_eq, heffects]
    refine ⟨?_, fun hne => absurd rfl hne⟩
    rw [List.nil_append, inHand_packed]
    rfl
  obtain ⟨hreceived, -, hadds⟩ | ⟨⟨-, hparses⟩, hnone, -, hends⟩ :=
    TCPSession.step_reports hcounted hpack ht
  · rw [hadds, heffects, List.nil_append, hreceived, hdelay]
    constructor
    · have hnothing : inHand c ((TCPSession.arrival false s.messagesReceived
          (Eddy.Server.parses F s e)).map (c, ·)) = [] := by
        unfold TCPSession.arrival
        split
        · rfl
        · rfl
      rw [hnothing, List.nil_append]
    · intro hne
      by_cases hold : s.messagesReceived = []
      · right
        have hnew : Eddy.Server.parses F s e ≠ [] := by
          rintro heq
          rw [hold, heq] at hne
          exact hne rfl
        rw [TCPSession.arrival, if_pos ⟨hold, hnew⟩]
        exact List.mem_cons_self
      · exact .inl ⟨hpack, hold⟩
  · rw [hends, heffects, hnone, hparses]
    refine ⟨?_, fun hne => absurd rfl hne⟩
    rw [List.append_nil, List.append_nil]
    exact inHand_packed c s.messagesReceived

theorem Receives.sessionStep {e : Eddy.SessionEvent M} (hx : Receives x)
    (hcounts : ∀ conn : Connection σ M, x.connections[c]? = some conn →
      conn.session.HandlersCounted ∧ conn.session.effects = [])
    (hdelay : ∀ delay, e ≠ .setReceiveDelay delay) (hthread : OnThread x k c)
    (hidle : (x.sessionThread k).pending = []) (hy : x.sessionStep F k c e = some y) :
    Receives y ∧ ((e ≠ .packMessageList → Awaited x c) → Awaited y c) ∧
      ∀ d, d ≠ c → Awaited x d → Awaited y d := by
  obtain ⟨conn, t, hc, ht, rfl⟩ := sessionStep_cases hy
  obtain ⟨hcounted, heffects⟩ := hcounts conn hc
  obtain ⟨conn', hc', hk⟩ := hthread
  obtain rfl := Option.some.inj (hc.symm.trans hc')
  have hin := hx.incoming c conn hc
  obtain ⟨hall, hposts⟩ := handed_step hcounted heffects hin.timerless ht c
  set f : Connection σ M → Connection σ M := fun connection => { connection with
    session := { t with effects := [] }
    parsed := connection.parsed ++ Eddy.Server.parses F connection.session e } with hf
  set g : SessionThread M → SessionThread M := fun th => { th with
    pending := t.effects.map (c, ·)
    sessionQueue := if t.tornDown = conn.session.tornDown then th.sessionQueue
      else th.sessionQueue.filter (·.1 ≠ conn.id) } with hg
  set z := (x.onConnection c f).onThread k g with hz
  have hself : z.sessionThread k = g (x.sessionThread k) := sessionThread_self ..
  have hother : ∀ {j}, j ≠ k → z.sessionThread j = x.sessionThread j := fun hne =>
    sessionThread_ne _ _ hne
  have hidOf : z.idOf = x.idOf := by
    refine funext fun d => ?_
    obtain rfl | hne := eq_or_ne d c
    · have hthere : z.connections[d]? = some (f conn) := getElem?_modify_self hc
      exact (idOf_eq hthere).trans (idOf_eq hc).symm
    · exact congrArg (fun o => Option.elim o kInvalidTCPSessionId Connection.id)
        (List.getElem?_modify_ne f x.connections hne.symm)
  -- other sessions of the thread have nothing in hand, before and after
  have hhand : ∀ d, d ≠ c → ∀ j, inHand d (z.sessionThread j).pending =
      inHand d (x.sessionThread j).pending := by
    intro d hne j
    obtain rfl | hj := eq_or_ne j k
    · rw [hself, hidle]
      exact (inHand_effects c d t.effects).trans (if_neg hne.symm)
    · rw [hother hj]
  refine ⟨⟨fun d new hnew => ?_, ?_, fun d hmem => ?_, fun d new hnew hzero => ?_,
    fun d hnone => hx.absent d (none_onConnection hnone)⟩, ?_, ?_⟩
  · obtain ⟨hne, hold⟩ | ⟨rfl, old, hold, rfl⟩ := getElem?_onConnection x hnew
    · have hd := hx.incoming d new hold
      refine ⟨hd.told, fun hopen => ?_, hd.timerless⟩
      rw [hhand d hne]
      exact hd.inOrder hopen
    · obtain rfl := Option.some.inj (hc.symm.trans hold)
      refine ⟨hin.told.trans (List.prefix_append _ _), fun hopen => ?_, ?_⟩
      · have hbefore := hin.inOrder hopen
        rw [hk, hidle] at hbefore
        have hpending : (z.sessionThread (f conn).handler.sessionThreadId).pending =
            t.effects.map (d, ·) := by
          have hthread : (f conn).handler.sessionThreadId = k := hk
          rw [hthread, hself]
        rw [hpending, List.append_assoc]
        refine (congrArg (own d x.calls ++ onTheWay d x.mainTasks ++ ·) hall).trans ?_
        rw [← List.append_assoc]
        exact congrArg (· ++ Eddy.Server.parses F conn.session e)
          ((congrArg (· ++ _) (List.append_nil _).symm).trans hbefore)
      · exact (receiveDelay_step ht hdelay).trans hin.timerless
  · rw [hidOf]
    exact hx.keeps
  · obtain ⟨old, hold, hzero⟩ := hx.closes d hmem
    obtain rfl | hne := eq_or_ne d c
    · obtain rfl := Option.some.inj (hc.symm.trans hold)
      exact ⟨f conn, getElem?_modify_self hc, hzero⟩
    · exact ⟨old, (List.getElem?_modify_ne f x.connections hne.symm).trans hold, hzero⟩
  · obtain ⟨-, hold⟩ | ⟨rfl, old, hold, rfl⟩ := getElem?_onConnection x hnew
    · exact hx.closed d new hold hzero
    · exact hx.closed d old hold hzero
  · intro hawaited new hnew hne
    obtain ⟨hcc, -⟩ | ⟨-, old, hold, rfl⟩ := getElem?_onConnection x hnew
    · exact absurd rfl hcc
    obtain rfl := Option.some.inj (hc.symm.trans hold)
    have hthread : (f conn).handler.sessionThreadId = k := hk
    rw [hthread, hself]
    obtain ⟨hpack, hold⟩ | hmem := hposts hne
    · have htask := hawaited hpack conn hc hold
      rw [hk, hidle] at htask
      exact .inl (htask.resolve_right List.not_mem_nil)
    · exact .inr (List.mem_map_of_mem hmem)
  · intro d hne hawaited new hnew hmessages
    obtain ⟨-, hold⟩ | ⟨heq, -⟩ := getElem?_onConnection x hnew
    · have htask := hawaited new hold hmessages
      obtain hj | hj := eq_or_ne new.handler.sessionThreadId k
      · rw [hj, hidle] at htask
        rw [hj, hself]
        exact .inl (htask.resolve_right List.not_mem_nil)
      · rwa [hother hj]
    · exact absurd heq hne

theorem Receives.init {id : UInt32} (hx : Receives x)
    (hopen : ∀ conn : Connection σ M, x.connections[c]? = some conn → conn.id = 0 →
      conn.handler.sessionId ≠ 0) (hy : x.init F k c id = some y) :
    Receives y ∧ ∀ d, Awaited x d → Awaited y d := by
  obtain ⟨conn, hc, hzero, -, rfl⟩ := init_cases hy
  have hvalid := hopen conn hc hzero
  set f : Connection σ M → Connection σ M := fun connection => { connection with
    id := id
    session := connection.session.startRead F } with hf
  set g : SessionThread M → SessionThread M := fun t => { t with
    sessionQueue := t.sessionQueue ++ [(id, c)] } with hg
  set z := (x.onConnection c f).onThread k g with hz
  have hstarted : (conn.session.startRead F).messagesReceived = conn.session.messagesReceived ∧
      (conn.session.startRead F).receiveDelay = conn.session.receiveDelay := by
    obtain ⟨-, heq⟩ | ⟨-, reading, heq⟩ := TCPSession.startRead_cases F conn.session
    all_goals rw [heq]; exact ⟨rfl, rfl⟩
  have hthread : ∀ j, (z.sessionThread j).pending = (x.sessionThread j).pending ∧
      (z.sessionThread j).tasks = (x.sessionThread j).tasks := by
    intro j
    obtain rfl | hne := eq_or_ne j k
    · rw [hz, sessionThread_self]
      exact ⟨rfl, rfl⟩
    · rw [hz, sessionThread_ne _ _ hne]
      exact ⟨rfl, rfl⟩
  have hnot : c ∉ x.closes := by
    intro hmem
    obtain ⟨old, hold, hclosed⟩ := hx.closes c hmem
    obtain rfl := Option.some.inj (hc.symm.trans hold)
    exact hvalid hclosed
  have hids : x.closes.map z.idOf = x.closes.map x.idOf := by
    refine List.map_congr_left fun d hmem => ?_
    have hne : d ≠ c := fun heq => hnot (heq ▸ hmem)
    exact congrArg (fun o => Option.elim o kInvalidTCPSessionId Connection.id)
      (List.getElem?_modify_ne f x.connections hne.symm)
  refine ⟨⟨fun d new hnew => ?_, ?_, fun d hmem => ?_, fun d new hnew hclosed => ?_,
      fun d hnone => hx.absent d (none_onConnection hnone)⟩,
    fun d hawaited new hnew hne => ?_⟩
  · obtain ⟨-, hold⟩ | ⟨rfl, old, hold, rfl⟩ := getElem?_onConnection x hnew
    · have hd := hx.incoming d new hold
      refine ⟨hd.told, fun hopen => ?_, hd.timerless⟩
      rw [(hthread _).1]
      exact hd.inOrder hopen
    · obtain rfl := Option.some.inj (hc.symm.trans hold)
      have hin := hx.incoming d conn hc
      refine ⟨hin.told, fun hopen => ?_, hstarted.2.trans hin.timerless⟩
      rw [(hthread _).1]
      exact (congrArg (_ ++ ·) hstarted.1).trans (hin.inOrder hopen)
  · exact hids.symm ▸ hx.keeps
  · obtain ⟨old, hold, hclosed⟩ := hx.closes d hmem
    have hne : d ≠ c := fun heq => hnot (heq ▸ hmem)
    exact ⟨old, (List.getElem?_modify_ne f x.connections hne.symm).trans hold, hclosed⟩
  · obtain ⟨-, hold⟩ | ⟨rfl, old, hold, rfl⟩ := getElem?_onConnection x hnew
    · exact hx.closed d new hold hclosed
    · exact hx.closed d old hold hclosed
  · rw [(hthread _).1, (hthread _).2]
    obtain ⟨-, hold⟩ | ⟨rfl, old, hold, rfl⟩ := getElem?_onConnection x hnew
    · exact hawaited new hold hne
    · obtain rfl := Option.some.inj (hc.symm.trans hold)
      exact hawaited conn hc fun hnone => hne (hstarted.1.trans hnone)

theorem onTheWay_cons (c : ℕ) (task : MainTask M) (rest : List (MainTask M)) :
    onTheWay c (task :: rest) = task.messagesOf c ++ onTheWay c rest := List.flatMap_cons

theorem Receives.deliver {session : ℕ} {messages : List M} {rest : List (MainTask M)}
    (hx : Receives x) (hkept : Kept x)
    (hmain : x.mainTasks = .sendMessageListToHandler session messages :: rest)
    (hy : executeMain { x with mainTasks := rest } (.sendMessageListToHandler session messages) =
      some y) : Receives y ∧ ∀ d, Awaited x d → Awaited y d := by
  set calls := (x.recipient session).elim x.calls
    fun h => x.calls ++ messages.map fun m => OnMessage.mk h session m with hcalls
  have hafter : y = { x with mainTasks := rest, calls := calls } := by
    rw [← Option.some.inj hy, hcalls]
    have hrecipient : ({ x with mainTasks := rest } : Threads σ M).recipient session =
        x.recipient session := rfl
    rw [hrecipient]
    cases x.recipient session <;> rfl
  -- messages of another session are not for this one's handler
  have hown : ∀ c, c ≠ session → own c calls = own c x.calls := by
    intro c hne
    rw [hcalls]
    cases x.recipient session with
    | none => rfl
    | some h =>
      rw [Option.elim_some, own_append, own_calls, if_neg fun h => hne h.2.symm, List.append_nil]
  subst hafter
  refine ⟨⟨fun c conn hc => ?_, hx.keeps, hx.closes, hx.closed, fun c hnone => ?_⟩, fun d => id⟩
  case refine_2 =>
    obtain ⟨htold, hway⟩ := hx.absent c hnone
    rw [hmain, onTheWay_cons, List.append_eq_nil_iff] at hway
    refine ⟨?_, hway.2⟩
    obtain rfl | hne := eq_or_ne c session
    · have hnothing : messages = [] := (if_pos rfl).symm.trans hway.1
      rw [← htold, hcalls, hnothing]
      cases x.recipient c <;> simp
    · exact (hown c hne).trans htold
  have hin := hx.incoming c conn hc
  obtain rfl | hne := eq_or_ne c session
  · by_cases hopen : conn.handler.sessionId = 0
    · -- the handler has been closed, so another's is found or none
      have hsame : own c calls = own c x.calls := by
        rw [hcalls]
        cases hfound : x.recipient c with
        | none => rfl
        | some h =>
          have hnot : h ≠ c := fun heq => (hkept.recipient hc hfound).mp heq hopen
          rw [Option.elim_some, own_append, own_calls, if_neg fun h => hnot h.1, List.append_nil]
      exact ⟨hsame ▸ hin.told, fun hne => absurd hopen hne, hin.timerless⟩
    · have hall := hin.inOrder hopen
      rw [hmain, onTheWay_cons, MainTask.messagesOf, if_pos rfl, ← List.append_assoc] at hall
      have htold : own c calls = own c x.calls ++ messages := by
        by_cases hid : conn.id = 0
        · -- a session without an id has parsed nothing
          have hparsed := (hkept.fresh c conn hc hid).2.2.2
          have hnothing : messages = [] := by
            rw [hparsed] at hall
            simp only [List.append_eq_nil_iff] at hall
            exact hall.1.1.1.2
          rw [hcalls, hnothing]
          cases x.recipient c <;> simp
        · have hfound := hkept.recipient_self hc hopen hid
          rw [hcalls, hfound, Option.elim_some, own_append, own_calls, if_pos ⟨rfl, rfl⟩]
      refine ⟨?_, fun _ => ?_, hin.timerless⟩
      · rw [htold]
        exact ⟨_, by simpa only [List.append_assoc] using hall⟩
      · rw [htold]
        exact hall
  · have hway : onTheWay c x.mainTasks = onTheWay c rest := by
      rw [hmain, onTheWay_cons, MainTask.messagesOf, if_neg hne.symm, List.nil_append]
    refine ⟨hown c hne ▸ hin.told, fun hopen => ?_, hin.timerless⟩
    have hall := hin.inOrder hopen
    rw [hway] at hall
    rw [hown c hne]
    exact hall

theorem Receives.onSessionClose {id : UInt32} {rest : List (MainTask M)} (hx : Receives x)
    (hkept : Kept x) (hmain : x.mainTasks = .onSessionClose id :: rest)
    (hy : executeMain { x with mainTasks := rest } (.onSessionClose id) = some y) :
    Receives y ∧ ∀ d, Awaited x d → Awaited y d := by
  obtain ⟨-, manager, h, hput, hfound, rfl⟩ := hkept.onSessionClose hmain hy
  have hmem := (hkept.getSessionHandler id h).mp hfound
  obtain ⟨hvalid, n, hn, hid⟩ := (hkept.sound.known id h).mp hmem
  obtain ⟨conn, hc, rfl⟩ := of_names hn
  have hended : id ∈ x.directory.ended := by
    rw [directory, hmain, List.filterMap_cons, MainTask.ended?]
    exact List.mem_cons_self
  obtain ⟨-, e, m, hm, hid', htorn⟩ := hkept.sound.ended.2 id hended
  obtain rfl := hkept.sound.unique hn hm (hid.trans hid'.symm) (hid.symm ▸ hvalid)
  obtain rfl := Option.some.inj (hn.symm.trans hm)
  -- the session is torn down, so the id of the handler is its own
  have hown : x.idOf h = id := by
    rw [idOf_eq hc]
    obtain ⟨-, hzero⟩ | ⟨-, hzero | hsame⟩ := hkept.sound.named h _ hn
    · exact absurd hzero htorn
    · exact absurd (hid.symm.trans hzero) hvalid
    · exact hsame.symm.trans hid
  set f : Connection σ M → Connection σ M := fun c => { c with
    handler := { c.handler with sessionId := kInvalidTCPSessionId } } with hf
  set z : Threads σ M := { x with
    mainTasks := rest, manager := manager, closes := x.closes ++ [h] } with hz
  have hidOf : (z.onConnection h f).idOf = x.idOf := by
    refine funext fun d => ?_
    obtain rfl | hne := eq_or_ne d h
    · have hthere : (z.onConnection d f).connections[d]? = some (f conn) :=
        getElem?_modify_self hc
      exact (idOf_eq hthere).trans (idOf_eq hc).symm
    · exact congrArg (fun o => Option.elim o kInvalidTCPSessionId Connection.id)
        (List.getElem?_modify_ne f x.connections hne.symm)
  have hway : ∀ d, onTheWay d x.mainTasks = onTheWay d rest := by
    intro d
    rw [hmain, onTheWay_cons]
    rfl
  refine ⟨⟨fun d new hnew => ?_, ?_, fun d hmem => ?_, fun d new hnew hclosed => ?_,
      fun d hnone => ?_⟩,
    fun d hawaited new hnew hne => ?_⟩
  · obtain ⟨-, hold⟩ | ⟨rfl, old, hold, rfl⟩ := getElem?_onConnection z hnew
    · have hd := hx.incoming d new hold
      refine ⟨hd.told, fun hopen => ?_, hd.timerless⟩
      exact (hway d) ▸ hd.inOrder hopen
    · have hd := hx.incoming d old hold
      exact ⟨hd.told, fun hopen => absurd rfl hopen, hd.timerless⟩
  · have hkeeps := hx.keeps.put id
    rw [hidOf]
    have hmap : (x.closes ++ [h]).map x.idOf = x.closes.map x.idOf ++ [id] := by
      rw [List.map_append, List.map_singleton, hown]
    have hpool : manager.sessionIdGenerator.pool = x.manager.sessionIdGenerator.pool ++ [id] := by
      rw [← hput]
      rfl
    have hall : Quarantine.Keeps 4096 manager.sessionIdGenerator.pool
        ((x.closes ++ [h]).map x.idOf) := by rwa [hmap, hpool]
    exact hall
  · obtain hmem | heq := List.mem_append.mp hmem
    · obtain ⟨old, hold, hzero⟩ := hx.closes d hmem
      obtain rfl | hne := eq_or_ne d h
      · exact ⟨f old, getElem?_modify_self hold, rfl⟩
      · exact ⟨old, (List.getElem?_modify_ne f x.connections hne.symm).trans hold, hzero⟩
    · obtain rfl := List.mem_singleton.mp heq
      exact ⟨f conn, getElem?_modify_self hc, rfl⟩
  · obtain ⟨-, hold⟩ | ⟨rfl, old, hold, rfl⟩ := getElem?_onConnection z hnew
    · exact List.mem_append_left _ (hx.closed d new hold hclosed)
    · exact List.mem_append_right _ List.mem_cons_self
  · have habsent := hx.absent d (none_onConnection hnone)
    rw [hway] at habsent
    exact habsent
  · obtain ⟨-, hold⟩ | ⟨rfl, old, hold, rfl⟩ := getElem?_onConnection z hnew
    · exact hawaited new hold hne
    · exact hawaited old hold hne

theorem pool_get (g : IDGenerator) (hthreshold : g.threshold = 4096) {ids : List UInt32}
    (h : Quarantine.Keeps 4096 g.pool ids) : Quarantine.Keeps 4096 g.get.2.pool ids := by
  unfold IDGenerator.get
  split
  · next hmany =>
    obtain ⟨id, pool, hpool⟩ := List.exists_cons_of_length_pos (Nat.zero_lt_of_lt hmany)
    rw [hthreshold, hpool] at hmany
    rw [hpool] at h
    have htail : g.pool.tail = pool := by rw [hpool, List.tail_cons]
    exact htail.symm ▸ h.take hmany
  · split <;> exact h

theorem generator_onSessionConnect {m manager : TCPIOThreadManager ℕ} {allowed : Bool} {h : ℕ}
    {id : UInt32} (heq : m.onSessionConnect allowed h = some (some id, manager)) :
    manager.sessionIdGenerator = m.sessionIdGenerator.get.2 := by
  unfold TCPIOThreadManager.onSessionConnect at heq
  split at heq
  · cases heq
  split at heq
  · cases heq
  next sessionId g hget =>
  split at heq
  · cases heq
  · obtain ⟨-, rfl⟩ := Prod.mk.inj (Option.some.inj heq)
    rw [hget]

theorem Receives.onSessionConnect {thread : ℕ} {allowed : Bool} {filter : σ} (hx : Receives x)
    (hkept : Kept x) (hplaced : Placed x) (hawaited : ∀ d, Awaited x d)
    (hy : x.onSessionConnect thread allowed filter = some y) : Receives y ∧ ∀ d, Awaited y d := by
  obtain ⟨given, manager, heq, -, -, -, hgiven⟩ :=
    hkept.sound.issued.onSessionConnect allowed x.connections.length
  have heq' : x.manager.onSessionConnect allowed x.connections.length = some (given, manager) := heq
  rw [Threads.onSessionConnect, heq'] at hy
  cases given with
  | none =>
    obtain rfl := Option.some.inj hy
    exact ⟨hx, hawaited⟩
  | some id =>
    obtain ⟨hvalid, -, -⟩ := hgiven id rfl
    have hpool : Quarantine.Keeps 4096 manager.sessionIdGenerator.pool (x.closes.map x.idOf) := by
      have hthreshold := hkept.sound.issued.threshold
      have hget := pool_get x.manager.sessionIdGenerator hthreshold hx.keeps
      rwa [generator_onSessionConnect heq']
    set conn : Connection σ M :=
      { handler := { sessionId := id, sessionThreadId := thread }
        session := { filter := filter } } with hconn
    set z : Threads σ M := { x with
      manager := manager, connections := x.connections ++ [conn] } with hz
    have hz' : Receives z ∧ ∀ d, Awaited z d := by
      have hnone : x.connections[x.connections.length]? = none :=
        List.getElem?_eq_none (Nat.le_refl _)
      have hold : ∀ d ∈ x.closes, z.idOf d = x.idOf d := by
        intro d hmem
        obtain ⟨old, hd, -⟩ := hx.closes d hmem
        have hd' : z.connections[d]? = some old := getElem?_concat_iff.mpr (.inl hd)
        rw [idOf_eq hd, idOf_eq hd']
      refine ⟨⟨fun c new hnew => ?_, ?_, fun c hmem => ?_, fun c new hnew hzero => ?_,
        fun c hc => ?_⟩, fun d new hnew hne => ?_⟩
      · obtain hc | ⟨rfl, rfl⟩ := getElem?_concat_iff.mp hnew
        · have hin := hx.incoming c new hc
          exact ⟨hin.told, hin.inOrder, hin.timerless⟩
        · obtain ⟨htold, hway⟩ := hx.absent _ hnone
          have hhand : inHand x.connections.length (x.sessionThread thread).pending = [] := by
            refine List.flatMap_eq_nil_iff.mpr fun p hmem => ?_
            obtain ⟨c, effect⟩ := p
            obtain ⟨other, hc, -⟩ := hplaced.pending thread c effect hmem
            cases effect with
            | sendMessageListToHandler messages =>
              refine if_neg ?_
              rintro rfl
              exact absurd (hc.symm.trans hnone) (by simp)
            | _ => rfl
          refine ⟨?_, fun _ => ?_, rfl⟩
          · exact htold ▸ List.nil_prefix
          · change own _ x.calls ++ onTheWay _ x.mainTasks ++ inHand _ _ ++ [] = []
            rw [htold, hway]
            exact (List.append_nil _).trans hhand
      · have hmap : x.closes.map z.idOf = x.closes.map x.idOf := List.map_congr_left hold
        exact hmap.symm ▸ hpool
      · obtain ⟨old, hd, hzero⟩ := hx.closes c hmem
        exact ⟨old, getElem?_concat_iff.mpr (.inl hd), hzero⟩
      · obtain hc | ⟨rfl, rfl⟩ := getElem?_concat_iff.mp hnew
        · exact hx.closed c new hc hzero
        · exact absurd hzero hvalid
      · refine hx.absent c (List.getElem?_eq_none ?_)
        have hlen := List.getElem?_eq_none_iff.mp hc
        rw [List.length_append] at hlen
        exact Nat.le_of_add_right_le hlen
      · obtain hc | ⟨rfl, rfl⟩ := getElem?_concat_iff.mp hnew
        · exact hawaited d new hc hne
        · exact absurd rfl hne
    have hpost := apart_postSession z thread (.init x.connections.length id)
    obtain rfl := Option.some.inj hy
    exact ⟨hz'.1.apart hpost, fun d => (hz'.2 d).apart hpost⟩

theorem Receives.perform {effect : Effect M} {rest : List (ℕ × Effect M)} (hx : Receives x)
    (hplaced : Placed x) (hawaited : ∀ d, Awaited x d)
    (hpending : (x.sessionThread k).pending = (c, effect) :: rest) :
    Receives ((x.onThread k fun t => { t with pending := rest }).perform k c effect) ∧
      ∀ d, Awaited ((x.onThread k fun t => { t with pending := rest }).perform k c effect) d := by
  set z := x.onThread k fun t => { t with pending := rest } with hz
  obtain ⟨owner, howner, hk⟩ := hplaced.pending k c effect (hpending ▸ List.mem_cons_self)
  have hthread : ∀ j, (z.sessionThread j).tasks = (x.sessionThread j).tasks ∧
      (z.sessionThread j).pending = if j = k then rest else (x.sessionThread j).pending := by
    intro j
    obtain rfl | hne := eq_or_ne j k
    · rw [hz, sessionThread_self, if_pos rfl]
      exact ⟨rfl, rfl⟩
    · rw [hz, sessionThread_ne x _ hne, if_neg hne]
      exact ⟨rfl, rfl⟩
  have hhand : ∀ d j, inHand d (x.sessionThread j).pending =
      (if j = k then handed d (c, effect) else []) ++ inHand d (z.sessionThread j).pending := by
    intro d j
    rw [(hthread j).2]
    split
    · next hj => rw [hj, hpending, inHand, List.flatMap_cons, inHand]
    · exact (List.nil_append _).symm
  -- an effect that hands over no messages leaves only its own place
  have hrest : (∀ d, handed d (c, effect) = []) → Receives z := by
    intro hnothing
    refine ⟨fun d conn hd => ?_, hx.keeps, hx.closes, hx.closed, hx.absent⟩
    have hin := hx.incoming d conn hd
    refine ⟨hin.told, fun hopen => ?_, hin.timerless⟩
    have hall := hin.inOrder hopen
    rw [hhand, hnothing, ite_self, List.nil_append] at hall
    exact hall
  have hposted : effect ≠ .packMessageList → ∀ d, Awaited z d := by
    intro hne d conn hd hmessages
    rw [(hthread _).1, (hthread _).2]
    refine (hawaited d conn hd hmessages).imp_right fun hmem => ?_
    split
    · next hj =>
      rw [hj, hpending, List.mem_cons] at hmem
      exact hmem.resolve_left fun heq => hne (Prod.mk.inj heq).2.symm
    · exact hmem
  have hother : (∀ d, handed d (c, effect) = []) → effect ≠ .packMessageList → ∀ task : MainTask M,
      (∀ d, task.messagesOf d = []) → Receives (z.postMain task) ∧
        ∀ d, Awaited (z.postMain task) d := by
    intro hnothing hne task htask
    have hkept := hrest hnothing
    refine ⟨⟨fun d conn hd => ?_, hkept.keeps, hkept.closes, hkept.closed, fun d hd => ?_⟩,
      hposted hne⟩
    · have hin := hkept.incoming d conn hd
      refine ⟨hin.told, fun hopen => ?_, hin.timerless⟩
      rw [postMain, onTheWay_append, onTheWay_cons, htask, onTheWay, onTheWay, List.flatMap_nil,
        List.append_nil, List.append_nil]
      exact hin.inOrder hopen
    · obtain ⟨htold, hway⟩ := hkept.absent d hd
      refine ⟨htold, ?_⟩
      rw [postMain, onTheWay_append, hway, onTheWay_cons, htask]
      rfl
  cases effect with
  | packMessageList =>
    have hnothing : ∀ d, handed d (c, (.packMessageList : Effect M)) = [] := fun _ => rfl
    refine ⟨(hrest hnothing).apart (apart_postSession z k _), fun d conn hd hmessages => ?_⟩
    have htask := hawaited d conn hd hmessages
    have hpend : (((z.perform k c .packMessageList).sessionThread
        conn.handler.sessionThreadId)).pending =
        (z.sessionThread conn.handler.sessionThreadId).pending :=
      (apart_postSession z k _).pending _
    rw [hpend, (hthread _).2]
    have hold : ∀ {j}, .packMessageList d ∈ (x.sessionThread j).tasks →
        .packMessageList d ∈ ((z.perform k c .packMessageList).sessionThread j).tasks := by
      intro j hmem
      exact (apart_postSession z k _).tasks j d ((hthread j).1 ▸ hmem)
    obtain hmem | hmem := htask
    · exact .inl (hold hmem)
    · split
      · next hj =>
        rw [hj, hpending, List.mem_cons] at hmem
        obtain heq | hmem := hmem
        · left
          obtain ⟨rfl, -⟩ := Prod.mk.inj heq
          rw [hj, Threads.perform, postSession, sessionThread_self]
          exact List.mem_append_right _ List.mem_cons_self
        · exact .inr hmem
      · exact .inr hmem
  | onSessionClose => exact hother (fun _ => rfl) (by simp) _ fun _ => rfl
  | startTimer => exact ⟨hrest fun _ => rfl, hposted (by simp)⟩
  | cancelTimer => exact ⟨hrest fun _ => rfl, hposted (by simp)⟩
  | sendMessageListToHandler messages =>
    refine ⟨⟨fun d conn hd => ?_, hx.keeps, hx.closes, hx.closed, fun d hd => ?_⟩,
      hposted (by simp)⟩
    · have hin := hx.incoming d conn hd
      refine ⟨hin.told, fun hopen => ?_, hin.timerless⟩
      have hall := hin.inOrder hopen
      rw [hhand] at hall
      have hmoved : (if conn.handler.sessionThreadId = k then
          handed d (c, .sendMessageListToHandler messages) else []) =
          MainTask.messagesOf d (.sendMessageListToHandler c messages) := by
        by_cases hcd : c = d
        · subst hcd
          obtain rfl := Option.some.inj (howner.symm.trans hd)
          rw [if_pos hk]
          rfl
        · simp [handed, MainTask.messagesOf, hcd]
      rw [hmoved] at hall
      have hway : onTheWay d (z.perform k c (.sendMessageListToHandler messages)).mainTasks =
          onTheWay d x.mainTasks ++
            MainTask.messagesOf d (.sendMessageListToHandler c messages) := by
        rw [Threads.perform, postMain, onTheWay_append, onTheWay_cons]
        exact congrArg _ (List.append_nil _)
      rw [hway]
      simp only [List.append_assoc] at hall ⊢
      exact hall
    · obtain ⟨htold, hway⟩ := hx.absent d hd
      refine ⟨htold, ?_⟩
      have hne : c ≠ d := by
        rintro rfl
        exact absurd (howner.symm.trans hd) (by simp)
      rw [Threads.perform, postMain, onTheWay_append, onTheWay_cons, MainTask.messagesOf,
        if_neg hne]
      exact (congrArg (· ++ _) hway).trans rfl

/-! ## Every event -/

theorem Receives.popMain {h : ℕ} {rest : List (MainTask M)} (hx : Receives x)
    (hawaited : ∀ d, Awaited x d) (hmain : x.mainTasks = .packMessageList h :: rest) :
    Receives (({ x with mainTasks := rest } : Threads σ M).packMessageList h) ∧
      ∀ d, Awaited (({ x with mainTasks := rest } : Threads σ M).packMessageList h) d := by
  have hpop : Apart x { x with mainTasks := rest } := by
    refine ⟨⟨rfl, rfl, rfl⟩, fun c => ?_, fun _ => rfl, fun _ _ => id, rel_refl x⟩
    rw [hmain, onTheWay_cons]
    rfl
  have hpack := hpop.trans (apart_packMessageList _ h)
  exact ⟨hx.apart hpack, fun d => (hawaited d).apart hpack⟩

theorem Receives.execute {task : SessionTask M} {rest : List (SessionTask M)} (hx : Receives x)
    (hkept : Kept x) (hplaced : Placed x) (hawaited : ∀ d, Awaited x d)
    (hidle : (x.sessionThread k).pending = []) (htasks : (x.sessionThread k).tasks = task :: rest)
    (hy : (x.onThread k fun t => { t with tasks := rest }).execute F k task = some y) :
    Receives y ∧ ∀ d, Awaited y d := by
  set z := x.onThread k fun t => { t with tasks := rest } with hz
  have hidle' : (z.sessionThread k).pending = [] := by
    rw [hz, sessionThread_self]
    exact hidle
  have hqueue : ∀ id, z.getSession k id = x.getSession k id := by
    intro id
    rw [Threads.getSession, hz, sessionThread_self]
    rfl
  -- a session that is found takes a step in a state that differs in no way that matters
  have hstep : ∀ (w : Threads σ M) (c : ℕ) (conn : Connection σ M) (e : Eddy.SessionEvent M),
      Apart x w → (w.sessionThread k).pending = [] → x.connections[c]? = some conn →
      conn.handler.sessionThreadId = k → e ≠ .packMessageList →
      (∀ delay, e ≠ .setReceiveDelay delay) → w.sessionStep F k c e = some y →
      Receives y ∧ ∀ d, Awaited y d := by
    intro w c conn e hapart hnone hc hk hpack hdelay hy
    obtain ⟨new, hnew, -, -, -, -, hthread⟩ := hapart.new hc
    have hcounts : ∀ conn : Connection σ M, w.connections[c]? = some conn →
        conn.session.HandlersCounted ∧ conn.session.effects = [] := by
      intro other hother
      obtain ⟨old, hold, -, hsession, -⟩ := hapart.old hother
      rw [hsession]
      exact hkept.counted c old hold
    obtain ⟨hreceives, hself, hothers⟩ := (hx.apart hapart).sessionStep hcounts hdelay
      ⟨new, hnew, hthread.trans hk⟩ hnone hy
    refine ⟨hreceives, fun d => ?_⟩
    obtain rfl | hne := eq_or_ne d c
    · exact hself fun _ => (hawaited d).apart hapart
    · exact hothers d hne ((hawaited d).apart hapart)
  cases task with
  | init c id =>
    have hapart := apart_popTask htasks (by simp)
    have hopen : ∀ conn : Connection σ M, x.connections[c]? = some conn → conn.id = 0 →
        conn.handler.sessionId ≠ 0 := by
      intro conn hc hzero
      obtain ⟨-, htorn⟩ | ⟨hid, -⟩ := hkept.sound.named c _ (names_of hc)
      · exact hkept.sound.standing c _ (names_of hc) htorn
      · exact absurd hzero hid
    obtain ⟨hreceives, hall⟩ := (hx.apart hapart).init hopen hy
    exact ⟨hreceives, fun d => hall d ((hawaited d).apart hapart)⟩
  | packMessageList c =>
    have hthread := hplaced.tasks k c (htasks ▸ List.mem_cons_self)
    have hreceives : Receives z := by
      refine ⟨fun d conn hd => ?_, hx.keeps, hx.closes, hx.closed, hx.absent⟩
      have hin := hx.incoming d conn hd
      refine ⟨hin.told, fun hopen => ?_, hin.timerless⟩
      have hpending : (z.sessionThread conn.handler.sessionThreadId).pending =
          (x.sessionThread conn.handler.sessionThreadId).pending := by
        obtain hj | hne := eq_or_ne conn.handler.sessionThreadId k
        · rw [hj, hz, sessionThread_self]
        · rw [hz, sessionThread_ne x _ hne]
      rw [hpending]
      exact hin.inOrder hopen
    obtain ⟨hreceives', hself, hothers⟩ := hreceives.sessionStep (hkept.counted c) (by simp)
      hthread hidle' hy
    refine ⟨hreceives', fun d => ?_⟩
    obtain rfl | hne := eq_or_ne d c
    · exact hself fun heq => absurd rfl heq
    · refine hothers d hne fun conn hd hmessages => ?_
      obtain hj | hj := eq_or_ne conn.handler.sessionThreadId k
      · have htask := hawaited d conn hd hmessages
        rw [hj, hidle, htasks, List.mem_cons] at htask
        rw [hj, hidle', hz, sessionThread_self]
        refine htask.imp_left fun hmem => hmem.resolve_left ?_
        rintro ⟨⟩
        exact hne rfl
      · have htask := hawaited d conn hd hmessages
        rwa [hz, sessionThread_ne x _ hj]
  | sendMessageListToSession id messages sender =>
    have hapart := apart_popTask htasks (by simp)
    simp only [Threads.execute, hqueue] at hy
    obtain ⟨hnone, -⟩ | ⟨conn, hsome, hc, hk, -⟩ := hkept.letter htasks rfl
    · simp only [hnone] at hy
      exact Option.some.inj hy ▸ ⟨hx.apart hapart, fun d => (hawaited d).apart hapart⟩
    · simp only [hsome] at hy
      refine hstep _ sender conn _ (hapart.trans (apart_onConnection z sender fun conn => ?_))
        hidle' hc hk (by simp) (by simp) hy
      exact ⟨rfl, rfl, rfl, rfl, rfl⟩
  | closeSession id sender =>
    have hapart := apart_popTask htasks (by simp)
    simp only [Threads.execute, hqueue] at hy
    obtain ⟨hnone, -⟩ | ⟨conn, hsome, hc, hk, -⟩ := hkept.letter htasks rfl
    · simp only [hnone] at hy
      exact Option.some.inj hy ▸ ⟨hx.apart hapart, fun d => (hawaited d).apart hapart⟩
    · simp only [hsome] at hy
      exact hstep z sender conn _ hapart hidle' hc hk (by simp) (by simp) hy

theorem Receives.complete {e : Eddy.SessionEvent M} (hx : Receives x) (hkept : Kept x)
    (hawaited : ∀ d, Awaited x d) (hdelay : ∀ delay, e ≠ .setReceiveDelay delay)
    (hy : x.complete F c e = some y) : Receives y ∧ ∀ d, Awaited y d := by
  obtain ⟨conn, hc, hy⟩ := Option.bind_eq_some_iff.mp hy
  split at hy
  · next hidle =>
    obtain ⟨hreceives, hself, hothers⟩ :=
      hx.sessionStep (hkept.counted c) hdelay ⟨conn, hc, rfl⟩ hidle hy
    refine ⟨hreceives, fun d => ?_⟩
    obtain rfl | hne := eq_or_ne d c
    · exact hself fun _ => hawaited d
    · exact hothers d hne (hawaited d)
  · cases hy

theorem receives_step (x : Threads σ M) (e : ThreadsEvent σ M) (y : Threads σ M)
    (hx : (Kept x ∧ Placed x) ∧ Receives x ∧ ∀ d, Awaited x d)
    (hy : x.step F empty e = some y) : (Kept y ∧ Placed y) ∧ Receives y ∧ ∀ d, Awaited y d := by
  obtain ⟨hboth, hreceives, hawaited⟩ := hx
  obtain ⟨hkept, hplaced⟩ := hboth
  refine ⟨kept_step x e y ⟨hkept, hplaced⟩ hy, ?_⟩
  cases e with
  | onSessionConnect thread allowed filter =>
    exact hreceives.onSessionConnect hkept hplaced hawaited hy
  | send handler message =>
    have hapart : Apart x (x.send empty handler message) := apart_send x handler message
    exact Option.some.inj hy ▸ ⟨hreceives.apart hapart, fun d => (hawaited d).apart hapart⟩
  | close handler =>
    have hapart := apart_close x handler
    exact Option.some.inj hy ▸ ⟨hreceives.apart hapart, fun d => (hawaited d).apart hapart⟩
  | runMain =>
    simp only [step] at hy
    split at hy
    · cases hy
    next task rest hmain =>
    cases task with
    | packMessageList h => exact Option.some.inj hy ▸ hreceives.popMain hawaited hmain
    | onSessionClose id =>
      obtain ⟨hafter, hall⟩ := hreceives.onSessionClose hkept hmain hy
      exact ⟨hafter, fun d => hall d (hawaited d)⟩
    | sendMessageListToHandler session messages =>
      obtain ⟨hafter, hall⟩ := hreceives.deliver hkept hmain hy
      exact ⟨hafter, fun d => hall d (hawaited d)⟩
  | runSession k =>
    simp only [step] at hy
    split at hy
    · next task rest hidle htasks =>
      exact hreceives.execute hkept hplaced hawaited hidle htasks hy
    · cases hy
  | perform k =>
    simp only [step] at hy
    split at hy
    · cases hy
    · next c effect rest hpending =>
      exact Option.some.inj hy ▸ hreceives.perform hplaced hawaited hpending
  | read c reading error data =>
    exact hreceives.complete hkept hawaited (by simp) hy
  | written c buffer error =>
    exact hreceives.complete hkept hawaited (by simp) hy

/-- A handler is told what its session has parsed, in order and from the first message on, and
all of it while it is there and nothing is left to do. A session finds its own handler or none,
unless 4096 others have ended since its own end. -/
def TellsOwn (x : Threads σ M) : Prop :=
  (∀ (c : ℕ) (conn : Connection σ M), x.connections[c]? = some conn →
    own c x.calls <+: conn.parsed ∧
    (conn.handler.sessionId ≠ kInvalidTCPSessionId → x.mainTasks = [] →
      (x.sessionThread conn.handler.sessionThreadId).tasks = [] →
      (x.sessionThread conn.handler.sessionThreadId).pending = [] →
      own c x.calls = conn.parsed)) ∧
  ∀ c h, x.recipient c = some h →
    h = c ∨ ∃ before after, x.closes = before ++ c :: after ∧ 4096 ≤ after.length

theorem Receives.tellsOwn (hx : Receives x) (hkept : Kept x) (hawaited : ∀ d, Awaited x d) :
    TellsOwn x := by
  refine ⟨fun c conn hc => ?_, fun c h hfound => hx.recycled hkept hfound⟩
  have hin := hx.incoming c conn hc
  refine ⟨hin.told, fun hopen hmain htasks hpending => ?_⟩
  have hall := hin.inOrder hopen
  have hnone : conn.session.messagesReceived = [] := by
    by_contra hne
    have htask := hawaited c conn hc hne
    rw [htasks, hpending] at htask
    exact htask.elim List.not_mem_nil List.not_mem_nil
  rwa [hmain, hpending, hnone, List.append_nil, onTheWay, inHand, List.flatMap_nil,
    List.flatMap_nil, List.append_nil, List.append_nil] at hall

theorem tells_own (F : NetMessageFilter σ M) (empty : M → Bool)
    (events : List (ThreadsEvent σ M)) :
    Run.Always (step F empty) TellsOwn ({} : Threads σ M) events := by
  have hinit : Receives ({} : Threads σ M) ∧ ∀ d, Awaited ({} : Threads σ M) d := by
    refine ⟨⟨fun c conn hc => ?_, Quarantine.keeps_nil 4096, fun c hmem => ?_,
      fun c conn hc => ?_, fun c _ => ⟨rfl, rfl⟩⟩, fun d conn hd => ?_⟩
    · simp at hc
    · exact absurd hmem List.not_mem_nil
    · simp at hc
    · simp at hd
  exact (Run.always_of_invariant receives_step ⟨kept_init, hinit⟩ events).mono
    fun x hx => hx.2.1.tellsOwn hx.1.1 hx.2.2

end Threads

end IceBridge.Gateway
