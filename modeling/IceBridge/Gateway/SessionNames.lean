import IceBridge.Gateway.Directory
import IceBridge.Gateway.SessionThreads

/-! The names in the threads of the gateway. Whatever the threads do, their queues, their waiting
tasks and the handlers of the main thread agree about who has which id. -/

namespace IceBridge.Gateway
open Eddy (TCPSession Effect NetMessageFilter)
variable {σ M : Type}

/-! ## The names in the threads -/

def SessionTask.command? : SessionTask M → Option (Postbox.Command UInt32 ℕ)
  | .init session id => some (.bind id session)
  | .sendMessageListToSession id _ sender | .closeSession id sender => some (.letter id sender)
  | .packMessageList _ => none

def MainTask.ended? : MainTask M → Option UInt32
  | .onSessionClose id => some id
  | .packMessageList _ | .sendMessageListToHandler .. => none

def closing? : ℕ × Effect M → Option ℕ
  | (c, .onSessionClose) => some c
  | _ => none

def Connection.names (c : Connection σ M) : Names :=
  { thread := c.handler.sessionThreadId, sessionId := c.handler.sessionId, id := c.id
    tornDown := c.session.tornDown }

namespace Threads

def directory (x : Threads σ M) : Directory :=
  { manager := x.manager
    names := x.connections.map Connection.names
    queue := fun k => (x.sessionThread k).sessionQueue
    commands := fun k => (x.sessionThread k).tasks.filterMap SessionTask.command?
    closing := fun k => (x.sessionThread k).pending.filterMap closing?
    ended := x.mainTasks.filterMap MainTask.ended? }

variable {x y : Threads σ M} {F : NetMessageFilter σ M} {empty : M → Bool} {c k : ℕ}
  {conn : Connection σ M}

theorem names_of (hc : x.connections[c]? = some conn) : x.directory.names[c]? = some conn.names := by
  rw [directory, List.getElem?_map, hc, Option.map_some]

theorem of_names {n : Names} (h : x.directory.names[c]? = some n) :
    ∃ conn, x.connections[c]? = some conn ∧ n = conn.names := by
  rw [directory, List.getElem?_map, Option.map_eq_some_iff] at h
  obtain ⟨conn, hc, rfl⟩ := h
  exact ⟨conn, hc, rfl⟩

theorem map_modify {α β : Type} {l : List α} {f : α → α} {g : α → β} {f' : β → β} {a : α} {i : ℕ}
    (ha : l[i]? = some a) (h : g (f a) = f' (g a)) :
    (l.modify i f).map g = (l.map g).modify i f' := by
  refine List.ext_getElem? fun j => ?_
  rw [List.getElem?_map]
  obtain rfl | hne := eq_or_ne j i
  · have hb : (l.map g)[j]? = some (g a) := by rw [List.getElem?_map, ha, Option.map_some]
    rw [getElem?_modify_self ha, getElem?_modify_self hb, Option.map_some, h]
  · rw [List.getElem?_modify_ne _ _ hne.symm, List.getElem?_modify_ne _ _ hne.symm,
      List.getElem?_map]

theorem directory_onConnection (hc : x.connections[c]? = some conn)
    {f : Connection σ M → Connection σ M} (hf : (f conn).names = conn.names) :
    (x.onConnection c f).directory = x.directory := by
  have hsame : (x.connections.modify c f).map Connection.names =
      (x.connections.map Connection.names).modify c id := map_modify hc hf
  rw [List.modify_id] at hsame
  unfold directory onConnection
  rw [hsame]

theorem directory_postMain {task : MainTask M} (htask : task.ended? = none) :
    (x.postMain task).directory = x.directory := by
  unfold directory postMain
  simp [List.filterMap_append, htask]

theorem update_comp {α : Type} {f : ℕ → SessionThread M} {g : SessionThread M → α}
    {t : SessionThread M} (k : ℕ) : (fun j => g (Function.update f k t j)) =
      Function.update (fun j => g (f j)) k (g t) := by
  refine funext fun j => ?_
  obtain rfl | hne := eq_or_ne j k
  · rw [Function.update_self, Function.update_self]
  · rw [Function.update_of_ne hne, Function.update_of_ne hne]

theorem directory_onThread (x : Threads σ M) (k : ℕ) (f : SessionThread M → SessionThread M) :
    (x.onThread k f).directory = { x.directory with
      queue := Function.update x.directory.queue k (f (x.sessionThread k)).sessionQueue
      commands := Function.update x.directory.commands k
        ((f (x.sessionThread k)).tasks.filterMap SessionTask.command?)
      closing := Function.update x.directory.closing k
        ((f (x.sessionThread k)).pending.filterMap closing?) } := by
  unfold directory onThread
  rw [← update_comp (g := SessionThread.sessionQueue),
    ← update_comp (g := fun t => t.tasks.filterMap SessionTask.command?),
    ← update_comp (g := fun t => t.pending.filterMap closing?)]

theorem directory_postSession (x : Threads σ M) (k : ℕ) (task : SessionTask M) :
    (x.postSession k task).directory = { x.directory with
      commands := Function.update x.directory.commands k
        (x.directory.commands k ++ task.command?.toList) } := by
  have hcommands : ((x.sessionThread k).tasks ++ [task]).filterMap SessionTask.command? =
      x.directory.commands k ++ task.command?.toList := by
    rw [List.filterMap_append]
    cases htask : task.command? <;> simp [directory, htask]
  have hqueue : (x.sessionThread k).sessionQueue = x.directory.queue k := rfl
  have hclosing : (x.sessionThread k).pending.filterMap closing? = x.directory.closing k := rfl
  rw [postSession, directory_onThread, hcommands, hqueue, hclosing, Function.update_eq_self,
    Function.update_eq_self]

theorem directory_postSession_pack (k c : ℕ) :
    (x.postSession k (.packMessageList c)).directory = x.directory := by
  rw [directory_postSession, SessionTask.command?, Option.toList_none, List.append_nil,
    Function.update_eq_self]

theorem directory_postSession_letter {task : SessionTask M}
    (htask : task.command? = some (.letter conn.handler.sessionId c)) :
    (x.postSession conn.handler.sessionThreadId task).directory =
      x.directory.letter conn.names c := by
  rw [directory_postSession, htask]
  rfl

/-! ## One event -/

structure Kept (x : Threads σ M) : Prop where
  sound : x.directory.Sound
  counted : ∀ (c : ℕ) (conn : Connection σ M), x.connections[c]? = some conn →
    conn.session.HandlersCounted ∧ conn.session.effects = []
  fresh : ∀ (c : ℕ) (conn : Connection σ M), x.connections[c]? = some conn → conn.id = 0 →
    conn.session.reads = [] ∧ conn.session.writes = [] ∧ conn.session.messagesReceived = [] ∧
      conn.parsed = []

theorem forall_onConnection {P : ℕ → Connection σ M → Prop}
    (h : ∀ (c : ℕ) (conn : Connection σ M), x.connections[c]? = some conn → P c conn)
    {f : Connection σ M → Connection σ M}
    (hf : ∀ conn, x.connections[c]? = some conn → P c conn → P c (f conn)) :
    ∀ (e : ℕ) (conn : Connection σ M), (x.onConnection c f).connections[e]? = some conn → P e conn := by
  intro e conn he
  rw [onConnection, List.getElem?_modify, Option.map_eq_map, Option.map_eq_some_iff] at he
  obtain ⟨old, hold, rfl⟩ := he
  split
  · next heq =>
    subst heq
    exact hf old hold (h c old hold)
  · exact h e old hold

theorem directory_packMessageList (x : Threads σ M) (h : ℕ) :
    (x.packMessageList h).directory = x.directory ∨
      ∃ conn, x.connections[h]? = some conn ∧
        (x.packMessageList h).directory = x.directory.letter conn.names h := by
  unfold packMessageList
  split
  · exact .inl rfl
  next conn hc =>
  split
  · exact .inl rfl
  · refine .inr ⟨conn, hc, ?_⟩
    rw [directory_postSession_letter rfl, directory_onConnection hc rfl]

theorem Kept.onHandler (h : Kept x) (hd : y.directory.Sound)
    (hconns : ∀ (e : ℕ) (conn : Connection σ M), y.connections[e]? = some conn →
      ∃ old, x.connections[e]? = some old ∧ conn.session = old.session ∧ conn.id = old.id ∧
        conn.parsed = old.parsed) : Kept y := by
  refine ⟨hd, fun c conn hc => ?_, fun c conn hc hzero => ?_⟩
  · obtain ⟨old, hold, hsession, -⟩ := hconns c conn hc
    rw [hsession]
    exact h.counted c old hold
  · obtain ⟨old, hold, hsession, hid, hparsed⟩ := hconns c conn hc
    rw [hsession, hparsed]
    exact h.fresh c old hold (hid ▸ hzero)

theorem onConnection_old (x : Threads σ M) (h : ℕ) {f : Connection σ M → Connection σ M}
    (hf : ∀ conn, (f conn).session = conn.session ∧ (f conn).id = conn.id ∧
      (f conn).parsed = conn.parsed) (e : ℕ) (conn : Connection σ M)
    (he : (x.onConnection h f).connections[e]? = some conn) :
    ∃ old, x.connections[e]? = some old ∧ conn.session = old.session ∧ conn.id = old.id ∧
      conn.parsed = old.parsed := by
  rw [onConnection, List.getElem?_modify, Option.map_eq_map, Option.map_eq_some_iff] at he
  obtain ⟨old, hold, rfl⟩ := he
  split
  · exact ⟨old, hold, hf old⟩
  · exact ⟨old, hold, rfl, rfl, rfl⟩

theorem packMessageList_old (x : Threads σ M) (h : ℕ) (e : ℕ) (conn : Connection σ M)
    (he : (x.packMessageList h).connections[e]? = some conn) :
    ∃ old, x.connections[e]? = some old ∧ conn.session = old.session ∧ conn.id = old.id ∧
      conn.parsed = old.parsed := by
  unfold packMessageList at he
  split at he
  · exact ⟨conn, he, rfl, rfl, rfl⟩
  split at he
  · exact ⟨conn, he, rfl, rfl, rfl⟩
  · refine onConnection_old x h ?_ e conn he
    exact fun _ => ⟨rfl, rfl, rfl⟩

theorem Kept.packMessageList (hx : Kept x) (h : ℕ) : Kept (x.packMessageList h) := by
  refine hx.onHandler ?_ (packMessageList_old x h)
  obtain heq | ⟨conn, hc, heq⟩ := directory_packMessageList x h
  · rw [heq]
    exact hx.sound
  · rw [heq]
    exact hx.sound.letter (names_of hc)

theorem Kept.send (hx : Kept x) (h : ℕ) (message : M) : Kept (x.send empty h message) := by
  unfold Threads.send
  split
  · exact hx
  next conn hc =>
  split
  · exact hx
  dsimp only
  set f : Connection σ M → Connection σ M := fun c => { c with
    handler := { c.handler with messagesToBeSent := c.handler.messagesToBeSent ++ [message] }
    accepted := c.accepted ++ [message] } with hf
  have hchanged : Kept (x.onConnection h f) := by
    refine hx.onHandler ?_ (onConnection_old x h ?_)
    · rw [directory_onConnection hc rfl]
      exact hx.sound
    · exact fun _ => ⟨rfl, rfl, rfl⟩
  split
  · refine hchanged.onHandler ?_ fun e conn he => ⟨conn, he, rfl, rfl, rfl⟩
    rw [directory_postMain rfl]
    exact hchanged.sound
  · exact hchanged

theorem Kept.close (hx : Kept x) (h : ℕ) : Kept (x.close h) := by
  unfold Threads.close
  split
  · exact hx
  next conn hc =>
  split
  · exact hx
  set z := x.onConnection h fun c => { c with closeAsked := true } with hz
  have hasked : Kept z := by
    refine hx.onHandler ?_ (onConnection_old x h ?_)
    · rw [directory_onConnection hc rfl]
      exact hx.sound
    · exact fun _ => ⟨rfl, rfl, rfl⟩
  have hpacked := hasked.packMessageList h
  refine hpacked.onHandler ?_ fun e conn he => ⟨conn, he, rfl, rfl, rfl⟩
  rw [directory_postSession_letter rfl]
  refine hpacked.sound.letter ?_
  have hnames : (z.packMessageList h).directory.names = x.directory.names := by
    have hsame : z.directory.names = x.directory.names :=
      congrArg Directory.names (directory_onConnection hc rfl)
    obtain heq | ⟨sender, -, heq⟩ := directory_packMessageList z h
    · rw [heq, hsame]
    · rw [heq]
      exact hsame
  rw [hnames]
  exact names_of hc

theorem Kept.onSessionConnect {thread : ℕ} {allowed : Bool} {filter : σ} (hx : Kept x)
    (hy : x.onSessionConnect thread allowed filter = some y) : Kept y := by
  obtain ⟨given, manager, heq, hissued, -, -, hgiven⟩ :=
    hx.sound.issued.onSessionConnect allowed x.connections.length
  have hlen : x.directory.names.length = x.connections.length := List.length_map _
  have heq' : x.manager.onSessionConnect allowed x.connections.length = some (given, manager) := heq
  rw [Threads.onSessionConnect, heq'] at hy
  obtain rfl := Option.some.inj hy
  cases given with
  | none => exact hx
  | some id =>
    obtain ⟨hvalid, hnew, hmap⟩ := hgiven id rfl
    refine ⟨?_, fun c conn hc => ?_, fun c conn hc hzero => ?_⟩
    · have hconnect := hx.sound.connect (k := thread) hissued hvalid hnew (hlen ▸ hmap)
      unfold Directory.connect at hconnect
      rw [hlen] at hconnect
      dsimp only
      rw [directory_postSession]
      unfold directory
      rw [List.map_append]
      exact hconnect
    · obtain hc | ⟨-, rfl⟩ := getElem?_concat_iff.mp hc
      · exact hx.counted c conn hc
      · exact ⟨⟨rfl, Nat.zero_le 1, fun hne => absurd rfl hne⟩, rfl⟩
    · obtain hc | ⟨-, rfl⟩ := getElem?_concat_iff.mp hc
      · exact hx.fresh c conn hc hzero
      · exact ⟨rfl, rfl, rfl, rfl⟩

theorem Kept.popMain {task : MainTask M} {rest : List (MainTask M)} (hx : Kept x)
    (hmain : x.mainTasks = task :: rest) (htask : task.ended? = none) :
    Kept { x with mainTasks := rest } := by
  refine hx.onHandler ?_ fun e conn he => ⟨conn, he, rfl, rfl, rfl⟩
  have hended : x.directory.ended = rest.filterMap MainTask.ended? := by
    rw [directory, hmain, List.filterMap_cons, htask]
  have hsame : ({ x with mainTasks := rest } : Threads σ M).directory = x.directory := by
    rw [directory, ← hended]
    rfl
  rw [hsame]
  exact hx.sound

theorem Kept.getSessionHandler (hx : Kept x) (id : UInt32) (h : ℕ) :
    x.manager.getSessionHandler id = some h ↔ (id, h) ∈ x.manager.sessionHandlerMap :=
  Postbox.lookup_eq_some_iff (hx.sound.issued.nodup.of_append_right)

theorem Kept.onSessionClose {id : UInt32} {rest : List (MainTask M)} (hx : Kept x)
    (hmain : x.mainTasks = .onSessionClose id :: rest)
    (hy : executeMain { x with mainTasks := rest } (.onSessionClose id) = some y) :
    Kept y ∧ ∃ manager h, x.manager.sessionIdGenerator.put id = manager.sessionIdGenerator ∧
      x.manager.getSessionHandler id = some h ∧
      y = ({ x with mainTasks := rest, manager := manager, closes := x.closes ++ [h] } :
        Threads σ M).onConnection h fun c => { c with
          handler := { c.handler with sessionId := kInvalidTCPSessionId } } := by
  have hended : x.directory.ended = id :: rest.filterMap MainTask.ended? := by
    rw [directory, hmain, List.filterMap_cons, MainTask.ended?]
  obtain ⟨manager, h, hclose, hmap, hput, hsound⟩ := hx.sound.release hended
  have hfound := (hx.getSessionHandler id h).mpr hmap
  have hclose' : x.manager.onSessionClose id = some manager := hclose
  simp only [executeMain, hclose', hfound, Option.map_some] at hy
  obtain rfl := Option.some.inj hy
  refine ⟨hx.onHandler ?_ ?_, manager, h, hput.symm, hfound, rfl⟩
  · obtain ⟨-, n, hn, -⟩ := (hx.sound.known id h).mp hmap
    obtain ⟨conn, hc, -⟩ := of_names hn
    have hnames : (x.connections.modify h fun c => { c with
          handler := { c.handler with sessionId := kInvalidTCPSessionId } }).map Connection.names =
        x.directory.names.modify h fun n => { n with sessionId := kInvalidTCPSessionId } :=
      map_modify hc rfl
    unfold onConnection directory
    rw [hnames]
    exact hsound
  · intro e conn he
    refine onConnection_old _ h ?_ e conn he
    exact fun _ => ⟨rfl, rfl, rfl⟩

theorem Kept.executeMain {task : MainTask M} {rest : List (MainTask M)} (hx : Kept x)
    (hmain : x.mainTasks = task :: rest)
    (hy : executeMain { x with mainTasks := rest } task = some y) : Kept y := by
  cases task with
  | packMessageList h =>
    obtain rfl := Option.some.inj hy
    exact (hx.popMain hmain rfl).packMessageList h
  | onSessionClose id => exact (hx.onSessionClose hmain hy).1
  | sendMessageListToHandler session messages =>
    have hpopped := hx.popMain hmain rfl
    obtain rfl := Option.some.inj hy
    split
    · exact hpopped
    · exact hpopped.onHandler hpopped.sound fun e conn he => ⟨conn, he, rfl, rfl, rfl⟩

/-! ## The sessions -/

theorem closing_packed (c : ℕ) (messages : List M) :
    ((TCPSession.packed messages).map (c, ·)).filterMap closing? = [] := by
  cases messages <;> rfl

theorem closing_step {s t : TCPSession σ M} {e : Eddy.SessionEvent M} (hcounted : s.HandlersCounted)
    (heffects : s.effects = []) (ht : s.step F e = some t) (c : ℕ) :
    t.tornDown = s.tornDown ∧ (t.effects.map (c, ·)).filterMap closing? = [] ∨
    t.tornDown ≠ s.tornDown ∧ t.tornDown = s.tornDown + 1 ∧
      (t.effects.map (c, ·)).filterMap closing? = [c] := by
  by_cases hpack : e = .packMessageList
  · subst hpack
    obtain rfl := Option.some.inj ht
    rw [TCPSession.packMessageList_eq, heffects]
    exact .inl ⟨rfl, closing_packed c _⟩
  obtain ⟨-, htorn, hadds⟩ | ⟨-, -, htorn, hends⟩ := TCPSession.step_reports hcounted hpack ht
  · refine .inl ⟨htorn, ?_⟩
    rw [hadds, heffects, List.nil_append, TCPSession.arrival]
    split
    · cases s.receiveDelay <;> rfl
    · rfl
  · refine .inr ⟨by rw [htorn]; exact Nat.succ_ne_self _, htorn, ?_⟩
    rw [hends, heffects]
    exact congrArg (c :: ·) (closing_packed c s.messagesReceived)

theorem Kept.queued (hx : Kept x) (hc : x.connections[c]? = some conn) (hid : conn.id ≠ 0)
    (htorn : conn.session.tornDown = 0) :
    (conn.id, c) ∈ (x.sessionThread conn.handler.sessionThreadId).sessionQueue := by
  have hlocal := hx.sound.threads conn.handler.sessionThreadId
  have hvalid : conn.handler.sessionId ≠ 0 := hx.sound.standing c _ (names_of hc) htorn
  have hsame : conn.handler.sessionId = conn.id := by
    obtain ⟨hzero, -⟩ | ⟨-, hzero | hsame⟩ := hx.sound.named c _ (names_of hc)
    · exact absurd hzero hid
    · exact absurd hzero hvalid
    · exact hsame
  have hbound := (hlocal.bound conn.id c).mpr ⟨_, names_of hc, rfl, hsame, htorn⟩
  refine (List.mem_append.mp hbound).resolve_right fun hbind => ?_
  obtain ⟨command, hcommand, hbinding⟩ := List.mem_filterMap.mp hbind
  cases command with
  | letter name sender => cases hbinding
  | bind name owner =>
    obtain ⟨rfl, rfl⟩ := Prod.mk.inj (Option.some.inj hbinding)
    exact hid (hlocal.waiting _ _ hcommand _ (names_of hc))

theorem sessionStep_cases {e : Eddy.SessionEvent M} (hy : x.sessionStep F k c e = some y) :
    ∃ conn t, x.connections[c]? = some conn ∧ conn.session.step F e = some t ∧
      y = (x.onConnection c fun connection => { connection with
          session := { t with effects := [] }
          parsed := connection.parsed ++ Eddy.Server.parses F connection.session e }).onThread k
        fun th => { th with
          pending := t.effects.map (c, ·)
          sessionQueue := if t.tornDown = conn.session.tornDown then th.sessionQueue
            else th.sessionQueue.filter (·.1 ≠ conn.id) } := by
  obtain ⟨conn, hc, hy⟩ := Option.bind_eq_some_iff.mp hy
  obtain ⟨t, ht, hy⟩ := Option.bind_eq_some_iff.mp hy
  exact ⟨conn, t, hc, ht, (Option.some.inj hy).symm⟩

theorem Kept.sessionStep {e : Eddy.SessionEvent M} (hx : Kept x)
    (hidle : (x.sessionThread conn.handler.sessionThreadId).pending = [])
    (hc : x.connections[c]? = some conn) (hid : conn.id ≠ 0 ∨ e = .packMessageList)
    (hy : x.sessionStep F conn.handler.sessionThreadId c e = some y) : Kept y := by
  obtain ⟨conn', t, hc', ht, rfl⟩ := sessionStep_cases hy
  obtain rfl := Option.some.inj (hc.symm.trans hc')
  obtain ⟨hcounted, heffects⟩ := hx.counted c conn hc
  set k := conn.handler.sessionThreadId with hk
  set f : Connection σ M → Connection σ M := fun connection => { connection with
    session := { t with effects := [] }
    parsed := connection.parsed ++ Eddy.Server.parses F connection.session e } with hf
  have hclosing : x.directory.closing k = [] := by
    simp only [directory, hidle, List.filterMap_nil]
  refine ⟨?_, forall_onConnection hx.counted ?_, forall_onConnection hx.fresh ?_⟩
  · rw [directory_onThread]
    obtain ⟨htorn, hnone⟩ | ⟨hne, htorn, hone⟩ := closing_step hcounted heffects ht c
    · -- the session stands as it did
      have hnames : (f conn).names = conn.names := by simp only [Connection.names, hf, htorn]
      rw [directory_onConnection hc hnames]
      have hqueue : Function.update x.directory.queue k (x.sessionThread k).sessionQueue =
          x.directory.queue := Function.update_eq_self ..
      have hcommands : Function.update x.directory.commands k
          ((x.sessionThread k).tasks.filterMap SessionTask.command?) = x.directory.commands :=
        Function.update_eq_self ..
      have hnothing : Function.update x.directory.closing k [] = x.directory.closing := by
        rw [← hclosing, Function.update_eq_self]
      dsimp only [onConnection]
      rw [if_pos htorn, hqueue, hcommands, hnone, hnothing]
      exact hx.sound
    · -- the session leaves the queue
      have hstanding : conn.session.tornDown = 0 := by
        have hle := (TCPSession.handlersCounted_step _ _ _ hcounted ht).tornDown_le
        omega
      have hvalid : conn.id ≠ 0 := by
        refine hid.resolve_right ?_
        rintro rfl
        obtain rfl := Option.some.inj ht
        rw [TCPSession.packMessageList_eq] at hne
        exact hne rfl
      have htear := hx.sound.tear (hx.queued hc hvalid hstanding) hclosing
      have hnames : (x.connections.modify c f).map Connection.names =
          x.directory.names.modify c fun n => { n with tornDown := n.tornDown + 1 } := by
        refine map_modify hc ?_
        simp only [Connection.names, hf, htorn]
      have hdirectory : (x.onConnection c f).directory = { x.directory with
          names := x.directory.names.modify c fun n => { n with tornDown := n.tornDown + 1 } } := by
        rw [← hnames]
        rfl
      have hcommands : Function.update x.directory.commands k
          ((x.sessionThread k).tasks.filterMap SessionTask.command?) = x.directory.commands :=
        Function.update_eq_self ..
      rw [hdirectory]
      dsimp only [onConnection]
      rw [if_neg hne, hone, hcommands]
      exact htear
  · intro old hold _
    obtain rfl := Option.some.inj (hc.symm.trans hold)
    have hnext := TCPSession.handlersCounted_step _ _ _ hcounted ht
    exact ⟨⟨hnext.counted, hnext.tornDown_le, hnext.none_left⟩, rfl⟩
  · intro old hold hfresh hzero
    obtain rfl := Option.some.inj (hc.symm.trans hold)
    obtain ⟨hreads, hwrites, hnone, hparsed⟩ := hfresh hzero
    obtain hid | rfl := hid
    · exact absurd hzero hid
    obtain rfl := Option.some.inj ht
    simp only [hf, TCPSession.packMessageList_eq]
    exact ⟨hreads, hwrites, trivial, by rw [hparsed]; rfl⟩

theorem init_cases {id : UInt32} (hy : x.init F k c id = some y) :
    ∃ conn, x.connections[c]? = some conn ∧ conn.id = 0 ∧
      id ∉ (x.sessionThread k).sessionQueue.map Prod.fst ∧
      y = (x.onConnection c fun connection => { connection with
          id := id
          session := connection.session.startRead F }).onThread k fun t => { t with
            sessionQueue := t.sessionQueue ++ [(id, c)] } := by
  obtain ⟨conn, hc, hy⟩ := Option.bind_eq_some_iff.mp hy
  split at hy
  · cases hy
  next hfree =>
  obtain ⟨hid, hnew⟩ := not_or.mp hfree
  exact ⟨conn, hc, not_not.mp hid, hnew, (Option.some.inj hy).symm⟩

theorem directory_popTask (x : Threads σ M) (k : ℕ) (rest : List (SessionTask M)) :
    (x.onThread k fun t => { t with tasks := rest }).directory = { x.directory with
      commands := Function.update x.directory.commands k
        (rest.filterMap SessionTask.command?) } := by
  have hqueue : Function.update x.directory.queue k (x.sessionThread k).sessionQueue =
      x.directory.queue := Function.update_eq_self ..
  have hclosing : Function.update x.directory.closing k
      ((x.sessionThread k).pending.filterMap closing?) = x.directory.closing :=
    Function.update_eq_self ..
  rw [directory_onThread, hqueue, hclosing]

theorem onThread_onThread (x : Threads σ M) (k : ℕ) (f g : SessionThread M → SessionThread M) :
    (x.onThread k f).onThread k g = x.onThread k fun t => g (f t) := by
  simp only [onThread, Function.update_self, Function.update_idem]

theorem Kept.init {id : UInt32} {rest : List (SessionTask M)} (hx : Kept x)
    (htasks : (x.sessionThread k).tasks = .init c id :: rest)
    (hy : (x.onThread k fun t => { t with tasks := rest }).init F k c id = some y) : Kept y := by
  obtain ⟨conn, hc, hzero, hnew, rfl⟩ := init_cases hy
  have hcommands : x.directory.commands k = .bind id c :: rest.filterMap SessionTask.command? := by
    simp only [directory, htasks, List.filterMap_cons, SessionTask.command?]
  obtain ⟨-, hbind⟩ := hx.sound.bind hcommands
  obtain ⟨hcounted, heffects⟩ := hx.counted c conn hc
  obtain ⟨hreads, hwrites, -⟩ := hx.fresh c conn hc hzero
  set f : Connection σ M → Connection σ M := fun connection => { connection with
    id := id
    session := connection.session.startRead F } with hf
  have hvalid : id ≠ 0 := by
    have hlocal := hx.sound.threads k
    rw [hcommands] at hlocal
    obtain ⟨n, hn, -, rfl, htorn⟩ := hlocal.bound_bind List.mem_cons_self
    exact hx.sound.standing c n hn htorn
  have hstanding : conn.session.tornDown = 0 := by
    obtain ⟨-, htorn⟩ | ⟨hid, -⟩ := hx.sound.named c _ (names_of hc)
    · exact htorn
    · exact absurd hzero hid
  have hstarted : (conn.session.startRead F).HandlersCounted ∧
      (conn.session.startRead F).effects = [] ∧ (conn.session.startRead F).tornDown = 0 := by
    refine ⟨(TCPSession.Standing.startRead ⟨hcounted.counted, hstanding⟩).handlersCounted, ?_⟩
    obtain ⟨-, heq⟩ | ⟨-, reading, heq⟩ := TCPSession.startRead_cases F conn.session
    all_goals rw [heq]; exact ⟨heffects, hstanding⟩
  refine ⟨?_, forall_onConnection hx.counted ?_, forall_onConnection hx.fresh ?_⟩
  · have hnames : (x.connections.modify c f).map Connection.names =
        x.directory.names.modify c fun n => { n with id := id } := by
      refine map_modify hc ?_
      simp only [Connection.names, hf, hstarted.2.2, hstanding]
    have hdirectory : (x.onConnection c f).directory = { x.directory with
        names := x.directory.names.modify c fun n => { n with id := id } } := by
      rw [← hnames]
      rfl
    have hpopped : (x.onThread k fun t => { t with tasks := rest }).onConnection c f =
        (x.onConnection c f).onThread k fun t => { t with tasks := rest } := rfl
    have hclosing : Function.update x.directory.closing k
        ((x.sessionThread k).pending.filterMap closing?) = x.directory.closing :=
      Function.update_eq_self ..
    rw [hpopped, onThread_onThread, directory_onThread, hdirectory]
    dsimp only [onConnection]
    rw [hclosing]
    exact hbind
  · intro old hold _
    obtain rfl := Option.some.inj (hc.symm.trans hold)
    exact ⟨hstarted.1, hstarted.2.1⟩
  · intro old hold _ hnone
    exact absurd hnone hvalid

theorem Kept.popLetter {task : SessionTask M} {rest : List (SessionTask M)} {id : UInt32}
    (hx : Kept x) (htasks : (x.sessionThread k).tasks = task :: rest)
    (htask : task.command? = some (.letter id c)) :
    Kept (x.onThread k fun t => { t with tasks := rest }) ∧
      (∀ e, (id, e) ∈ (x.sessionThread k).sessionQueue → e = c) ∧
      (Directory.Stands x.directory.names k id c → (id, c) ∈ (x.sessionThread k).sessionQueue) := by
  have hcommands : x.directory.commands k =
      .letter id c :: rest.filterMap SessionTask.command? := by
    simp only [directory, htasks, List.filterMap_cons, htask]
  obtain ⟨hsound, honly, hfound⟩ := hx.sound.popLetter hcommands
  refine ⟨hx.onHandler ?_ fun e conn he => ⟨conn, he, rfl, rfl, rfl⟩, honly, hfound⟩
  rw [directory_popTask]
  exact hsound

theorem Kept.getSession (hx : Kept x) (k : ℕ) (id : UInt32) (c : ℕ) :
    x.getSession k id = some c ↔ (id, c) ∈ (x.sessionThread k).sessionQueue :=
  Postbox.lookup_eq_some_iff (hx.sound.threads k).nodup

theorem Kept.of_queue {id : UInt32} (hx : Kept x)
    (hmem : (id, c) ∈ (x.sessionThread k).sessionQueue) :
    ∃ conn, x.connections[c]? = some conn ∧ conn.handler.sessionThreadId = k ∧
      conn.handler.sessionId = id ∧ conn.id = id ∧ id ≠ 0 ∧ conn.session.tornDown = 0 := by
  obtain ⟨n, hn, hthread, hid, htorn⟩ := hx.sound.stands_of_queue hmem
  have hvalid := hx.sound.standing c n hn htorn
  have hown := (hx.sound.threads k).queued id c hmem n hn
  obtain ⟨conn, hc, rfl⟩ := of_names hn
  exact ⟨conn, hc, hthread, hid, hown, hid ▸ hvalid, htorn⟩

/-- What a letter does: nothing, or its sender's session takes a step. -/
theorem Kept.letter {task : SessionTask M} {rest : List (SessionTask M)} {id : UInt32}
    (hx : Kept x) (htasks : (x.sessionThread k).tasks = task :: rest)
    (htask : task.command? = some (.letter id c)) :
    (x.getSession k id = none ∧ ¬ Directory.Stands x.directory.names k id c) ∨
      ∃ conn, x.getSession k id = some c ∧ x.connections[c]? = some conn ∧
        conn.handler.sessionThreadId = k ∧ conn.handler.sessionId = id ∧ conn.id ≠ 0 ∧
        conn.session.tornDown = 0 := by
  obtain ⟨-, honly, hfound⟩ := hx.popLetter htasks htask
  cases hget : x.getSession k id with
  | none =>
    refine .inl ⟨rfl, fun hstands => ?_⟩
    exact absurd ((hx.getSession k id c).mpr (hfound hstands)) (by simp [hget])
  | some e =>
    have hmem := (hx.getSession k id e).mp hget
    obtain rfl := honly e hmem
    obtain ⟨conn, hc, hthread, hid, hown, hvalid, htorn⟩ := hx.of_queue hmem
    exact .inr ⟨conn, rfl, hc, hthread, hid, hown ▸ hvalid, htorn⟩

/-! ### On which thread a session is -/

def OnThread (x : Threads σ M) (k c : ℕ) : Prop :=
  ∃ conn, x.connections[c]? = some conn ∧ conn.handler.sessionThreadId = k

structure Placed (x : Threads σ M) : Prop where
  tasks : ∀ k c, .packMessageList c ∈ (x.sessionThread k).tasks → OnThread x k c
  pending : ∀ k c effect, (c, effect) ∈ (x.sessionThread k).pending → OnThread x k c

def Stay (x y : Threads σ M) : Prop := ∀ k c, OnThread x k c → OnThread y k c

theorem Placed.of_stay (h : Placed x) (hstay : Stay x y)
    (htasks : ∀ k c, .packMessageList c ∈ (y.sessionThread k).tasks →
      .packMessageList c ∈ (x.sessionThread k).tasks ∨ OnThread x k c)
    (hpending : ∀ k c effect, (c, effect) ∈ (y.sessionThread k).pending →
      (c, effect) ∈ (x.sessionThread k).pending ∨ OnThread x k c) : Placed y :=
  ⟨fun k c hmem => hstay k c ((htasks k c hmem).elim (h.tasks k c) id),
    fun k c effect hmem => hstay k c ((hpending k c effect hmem).elim (h.pending k c effect) id)⟩

theorem stay_onConnection (x : Threads σ M) (c : ℕ) {f : Connection σ M → Connection σ M}
    (hf : ∀ conn, (f conn).handler.sessionThreadId = conn.handler.sessionThreadId) :
    Stay x (x.onConnection c f) := by
  rintro k e ⟨conn, he, rfl⟩
  obtain rfl | hne := eq_or_ne e c
  · exact ⟨f conn, getElem?_modify_self he, hf conn⟩
  · exact ⟨conn, (List.getElem?_modify_ne f x.connections hne.symm).trans he, rfl⟩

theorem sessionThread_self (x : Threads σ M) (k : ℕ) (f : SessionThread M → SessionThread M) :
    (x.onThread k f).sessionThread k = f (x.sessionThread k) := Function.update_self ..

theorem sessionThread_ne {j : ℕ} (x : Threads σ M) (f : SessionThread M → SessionThread M)
    (hne : j ≠ k) : (x.onThread k f).sessionThread j = x.sessionThread j :=
  Function.update_of_ne hne ..

theorem Placed.onConnection (h : Placed x) (c : ℕ) {f : Connection σ M → Connection σ M}
    (hf : ∀ conn, (f conn).handler.sessionThreadId = conn.handler.sessionThreadId) :
    Placed (x.onConnection c f) :=
  h.of_stay (stay_onConnection x c hf) (fun _ _ => .inl) fun _ _ _ => .inl

theorem Placed.onThread (h : Placed x) {f : SessionThread M → SessionThread M}
    (htasks : ∀ c, .packMessageList c ∈ (f (x.sessionThread k)).tasks → OnThread x k c)
    (hpending : ∀ c effect, (c, effect) ∈ (f (x.sessionThread k)).pending → OnThread x k c) :
    Placed (x.onThread k f) := by
  refine h.of_stay (fun _ _ => id) (fun j c hmem => ?_) fun j c effect hmem => ?_
  · obtain rfl | hne := eq_or_ne j k
    · exact .inr (htasks c (sessionThread_self x j f ▸ hmem))
    · exact .inl (sessionThread_ne x f hne ▸ hmem)
  · obtain rfl | hne := eq_or_ne j k
    · exact .inr (hpending c effect (sessionThread_self x j f ▸ hmem))
    · exact .inl (sessionThread_ne x f hne ▸ hmem)

theorem Placed.postSession {task : SessionTask M} (h : Placed x)
    (htask : ∀ c, task = .packMessageList c → OnThread x k c) : Placed (x.postSession k task) := by
  refine h.onThread (fun c hmem => ?_) fun c effect => h.pending k c effect
  obtain hmem | heq := List.mem_append.mp hmem
  · exact h.tasks k c hmem
  · exact htask c (List.mem_singleton.mp heq).symm

theorem Placed.packMessageList (hx : Placed x) (h : ℕ) : Placed (x.packMessageList h) := by
  unfold Threads.packMessageList
  split
  · exact hx
  split
  · exact hx
  · refine (hx.onConnection h ?_).postSession fun c heq => ?_
    · exact fun _ => rfl
    · cases heq

theorem Placed.sessionStep {e : Eddy.SessionEvent M} (h : Placed x) (hthread : OnThread x k c)
    (hy : x.sessionStep F k c e = some y) : Placed y := by
  obtain ⟨conn, t, -, -, rfl⟩ := sessionStep_cases hy
  set f : Connection σ M → Connection σ M := fun connection => { connection with
    session := { t with effects := [] }
    parsed := connection.parsed ++ Eddy.Server.parses F connection.session e } with hf
  have hstay : Stay x (x.onConnection c f) := stay_onConnection x c fun _ => rfl
  have hplaced : Placed (x.onConnection c f) := h.onConnection c fun _ => rfl
  refine hplaced.onThread (fun d hmem => hplaced.tasks k d hmem) fun d effect hmem => ?_
  obtain ⟨effect', -, heq⟩ := List.mem_map.mp hmem
  obtain ⟨rfl, -⟩ := Prod.mk.inj heq
  exact hstay k c hthread

theorem Placed.init {id : UInt32} (h : Placed x) (hy : x.init F k c id = some y) : Placed y := by
  obtain ⟨conn, -, -, -, rfl⟩ := init_cases hy
  have hplaced : Placed (x.onConnection c fun connection => { connection with
      id := id
      session := connection.session.startRead F }) := h.onConnection c fun _ => rfl
  exact hplaced.onThread (fun d hmem => hplaced.tasks k d hmem) fun d effect hmem =>
    hplaced.pending k d effect hmem

theorem Placed.popTask {task : SessionTask M} {rest : List (SessionTask M)} (h : Placed x)
    (htasks : (x.sessionThread k).tasks = task :: rest) :
    Placed (x.onThread k fun t => { t with tasks := rest }) := by
  refine h.onThread (fun c hmem => h.tasks k c ?_) fun c effect hmem => h.pending k c effect hmem
  rw [htasks]
  exact List.mem_cons_of_mem _ hmem

theorem Placed.perform {effect : Effect M} {rest : List (ℕ × Effect M)} (h : Placed x)
    (hpending : (x.sessionThread k).pending = (c, effect) :: rest) :
    Placed ((x.onThread k fun t => { t with pending := rest }).perform k c effect) := by
  have hthread : OnThread x k c := h.pending k c effect (hpending ▸ List.mem_cons_self)
  have hpopped : Placed (x.onThread k fun t => { t with pending := rest }) := by
    refine h.onThread (fun c hmem => h.tasks k c hmem) fun c effect hmem => h.pending k c effect ?_
    rw [hpending]
    exact List.mem_cons_of_mem _ hmem
  cases effect with
  | packMessageList =>
    refine hpopped.postSession fun d heq => ?_
    cases heq
    exact hthread
  | _ => exact ⟨hpopped.tasks, hpopped.pending⟩

theorem Placed.send (hx : Placed x) (h : ℕ) (message : M) : Placed (x.send empty h message) := by
  unfold Threads.send
  split
  · exact hx
  split
  · exact hx
  have hplaced : Placed (x.onConnection h fun c => { c with
      handler := { c.handler with messagesToBeSent := c.handler.messagesToBeSent ++ [message] }
      accepted := c.accepted ++ [message] }) := hx.onConnection h fun _ => rfl
  dsimp only
  split
  · exact ⟨hplaced.tasks, hplaced.pending⟩
  · exact hplaced

theorem Placed.close (hx : Placed x) (h : ℕ) : Placed (x.close h) := by
  unfold Threads.close
  split
  · exact hx
  split
  · exact hx
  have hplaced : Placed (x.onConnection h fun c => { c with closeAsked := true }) :=
    hx.onConnection h fun _ => rfl
  refine (hplaced.packMessageList h).postSession fun c heq => ?_
  cases heq

theorem Placed.onSessionConnect {thread : ℕ} {allowed : Bool} {filter : σ} (hx : Placed x)
    (hy : x.onSessionConnect thread allowed filter = some y) : Placed y := by
  obtain ⟨⟨given, manager⟩, -, rfl⟩ := Option.map_eq_some_iff.mp hy
  cases given with
  | none => exact hx
  | some id =>
    refine Placed.postSession (hx.of_stay ?_ (fun _ _ => .inl) fun _ _ _ => .inl) fun c heq => ?_
    · rintro k c ⟨conn, hc, hthread⟩
      exact ⟨conn, getElem?_concat_iff.mpr (.inl hc), hthread⟩
    · cases heq

/-! ### What all events keep -/

theorem Kept.taskStep {e : Eddy.SessionEvent M} (hx : Kept x) (hidle : (x.sessionThread k).pending = [])
    (hc : x.connections[c]? = some conn) (hthread : conn.handler.sessionThreadId = k)
    (hid : conn.id ≠ 0 ∨ e = .packMessageList) (hy : x.sessionStep F k c e = some y) : Kept y := by
  subst hthread
  exact hx.sessionStep hidle hc hid hy

theorem Kept.execute {task : SessionTask M} {rest : List (SessionTask M)} (hx : Kept x)
    (hplaced : Placed x) (hidle : (x.sessionThread k).pending = [])
    (htasks : (x.sessionThread k).tasks = task :: rest)
    (hy : (x.onThread k fun t => { t with tasks := rest }).execute F k task = some y) :
    Kept y ∧ Placed y := by
  have hpopped := hplaced.popTask htasks
  set z := x.onThread k fun t => { t with tasks := rest } with hz
  have hidle' : (z.sessionThread k).pending = [] := by
    rw [hz, sessionThread_self]
    exact hidle
  have hqueue : ∀ id, z.getSession k id = x.getSession k id := by
    intro id
    rw [Threads.getSession, hz, sessionThread_self]
    rfl
  cases task with
  | init c id => exact ⟨hx.init htasks hy, hpopped.init hy⟩
  | packMessageList c =>
    have hthread := hplaced.tasks k c (htasks ▸ List.mem_cons_self)
    have hnone : Kept z := by
      refine hx.onHandler ?_ fun e conn he => ⟨conn, he, rfl, rfl, rfl⟩
      have hcommands : x.directory.commands k = rest.filterMap SessionTask.command? := by
        simp only [directory, htasks, List.filterMap_cons, SessionTask.command?]
      rw [directory_popTask, ← hcommands, Function.update_eq_self]
      exact hx.sound
    obtain ⟨conn, hc, hk⟩ := hthread
    exact ⟨hnone.taskStep hidle' hc hk (.inr rfl) hy, hpopped.sessionStep ⟨conn, hc, hk⟩ hy⟩
  | sendMessageListToSession id messages sender =>
    have hkept := (hx.popLetter htasks rfl).1
    simp only [Threads.execute, hqueue] at hy
    obtain ⟨hnone, -⟩ | ⟨conn, hsome, hc, hk, -, hid, -⟩ := hx.letter htasks rfl
    · simp only [hnone] at hy
      exact Option.some.inj hy ▸ ⟨hkept, hpopped⟩
    · simp only [hsome] at hy
      set f : Connection σ M → Connection σ M := fun connection => { connection with
        posted := connection.posted ++ messages } with hf
      have hposted : Kept (z.onConnection sender f) := by
        refine hkept.onHandler ?_ (onConnection_old z sender ?_)
        · rw [directory_onConnection (x := z) hc rfl]
          exact hkept.sound
        · exact fun _ => ⟨rfl, rfl, rfl⟩
      have hplaced' : Placed (z.onConnection sender f) := hpopped.onConnection sender fun _ => rfl
      have hc' : (z.onConnection sender f).connections[sender]? = some (f conn) :=
        getElem?_modify_self hc
      exact ⟨hposted.taskStep hidle' hc' hk (.inl hid) hy,
        hplaced'.sessionStep ⟨f conn, hc', hk⟩ hy⟩
  | closeSession id sender =>
    have hkept := (hx.popLetter htasks rfl).1
    simp only [Threads.execute, hqueue] at hy
    obtain ⟨hnone, -⟩ | ⟨conn, hsome, hc, hk, -, hid, -⟩ := hx.letter htasks rfl
    · simp only [hnone] at hy
      exact Option.some.inj hy ▸ ⟨hkept, hpopped⟩
    · simp only [hsome] at hy
      exact ⟨hkept.taskStep hidle' hc hk (.inl hid) hy,
        hpopped.sessionStep ⟨conn, hc, hk⟩ hy⟩

theorem Kept.perform {effect : Effect M} {rest : List (ℕ × Effect M)} (hx : Kept x)
    (hpending : (x.sessionThread k).pending = (c, effect) :: rest) :
    Kept ((x.onThread k fun t => { t with pending := rest }).perform k c effect) := by
  set z := x.onThread k fun t => { t with pending := rest } with hz
  have hdirectory : z.directory = { x.directory with
      closing := Function.update x.directory.closing k (rest.filterMap closing?) } := by
    have hqueue : Function.update x.directory.queue k (x.sessionThread k).sessionQueue =
        x.directory.queue := Function.update_eq_self ..
    have hcommands : Function.update x.directory.commands k
        ((x.sessionThread k).tasks.filterMap SessionTask.command?) = x.directory.commands :=
      Function.update_eq_self ..
    rw [hz, directory_onThread, hqueue, hcommands]
  -- only the end of the session has to do with names
  have hsame : closing? (c, effect) = none → z.directory = x.directory := by
    intro hnone
    have hclosing : x.directory.closing k = rest.filterMap closing? := by
      simp only [directory, hpending, List.filterMap_cons, hnone]
    rw [hdirectory, ← hclosing, Function.update_eq_self]
  have hother : closing? (c, effect) = none → Kept z := by
    intro hnone
    refine hx.onHandler ?_ fun e conn he => ⟨conn, he, rfl, rfl, rfl⟩
    rw [hsame hnone]
    exact hx.sound
  cases effect with
  | packMessageList =>
    have hkept := hother rfl
    refine hkept.onHandler ?_ fun e conn he => ⟨conn, he, rfl, rfl, rfl⟩
    rw [Threads.perform, directory_postSession_pack]
    exact hkept.sound
  | sendMessageListToHandler messages =>
    have hkept := hother rfl
    refine hkept.onHandler ?_ fun e conn he => ⟨conn, he, rfl, rfl, rfl⟩
    rw [Threads.perform, directory_postMain rfl]
    exact hkept.sound
  | startTimer => exact hother rfl
  | cancelTimer => exact hother rfl
  | onSessionClose =>
    refine hx.onHandler ?_ fun e conn he => ⟨conn, he, rfl, rfl, rfl⟩
    have hclosing : x.directory.closing k = c :: rest.filterMap closing? := by
      simp only [directory, hpending, List.filterMap_cons, closing?]
    obtain ⟨n, hn, hsound⟩ := hx.sound.report hclosing
    obtain ⟨conn, hc, rfl⟩ := of_names hn
    have hid : z.idOf c = conn.id := by
      have hc' : z.connections[c]? = some conn := hc
      rw [idOf, hc']
      rfl
    have hreport : (z.perform k c .onSessionClose).directory =
        x.directory.report k conn.id (rest.filterMap closing?) := by
      have hended : (z.mainTasks ++ [MainTask.onSessionClose (z.idOf c)]).filterMap MainTask.ended? =
          x.directory.ended ++ [conn.id] := by
        rw [List.filterMap_append, hid]
        rfl
      have hposted : (z.perform k c .onSessionClose).directory =
          { z.directory with ended := x.directory.ended ++ [conn.id] } := by
        rw [← hended]
        rfl
      rw [hposted, hdirectory]
      rfl
    rw [hreport]
    exact hsound

theorem Kept.complete {e : Eddy.SessionEvent M} (hx : Kept x) (hplaced : Placed x)
    (he : ∀ s t : TCPSession σ M, s.step F e = some t → s.reads ≠ [] ∨ s.writes ≠ [])
    (hy : x.complete F c e = some y) : Kept y ∧ Placed y := by
  obtain ⟨conn, hc, hy⟩ := Option.bind_eq_some_iff.mp hy
  split at hy
  · next hidle =>
    have hvalid : conn.id ≠ 0 := by
      intro hzero
      obtain ⟨conn', t, hc', ht, -⟩ := sessionStep_cases hy
      obtain rfl := Option.some.inj (hc.symm.trans hc')
      obtain ⟨hreads, hwrites, -⟩ := hx.fresh c conn hc hzero
      exact (he _ t ht).elim (fun hne => hne hreads) fun hne => hne hwrites
    exact ⟨hx.sessionStep hidle hc (.inl hvalid) hy, hplaced.sessionStep ⟨conn, hc, rfl⟩ hy⟩
  · cases hy

theorem kept_step (x : Threads σ M) (e : ThreadsEvent σ M) (y : Threads σ M)
    (hx : Kept x ∧ Placed x) (hy : x.step F empty e = some y) : Kept y ∧ Placed y := by
  obtain ⟨hkept, hplaced⟩ := hx
  cases e with
  | onSessionConnect thread allowed filter =>
    exact ⟨hkept.onSessionConnect hy, hplaced.onSessionConnect hy⟩
  | send handler message =>
    exact Option.some.inj hy ▸ ⟨hkept.send handler message, hplaced.send handler message⟩
  | close handler => exact Option.some.inj hy ▸ ⟨hkept.close handler, hplaced.close handler⟩
  | runMain =>
    simp only [step] at hy
    split at hy
    · cases hy
    next task rest hmain =>
    refine ⟨hkept.executeMain hmain hy, ?_⟩
    have hpopped : Placed { x with mainTasks := rest } := ⟨hplaced.tasks, hplaced.pending⟩
    cases task with
    | packMessageList h => exact Option.some.inj hy ▸ hpopped.packMessageList h
    | onSessionClose id =>
      obtain ⟨-, manager, h, -, -, rfl⟩ := hkept.onSessionClose hmain hy
      have hplaced' : Placed ({ x with
          mainTasks := rest, manager := manager, closes := x.closes ++ [h] } : Threads σ M) :=
        ⟨hplaced.tasks, hplaced.pending⟩
      exact hplaced'.onConnection h fun _ => rfl
    | sendMessageListToHandler session messages =>
      rw [← Option.some.inj hy]
      split
      · exact hpopped
      · exact ⟨hplaced.tasks, hplaced.pending⟩
  | runSession k =>
    simp only [step] at hy
    split at hy
    · next task rest hidle htasks => exact hkept.execute hplaced hidle htasks hy
    · cases hy
  | perform k =>
    simp only [step] at hy
    split at hy
    · cases hy
    · next c effect rest hpending =>
      exact Option.some.inj hy ▸ ⟨hkept.perform hpending, hplaced.perform hpending⟩
  | read c reading error data =>
    refine hkept.complete hplaced (fun s t ht => ?_) hy
    obtain ⟨⟨hmem, -⟩, -⟩ := TCPSession.step_handleRead_cases ht
    exact .inl (List.ne_nil_of_mem hmem)
  | written c buffer error =>
    refine hkept.complete hplaced (fun s t ht => ?_) hy
    obtain ⟨hmem, -⟩ := TCPSession.step_handleWrite_cases ht
    exact .inr (List.ne_nil_of_mem hmem)

theorem kept_init : Kept ({} : Threads σ M) ∧ Placed ({} : Threads σ M) := by
  have hnone : ∀ (c : ℕ) (n : Names), ({} : Threads σ M).directory.names[c]? ≠ some n := by
    intro c n h
    simp [directory] at h
  refine ⟨⟨⟨TCPIOThreadManager.issued_init, fun id c => ?_, fun c n hn => absurd hn (hnone c n),
    fun c n hn => absurd hn (hnone c n), fun k => ⟨fun id c => ?_, trivial, List.nodup_nil,
      fun id c hmem => absurd hmem List.not_mem_nil, fun id c hmem => absurd hmem List.not_mem_nil,
      fun id s hmem => absurd hmem List.not_mem_nil⟩, ⟨List.nodup_nil, fun id hmem => ?_⟩,
    fun k => ⟨List.nodup_nil, fun c hmem => absurd hmem List.not_mem_nil⟩⟩,
    fun c conn hc => ?_, fun c conn hc => ?_⟩, fun k c hmem => absurd hmem List.not_mem_nil,
    fun k c effect hmem => absurd hmem List.not_mem_nil⟩
  · refine ⟨fun hmem => absurd hmem List.not_mem_nil, ?_⟩
    rintro ⟨-, n, hn, -⟩
    exact absurd hn (hnone c n)
  · refine ⟨fun hmem => absurd hmem List.not_mem_nil, ?_⟩
    rintro ⟨n, hn, -⟩
    exact absurd hn (hnone c n)
  · exact absurd hmem List.not_mem_nil
  · simp at hc
  · simp at hc

end Threads

end IceBridge.Gateway
