import IceBridge.Eddy.MyFilter
import IceBridge.Eddy.Handlers

/-! From the filter to the handler. Messages leave their session in tasks that the two threads
execute in the order in which they were posted, and the end of the session is such a task too. -/

namespace IceBridge.Eddy
variable {σ M : Type}

inductive Task (M : Type)
  | session (e : SessionEvent M)
  | handleReceiveTimer (error : Bool)
  | sendMessageListToHandler (messages : List M)
  | onSessionClose

inductive Call (M : Type)
  | onMessage (message : M)
  | onClose

def Call.message? : Call M → Option M
  | .onMessage message => some message
  | .onClose => none

/-- A session with its handler. With `single` the thread of the session is the main thread, which
then has all tasks. `parsed` are all messages that the filter has made. -/
structure Server (σ M : Type) where
  single : Bool
  session : TCPSession σ M
  mainTasks : List (Task M) := []
  sessionTasks : List (Task M) := []
  /-- The timer has been set and has neither expired nor been cancelled. -/
  timer : Bool := false
  /-- `session_handler_map_` has the handler. -/
  handler : Bool := true
  calls : List (Call M) := []
  parsed : List M := []

namespace Server
variable (F : NetMessageFilter σ M)

def postMain (x : Server σ M) (task : Task M) : Server σ M :=
  { x with mainTasks := x.mainTasks ++ [task] }

def postSession (x : Server σ M) (task : Task M) : Server σ M :=
  if x.single then x.postMain task else { x with sessionTasks := x.sessionTasks ++ [task] }

def cancel (x : Server σ M) : Server σ M :=
  if x.timer then { x.postSession (.handleReceiveTimer true) with timer := false } else x

def perform (x : Server σ M) : Effect M → Server σ M
  | .packMessageList => x.postSession (.session .packMessageList)
  | .startTimer => { x.cancel with timer := true }
  | .cancelTimer => x.cancel
  | .onSessionClose => x.postMain .onSessionClose
  | .sendMessageListToHandler messages => x.postMain (.sendMessageListToHandler messages)

def update (x : Server σ M) (s : TCPSession σ M) : Server σ M :=
  s.effects.foldl perform { x with session := { s with effects := [] } }

def deliver (x : Server σ M) (messages : List M) : Server σ M :=
  if x.handler then { x with calls := x.calls ++ messages.map .onMessage } else x

def sendMessageListDirectly (x : Server σ M) : Server σ M :=
  if x.handler then
    { x.deliver x.session.messagesReceived with
      session := { x.session with messagesReceived := [] } }
  else x

def sendMessageList (x : Server σ M) : Server σ M :=
  if x.single then x.sendMessageListDirectly else x.update x.session.packMessageList

def parses (s : TCPSession σ M) : SessionEvent M → List M
  | .handleRead _ error data => if error ∨ s.closed then [] else (F.read s.filter data).2.1
  | _ => []

def onSessionClose (x : Server σ M) : Server σ M :=
  if x.handler then { x with calls := x.calls ++ [.onClose], handler := false } else x

/-- A session that has been torn down is not in the queue of sessions any more, and has no reads
and writes whose handlers might be executed. -/
def execute (x : Server σ M) : Task M → Option (Server σ M)
  | .session .packMessageList => some x.sendMessageList
  | .session e =>
    if x.session.tornDown ≠ 0 then some x
    else (x.session.step F e).map
      (update { x with parsed := x.parsed ++ parses F x.session e })
  | .handleReceiveTimer error => some (if error then x else x.sendMessageList)
  | .sendMessageListToHandler messages => some (x.deliver messages)
  | .onSessionClose => some x.onSessionClose

def Task.reading? : Task M → Option Reading
  | .session (.handleRead reading _ _) => some reading
  | _ => none

def Task.buffer? : Task M → Option (List UInt8)
  | .session (.handleWrite buffer _) => some buffer
  | _ => none

def tasks (x : Server σ M) : List (Task M) := x.mainTasks ++ x.sessionTasks

end Server

inductive ServerEvent (M : Type)
  | read (reading : Reading) (error : Bool) (data : List UInt8)
  | written (buffer : List UInt8) (error : Bool)
  | timerExpires
  | postMessageList (messages : List M)
  | close
  | setReceiveDelay (delay : Bool)
  | runMain
  | runSession

namespace Server
variable (F : NetMessageFilter σ M)

/-- A call of the handler, which has an invalid id after `OnClose`. -/
def call (x : Server σ M) (e : SessionEvent M) : Server σ M :=
  if x.handler then x.postSession (.session e) else x

def step (x : Server σ M) : ServerEvent M → Option (Server σ M)
  | .read reading error data =>
    if reading ∈ x.session.reads.diff (x.tasks.filterMap Task.reading?) ∧
        (error ∨ reading.Fits data) then
      some (x.postSession (.session (.handleRead reading error data)))
    else none
  | .written buffer error =>
    if buffer ∈ x.session.writes.diff (x.tasks.filterMap Task.buffer?) then
      some (x.postSession (.session (.handleWrite buffer error)))
    else none
  | .timerExpires =>
    if x.timer then some { x.postSession (.handleReceiveTimer false) with timer := false } else none
  | .postMessageList messages => some (x.call (.postMessageList messages))
  | .close => some (x.call .close)
  | .setReceiveDelay delay => some (x.call (.setReceiveDelay delay))
  | .runMain =>
    match x.mainTasks with
    | [] => none
    | task :: rest => execute F { x with mainTasks := rest } task
  | .runSession =>
    match x.sessionTasks with
    | [] => none
    | task :: rest => execute F { x with sessionTasks := rest } task

def init (single : Bool) (f : σ) : Server σ M := { single := single, session := .init F f }

/-! ## What the handler is promised -/

def delivered (calls : List (Call M)) : List M := calls.filterMap Call.message?

/-- The messages that have been parsed reach the handler in order, all of them before `OnClose`,
which is the last call, and all of them once no task is left and the timer is not set. -/
def Delivers (x : Server σ M) : Prop :=
  delivered x.calls <+: x.parsed ∧
  (∀ before after, x.calls = before ++ .onClose :: after →
    after = [] ∧ delivered before = x.parsed) ∧
  (x.tasks = [] → x.timer = false → delivered x.calls = x.parsed)

def TearsDown (s : TCPSession σ M) : SessionEvent M → Prop
  | .handleRead _ error _ => s.numHandlers = 1 ∧ (error = true ∨ s.closed = true)
  | .handleWrite _ error => s.numHandlers = 1 ∧ (error = true ∨ s.closed = true ∧
      s.bufferToBeSent = [] ∧ F.bytesWannaWrite s.filter s.messagesToBeSent = 0)
  | .close => s.numHandlers = 0 ∧ s.closed = false
  | _ => False

/-- A session that is torn down has handed over all its messages before. -/
def HandedOver (x : Server σ M) : ServerEvent M → Prop
  | .runMain => ∀ e rest, x.mainTasks = .session e :: rest → TearsDown F x.session e →
      x.session.messagesReceived = []
  | .runSession => ∀ e rest, x.sessionTasks = .session e :: rest → TearsDown F x.session e →
      x.session.messagesReceived = []
  | _ => True

end Server

/-! ## What an event does to the messages of a session -/

namespace TCPSession
variable {F : NetMessageFilter σ M} {s t : TCPSession σ M}

def Adds (s t : TCPSession σ M) (new : List M) : Prop :=
  t.messagesReceived = s.messagesReceived ++ new ∧ t.tornDown = s.tornDown ∧
    t.effects = s.effects ++ arrival s.receiveDelay s.messagesReceived new

def Ends (s t : TCPSession σ M) : Prop :=
  t.messagesReceived = [] ∧ t.tornDown = s.tornDown + 1 ∧
    t.effects = s.effects ++ .onSessionClose :: .cancelTimer :: packed s.messagesReceived

theorem adds_nil (hmessages : t.messagesReceived = s.messagesReceived)
    (htorn : t.tornDown = s.tornDown) (heffects : t.effects = s.effects) : Adds s t [] := by
  refine ⟨by rw [hmessages, List.append_nil], htorn, ?_⟩
  rw [heffects, arrival, if_neg fun h => h.2 rfl, List.append_nil]

theorem handleClose_reports (s : TCPSession σ M) :
    Adds s s.handleClose [] ∨ s.numHandlers ≤ 0 ∧ Ends s s.handleClose := by
  obtain ⟨-, heq⟩ | ⟨⟨hnone, -⟩, heq⟩ := handleClose_cases s
  · rw [heq]
    exact .inl (adds_nil rfl rfl rfl)
  · rw [heq]
    exact .inr ⟨hnone, rfl, rfl, rfl⟩

theorem shut_reports (s : TCPSession σ M) :
    Adds s s.shut [] ∨ s.numHandlers ≤ 0 ∧ Ends s s.shut :=
  handleClose_reports { s with closed := true }

theorem receive_adds {data : List UInt8} (h : s.receive F data = some t) :
    Adds s t (F.read s.filter data).2.1 := by
  rw [receive_cases h]
  obtain ⟨-, heq⟩ | ⟨-, reading, heq⟩ := startRead_cases F { s with
    filter := (F.read s.filter data).1
    messagesReceived := s.messagesReceived ++ (F.read s.filter data).2.1
    effects := s.effects ++ arrival s.receiveDelay s.messagesReceived (F.read s.filter data).2.1 }
  all_goals rw [heq]; exact ⟨rfl, rfl, rfl⟩

theorem step_reports {e : SessionEvent M} (hcounted : HandlersCounted s)
    (hpack : e ≠ .packMessageList) (ht : s.step F e = some t) :
    Adds s t (Server.parses F s e) ∨
      (Server.TearsDown F s e ∧ Server.parses F s e = []) ∧ Ends s t := by
  have hcount := hcounted.counted
  cases e with
  | postMessageList messages =>
    left
    obtain rfl | ⟨-, ⟨left, rfl⟩ | ⟨f, buffer, ⟨-, rfl⟩ | ⟨-, rfl⟩⟩⟩ := postMessageList_cases ht
    all_goals exact adds_nil rfl rfl rfl
  | handleRead reading error data =>
    obtain ⟨⟨hmem, -⟩, ⟨hend, rfl⟩ | ⟨⟨rfl, hopen⟩, hread⟩⟩ := step_handleRead_cases ht
    · have hnone : Server.parses F s (.handleRead reading error data) = [] := if_pos hend
      have hpos : 0 < s.reads.length := List.length_pos_of_mem hmem
      rw [hnone]
      obtain hadds | ⟨hlast, hends⟩ := shut_reports (s.readDone reading)
      · exact .inl hadds
      · refine .inr ⟨⟨⟨?_, hend⟩, rfl⟩, hends⟩
        simp only [readDone, handled] at hlast
        omega
    · have hnew : Server.parses F s (.handleRead reading false data) =
          (F.read s.filter data).2.1 := if_neg (by simp [hopen])
      rw [hnew]
      exact .inl (receive_adds (s := s.readDone reading) hread)
  | handleWrite buffer error =>
    obtain ⟨hmem, hcases⟩ := step_handleWrite_cases ht
    have hpos : 0 < s.writes.length := List.length_pos_of_mem hmem
    obtain ⟨rfl, rfl⟩ | ⟨rfl, hnext⟩ := hcases
    · obtain hadds | ⟨hlast, hends⟩ := shut_reports (s.writeDone buffer)
      · exact .inl hadds
      · refine .inr ⟨⟨⟨?_, .inl rfl⟩, rfl⟩, hends⟩
        simp only [writeDone, handled] at hlast
        omega
    · obtain ⟨-, f, left, next, rfl⟩ | ⟨⟨hbuffer, hwanna⟩, rfl⟩ := sendNext_cases hnext
      · exact .inl (adds_nil rfl rfl rfl)
      split
      · next hclosed =>
        obtain hadds | ⟨hlast, hends⟩ :=
          handleClose_reports { s.writeDone buffer with bufferSending := [] }
        · exact .inl hadds
        · refine .inr ⟨⟨⟨?_, .inr ⟨hclosed, hbuffer, hwanna⟩⟩, rfl⟩, hends⟩
          simp only [writeDone, handled] at hlast
          omega
      · exact .inl (adds_nil rfl rfl rfl)
  | close =>
    rw [← Option.some.inj ht]
    unfold TCPSession.close
    split
    · exact .inl (adds_nil rfl rfl rfl)
    · next hopen =>
      obtain hadds | ⟨hlast, hends⟩ := shut_reports { s with closeCalled := true }
      · exact .inl hadds
      · refine .inr ⟨⟨⟨?_, by simpa using hopen⟩, rfl⟩, hends⟩
        simp only at hlast
        omega
  | packMessageList => exact absurd rfl hpack
  | setReceiveDelay delay =>
    rw [← Option.some.inj ht]
    exact .inl (adds_nil rfl rfl rfl)

end TCPSession

/-! ## Where the messages are -/

namespace Task

def OfSession : Task M → Prop
  | .sendMessageListToHandler _ | .onSessionClose => False
  | _ => True

def messages : Task M → List M
  | .sendMessageListToHandler messages => messages
  | _ => []

def Sends : Task M → Prop
  | .session .packMessageList | .handleReceiveTimer false => True
  | _ => False

theorem OfSession.messages_eq {task : Task M} (h : task.OfSession) : task.messages = [] := by
  cases task with
  | sendMessageListToHandler messages => exact h.elim
  | _ => rfl

theorem OfSession.ne_onSessionClose {task : Task M} (h : task.OfSession) :
    task ≠ .onSessionClose := by
  rintro rfl
  exact h

end Task

namespace Server
variable {F : NetMessageFilter σ M} {x y : Server σ M} {task : Task M} {rest : List (Task M)}

def onTheWay (tasks : List (Task M)) : List M := tasks.flatMap Task.messages

theorem onTheWay_cons (h : task.OfSession) : onTheWay (task :: rest) = onTheWay rest := by
  rw [onTheWay, List.flatMap_cons, h.messages_eq, List.nil_append]
  rfl

theorem onTheWay_append (first last : List (Task M)) :
    onTheWay (first ++ last) = onTheWay first ++ onTheWay last := List.flatMap_append

theorem onTheWay_concat (h : task.OfSession) : onTheWay (rest ++ [task]) = onTheWay rest := by
  rw [onTheWay_append, onTheWay_cons h]
  exact List.append_nil _

theorem delivered_append (first last : List (Call M)) :
    delivered (first ++ last) = delivered first ++ delivered last := List.filterMap_append

theorem delivered_messages (messages : List M) :
    delivered (messages.map Call.onMessage) = messages := by
  rw [delivered, List.filterMap_map]
  exact List.filterMap_some

theorem onClose_notMem_messages (messages : List M) :
    Call.onClose ∉ messages.map Call.onMessage := by simp

def Ending (x : Server σ M) : Prop :=
  (x.handler = true ∧ .onClose ∉ x.calls ∧ ∃ front back,
    x.mainTasks = front ++ .onSessionClose :: back ∧ .onSessionClose ∉ front ∧ onTheWay back = []) ∨
  (x.handler = false ∧ onTheWay x.mainTasks = [] ∧
    ∃ before, x.calls = before ++ [.onClose] ∧ .onClose ∉ before)

/-- A message is with the handler, in a task for the handler, or still with the session, in this
order; when the session has been torn down it has none. -/
structure Accounted (x : Server σ M) : Prop where
  counted : x.session.HandlersCounted
  effects : x.session.effects = []
  parsed : delivered x.calls ++ onTheWay x.mainTasks ++ x.session.messagesReceived = x.parsed
  single : x.single = true → onTheWay x.mainTasks = []
  ofSession : ∀ task ∈ x.sessionTasks, task.OfSession
  standing : x.session.tornDown = 0 →
    x.handler = true ∧ .onClose ∉ x.calls ∧ .onSessionClose ∉ x.mainTasks
  ending : x.session.tornDown ≠ 0 → x.session.messagesReceived = [] ∧ x.Ending

def Awaited (x : Server σ M) : Prop :=
  x.session.messagesReceived ≠ [] → x.timer = true ∨ ∃ task ∈ x.tasks, task.Sends

theorem last_of_notMem {α : Type} {a : α} {before after first : List α}
    (h : before ++ a :: after = first ++ [a]) (hnot : a ∉ first) : after = [] ∧ before = first := by
  obtain rfl | ⟨front, last, rfl⟩ := List.eq_nil_or_concat after
  · exact ⟨rfl, (List.append_inj' h rfl).1⟩
  · have hsplit : (before ++ a :: front) ++ [last] = first ++ [a] := by
      simpa using h
    have hfirst := (List.append_inj' hsplit rfl).1
    exact absurd (hfirst ▸ List.mem_append_right _ List.mem_cons_self) hnot

theorem Accounted.delivers (h : Accounted x) (hawaited : Awaited x) : Delivers x := by
  have hmessages : delivered x.calls <+: x.parsed :=
    ⟨onTheWay x.mainTasks ++ x.session.messagesReceived, by rw [← List.append_assoc, h.parsed]⟩
  refine ⟨hmessages, fun before after hcalls => ?_, fun htasks htimer => ?_⟩
  · have hmem : .onClose ∈ x.calls := by simp [hcalls]
    have htorn : x.session.tornDown ≠ 0 := fun hzero => (h.standing hzero).2.1 hmem
    obtain ⟨hnone, ⟨-, hnot, -⟩ | ⟨-, hway, pre, hpre, hnot⟩⟩ := h.ending htorn
    · exact absurd hmem hnot
    obtain ⟨hafter, rfl⟩ := last_of_notMem (hcalls.symm.trans hpre) hnot
    have hparsed := h.parsed
    rw [hway, hnone, List.append_nil, List.append_nil, hpre, delivered_append] at hparsed
    exact ⟨hafter, (List.append_nil _).symm.trans hparsed⟩
  · obtain ⟨hmain, -⟩ := List.append_eq_nil_iff.mp htasks
    have hnone : x.session.messagesReceived = [] := by
      by_contra hne
      obtain hset | ⟨task, hmem, -⟩ := hawaited hne
      · exact absurd hset (by simp [htimer])
      · rw [htasks] at hmem
        exact absurd hmem List.not_mem_nil
    have hparsed := h.parsed
    rw [hmain, hnone, List.append_nil] at hparsed
    exact (List.append_nil _).symm.trans hparsed

/-! ## Posting and taking a task -/

theorem Ending.postMain (h : Ending x) (htask : task.OfSession) : Ending (x.postMain task) := by
  obtain ⟨hhandler, hcalls, front, back, hmain, hfront, hback⟩ | ⟨hhandler, hway, hcalls⟩ := h
  · refine .inl ⟨hhandler, hcalls, front, back ++ [task], ?_, hfront, ?_⟩
    · rw [Server.postMain, hmain, List.append_assoc, List.cons_append]
    · rw [onTheWay_concat htask, hback]
  · exact .inr ⟨hhandler, (onTheWay_concat htask).trans hway, hcalls⟩

theorem Accounted.postMain (h : Accounted x) (htask : task.OfSession) :
    Accounted (x.postMain task) := by
  have hway : onTheWay (x.postMain task).mainTasks = onTheWay x.mainTasks := onTheWay_concat htask
  refine ⟨h.counted, h.effects, hway ▸ h.parsed, fun hsingle => hway.trans (h.single hsingle),
    h.ofSession, fun hzero => ?_, fun hne => ?_⟩
  · obtain ⟨hhandler, hcalls, hnot⟩ := h.standing hzero
    refine ⟨hhandler, hcalls, fun hmem => ?_⟩
    rcases List.mem_append.mp hmem with hmem | hmem
    · exact hnot hmem
    · exact htask.ne_onSessionClose (List.mem_singleton.mp hmem).symm
  · exact ⟨(h.ending hne).1, (h.ending hne).2.postMain htask⟩

theorem Accounted.postSession (h : Accounted x) (htask : task.OfSession) :
    Accounted (x.postSession task) := by
  unfold Server.postSession
  split
  · exact h.postMain htask
  · refine ⟨h.counted, h.effects, h.parsed, h.single, fun other hmem => ?_, h.standing, h.ending⟩
    rcases List.mem_append.mp hmem with hmem | hmem
    · exact h.ofSession other hmem
    · rwa [List.mem_singleton.mp hmem]

theorem postSession_frame (x : Server σ M) (task : Task M) :
    (x.postSession task).session = x.session ∧ (x.postSession task).timer = x.timer ∧
      ∀ other, other ∈ (x.postSession task).tasks ↔ other ∈ x.tasks ∨ other = task := by
  unfold Server.postSession
  split
  · refine ⟨rfl, rfl, fun other => ?_⟩
    simp only [tasks, Server.postMain, List.mem_append, List.mem_singleton]
    tauto
  · refine ⟨rfl, rfl, fun other => ?_⟩
    simp only [tasks, List.mem_append, List.mem_singleton]
    tauto

theorem Ending.pop {tasks : List (Task M)} (h : Ending x) (hmain : x.mainTasks = task :: tasks)
    (htask : task.OfSession) : Ending { x with mainTasks := tasks } := by
  obtain ⟨hhandler, hcalls, front, back, heq, hfront, hback⟩ | ⟨hhandler, hway, hcalls⟩ := h
  · rw [hmain] at heq
    cases front with
    | nil => exact absurd (List.cons.inj heq).1 htask.ne_onSessionClose
    | cons first front =>
      refine .inl ⟨hhandler, hcalls, front, back, (List.cons.inj heq).2, fun hmem => ?_, hback⟩
      exact hfront (List.mem_cons_of_mem first hmem)
  · rw [hmain, onTheWay_cons htask] at hway
    exact .inr ⟨hhandler, hway, hcalls⟩

theorem Accounted.popMain (h : Accounted x) (hmain : x.mainTasks = task :: rest)
    (htask : task.OfSession) : Accounted { x with mainTasks := rest } := by
  have hway : onTheWay x.mainTasks = onTheWay rest := by rw [hmain, onTheWay_cons htask]
  refine ⟨h.counted, h.effects, hway ▸ h.parsed, fun hsingle => hway.symm.trans (h.single hsingle),
    h.ofSession, fun hzero => ?_, fun hne => ?_⟩
  · obtain ⟨hhandler, hcalls, hnot⟩ := h.standing hzero
    exact ⟨hhandler, hcalls, fun hmem => hnot (hmain ▸ List.mem_cons_of_mem task hmem)⟩
  · exact ⟨(h.ending hne).1, (h.ending hne).2.pop hmain htask⟩

theorem Accounted.popSession (h : Accounted x) (hsession : x.sessionTasks = task :: rest) :
    task.OfSession ∧ Accounted { x with sessionTasks := rest } := by
  refine ⟨h.ofSession task (hsession ▸ List.mem_cons_self), h.counted, h.effects, h.parsed,
    h.single, fun other hmem => ?_, h.standing, h.ending⟩
  exact h.ofSession other (hsession ▸ List.mem_cons_of_mem task hmem)

theorem Awaited.pop (h : Awaited x) (hsession : y.session = x.session) (htimer : y.timer = x.timer)
    (htasks : ∀ other ∈ x.tasks, other = task ∨ other ∈ y.tasks) (htask : ¬ task.Sends) :
    Awaited y := by
  intro hne
  rw [hsession] at hne
  obtain hset | ⟨other, hmem, hsends⟩ := h hne
  · exact .inl (htimer.trans hset)
  · obtain rfl | hmem := htasks other hmem
    · exact absurd hsends htask
    · exact .inr ⟨other, hmem, hsends⟩

theorem Awaited.postSession (h : Awaited x) (task : Task M) : Awaited (x.postSession task) := by
  obtain ⟨hsession, htimer, htasks⟩ := postSession_frame x task
  intro hne
  rw [hsession] at hne
  obtain hset | ⟨other, hmem, hsends⟩ := h hne
  · exact .inl (htimer.trans hset)
  · exact .inr ⟨other, (htasks other).mpr (.inl hmem), hsends⟩

/-! ## Executing a task -/

theorem Accounted.timer (h : Accounted x) (b : Bool) : Accounted { x with timer := b } :=
  ⟨h.counted, h.effects, h.parsed, h.single, h.ofSession, h.standing, h.ending⟩

theorem Accounted.cancel (h : Accounted x) : Accounted x.cancel := by
  have htask : (Task.handleReceiveTimer true : Task M).OfSession := trivial
  unfold Server.cancel
  split
  · exact (h.postSession htask).timer false
  · exact h

theorem cancel_session (x : Server σ M) : x.cancel.session = x.session := by
  unfold Server.cancel
  split
  · exact (postSession_frame x _).1
  · rfl

theorem arrive (h : Accounted x) {old new : List M} (delay : Bool)
    (hmessages : x.session.messagesReceived = old ++ new)
    (hawaited : old ≠ [] → x.timer = true ∨ ∃ task ∈ x.tasks, task.Sends) :
    Accounted ((TCPSession.arrival delay old new).foldl perform x) ∧
      Awaited ((TCPSession.arrival delay old new).foldl perform x) := by
  unfold TCPSession.arrival
  split
  · next hnew =>
    cases delay with
    | false =>
      have htask : (Task.session .packMessageList : Task M).OfSession := trivial
      refine ⟨h.postSession htask, fun _ => .inr ⟨.session .packMessageList, ?_, trivial⟩⟩
      exact ((postSession_frame x _).2.2 _).mpr (.inr rfl)
    | true => exact ⟨h.cancel.timer true, fun _ => .inl rfl⟩
  · next hnone =>
    refine ⟨h, fun hne => hawaited fun hold => hnone ⟨hold, fun hnew => hne ?_⟩⟩
    rw [List.foldl_nil, hmessages, hold, hnew, List.append_nil]

theorem Accounted.endSession {s t : TCPSession σ M} (h : Accounted x) (hs : x.session = s)
    (hstanding : s.tornDown = 0) (hnone : s.messagesReceived = []) (hcounted : t.HandlersCounted)
    (hends : s.Ends t) : Accounted (x.update t) ∧ Awaited (x.update t) := by
  obtain ⟨hmessages, htorn, heffects⟩ := hends
  obtain ⟨hhandler, hcalls, hnot⟩ := h.standing (hs ▸ hstanding)
  set z : Server σ M :=
    { x with session := { t with effects := [] }, mainTasks := x.mainTasks ++ [.onSessionClose] }
    with hz
  have hway : onTheWay z.mainTasks = onTheWay x.mainTasks := by
    rw [hz, onTheWay_append]
    exact List.append_nil _
  have hparsed := h.parsed
  rw [hs, hnone] at hparsed
  have hupdate : x.update t = z.cancel := by
    have hposts : t.effects = [.onSessionClose, .cancelTimer] := by
      rw [heffects, ← hs, h.effects, hs, hnone]
      rfl
    rw [update, hposts]
    rfl
  have hend : Accounted z := by
    refine ⟨⟨hcounted.counted, hcounted.tornDown_le, hcounted.none_left⟩, rfl, ?_,
      fun hsingle => hway.trans (h.single hsingle), h.ofSession, fun hzero => ?_, fun _ => ?_⟩
    · rw [hway]
      exact hmessages.symm ▸ hparsed
    · exact absurd (htorn.symm.trans hzero) (Nat.succ_ne_zero _)
    · exact ⟨hmessages, .inl ⟨hhandler, hcalls, x.mainTasks, [], rfl, hnot, rfl⟩⟩
  rw [hupdate]
  refine ⟨hend.cancel, fun hne => absurd ?_ hne⟩
  rw [cancel_session]
  exact hmessages

theorem execute_session {e : SessionEvent M} (h : Accounted x) (hawaited : Awaited x)
    (hpack : e ≠ .packMessageList)
    (hC : TearsDown F x.session e → x.session.messagesReceived = [])
    (hy : x.execute F (.session e) = some y) : Accounted y ∧ Awaited y := by
  simp only [execute] at hy
  split at hy
  · exact Option.some.inj hy ▸ ⟨h, hawaited⟩
  next hstanding =>
  have hstanding := not_not.mp hstanding
  obtain ⟨t, ht, rfl⟩ := Option.map_eq_some_iff.mp hy
  have hcounted := TCPSession.handlersCounted_step _ _ _ h.counted ht
  obtain ⟨hhandler, hcalls, hnot⟩ := h.standing hstanding
  obtain ⟨hmessages, htorn, heffects⟩ | ⟨⟨htears, hnew⟩, hends⟩ :=
    TCPSession.step_reports h.counted hpack ht
  · set z : Server σ M := { x with
      parsed := x.parsed ++ parses F x.session e
      session := { t with effects := [] } } with hz
    have hnext : Accounted z := by
      refine ⟨⟨hcounted.counted, hcounted.tornDown_le, hcounted.none_left⟩, rfl, ?_, h.single,
        h.ofSession, fun _ => ⟨hhandler, hcalls, hnot⟩, fun hne => ?_⟩
      · rw [hz, ← h.parsed, List.append_assoc, hmessages, List.append_assoc, List.append_assoc]
      · exact absurd (htorn.trans hstanding) hne
    rw [h.effects, List.nil_append] at heffects
    rw [update, heffects]
    exact arrive hnext x.session.receiveDelay hmessages hawaited
  · rw [hnew, List.append_nil]
    exact h.endSession rfl hstanding (hC htears) hcounted hends

theorem Accounted.closed_of_handler (h : Accounted x) (hhandler : x.handler = false) :
    x.session.messagesReceived = [] ∧ onTheWay x.mainTasks = [] := by
  have htorn : x.session.tornDown ≠ 0 := fun hzero =>
    absurd (h.standing hzero).1 (by simp [hhandler])
  obtain ⟨hnone, ⟨hthere, -⟩ | ⟨-, hway, -⟩⟩ := h.ending htorn
  · exact absurd hthere (by simp [hhandler])
  · exact ⟨hnone, hway⟩

theorem onClose_notMem_append {calls : List (Call M)} (h : .onClose ∉ calls) (messages : List M) :
    .onClose ∉ calls ++ messages.map .onMessage := by
  rw [List.mem_append]
  exact not_or.mpr ⟨h, onClose_notMem_messages messages⟩

theorem Accounted.sendMessageListDirectly (h : Accounted x) (hsingle : x.single = true) :
    Accounted x.sendMessageListDirectly ∧ Awaited x.sendMessageListDirectly := by
  have hway := h.single hsingle
  unfold Server.sendMessageListDirectly
  split
  · next hhandler =>
    rw [deliver, if_pos hhandler]
    refine ⟨⟨⟨h.counted.counted, h.counted.tornDown_le, h.counted.none_left⟩, h.effects, ?_,
      h.single, h.ofSession, fun hzero => ?_, fun hne => ⟨rfl, ?_⟩⟩, fun hne => absurd rfl hne⟩
    · have hparsed := h.parsed
      rw [hway, List.append_nil] at hparsed
      rw [delivered_append, delivered_messages, hway, List.append_nil, List.append_nil, hparsed]
    · obtain ⟨hthere, hcalls, hnot⟩ := h.standing hzero
      exact ⟨hthere, onClose_notMem_append hcalls _, hnot⟩
    · obtain ⟨hnone, ⟨hthere, hcalls, hmain⟩ | ⟨hgone, -⟩⟩ := h.ending hne
      · exact .inl ⟨hthere, onClose_notMem_append hcalls _, hmain⟩
      · exact absurd hhandler (by simp [hgone])
  · next hhandler =>
    have hnone := (h.closed_of_handler (by simpa using hhandler)).1
    exact ⟨h, fun hne => absurd hnone hne⟩

theorem Accounted.packMessageList (h : Accounted x) (hsingle : x.single = false) :
    Accounted (x.update x.session.packMessageList) ∧
      Awaited (x.update x.session.packMessageList) := by
  set s : TCPSession σ M := { x.session with messagesReceived := [], effects := [] } with hs
  have hcounted : s.HandlersCounted :=
    ⟨h.counted.counted, h.counted.tornDown_le, h.counted.none_left⟩
  have hupdate : x.update x.session.packMessageList =
      (TCPSession.packed x.session.messagesReceived).foldl perform { x with session := s } := by
    rw [TCPSession.packMessageList_eq, update, h.effects]
    rfl
  rw [hupdate]
  cases hmessages : x.session.messagesReceived with
  | nil =>
    have hsame : s = x.session := by rw [hs, ← hmessages, ← h.effects]
    rw [hsame]
    exact ⟨h, fun hne => absurd hmessages hne⟩
  | cons message messages =>
    have hstanding : x.session.tornDown = 0 := by
      by_contra hne
      exact absurd (h.ending hne).1 (by simp [hmessages])
    obtain ⟨hhandler, hcalls, hnot⟩ := h.standing hstanding
    set z : Server σ M := { x with
      session := s
      mainTasks := x.mainTasks ++ [.sendMessageListToHandler (message :: messages)] } with hz
    have hway : onTheWay z.mainTasks = onTheWay x.mainTasks ++ x.session.messagesReceived := by
      rw [hz, onTheWay_append, hmessages]
      exact congrArg _ (List.append_nil _)
    have hsent : Accounted z := by
      refine ⟨hcounted, rfl, ?_, fun htrue => ?_, h.ofSession, fun _ => ⟨hhandler, hcalls, ?_⟩,
        fun hne => absurd hstanding hne⟩
      · rw [hway, hz, hs, List.append_nil, ← List.append_assoc]
        exact h.parsed
      · exact absurd (htrue.symm.trans hsingle) Bool.true_eq_false.mp
      · exact fun hmem => (List.mem_append.mp hmem).elim hnot (by simp)
    exact ⟨hsent, fun hne => absurd rfl hne⟩

theorem Accounted.sendMessageList (h : Accounted x) :
    Accounted x.sendMessageList ∧ Awaited x.sendMessageList := by
  unfold Server.sendMessageList
  split
  · next hsingle => exact h.sendMessageListDirectly hsingle
  · next hsingle => exact h.packMessageList (by simpa using hsingle)

theorem Accounted.popDeliver {messages : List M} (h : Accounted x)
    (hmain : x.mainTasks = .sendMessageListToHandler messages :: rest) :
    Accounted (deliver { x with mainTasks := rest } messages) := by
  have hway : onTheWay x.mainTasks = messages ++ onTheWay rest := by
    rw [hmain, onTheWay, List.flatMap_cons]
    rfl
  have hparsed := h.parsed
  rw [hway] at hparsed
  unfold deliver
  split
  · next hhandler =>
    refine ⟨h.counted, h.effects, ?_, fun hsingle => ?_, h.ofSession, fun hzero => ?_, fun hne => ?_⟩
    · rw [delivered_append, delivered_messages, List.append_assoc (delivered _), hparsed]
    · exact (List.append_eq_nil_iff.mp (hway.symm.trans (h.single hsingle))).2
    · obtain ⟨hthere, hcalls, hnot⟩ := h.standing hzero
      refine ⟨hthere, onClose_notMem_append hcalls _, fun hmem => hnot ?_⟩
      exact hmain ▸ List.mem_cons_of_mem _ hmem
    · refine ⟨(h.ending hne).1, .inl ⟨hhandler, ?_⟩⟩
      obtain ⟨-, hcalls, front, back, heq, hfront, hback⟩ | ⟨hgone, -⟩ := (h.ending hne).2
      · rw [hmain] at heq
        cases front with
        | nil => exact absurd (List.cons.inj heq).1 (by simp)
        | cons first front =>
          exact ⟨onClose_notMem_append hcalls _, front, back, (List.cons.inj heq).2,
            fun hmem => hfront (List.mem_cons_of_mem first hmem), hback⟩
      · exact absurd hhandler (by simp [hgone])
  · next hhandler =>
    have hnone := (h.closed_of_handler (by simpa using hhandler)).2
    have htorn : x.session.tornDown ≠ 0 := fun hzero => hhandler (h.standing hzero).1
    obtain ⟨hempty, ⟨hthere, -⟩ | ⟨hgone, -, hcalls⟩⟩ := h.ending htorn
    · exact absurd hthere hhandler
    rw [hway, List.append_eq_nil_iff] at hnone
    rw [hnone.1, List.nil_append] at hparsed
    exact ⟨h.counted, h.effects, hparsed, fun _ => hnone.2, h.ofSession,
      fun hzero => absurd hzero htorn, fun _ => ⟨hempty, .inr ⟨hgone, hnone.2, hcalls⟩⟩⟩

theorem Accounted.popOnSessionClose (h : Accounted x)
    (hmain : x.mainTasks = .onSessionClose :: rest) :
    Accounted (onSessionClose { x with mainTasks := rest }) := by
  have hway : onTheWay x.mainTasks = onTheWay rest := by
    rw [hmain, onTheWay, List.flatMap_cons]
    rfl
  have htorn : x.session.tornDown ≠ 0 := fun hzero =>
    (h.standing hzero).2.2 (hmain ▸ List.mem_cons_self)
  obtain ⟨hempty, hending⟩ := h.ending htorn
  have hparsed := h.parsed
  unfold onSessionClose
  split
  · next hhandler =>
    obtain ⟨-, hcalls, front, back, heq, hfront, hback⟩ | ⟨hgone, -⟩ := hending
    · have hrest : onTheWay rest = [] := by
        rw [hmain] at heq
        cases front with
        | nil => rwa [(List.cons.inj heq).2]
        | cons first front => exact absurd ((List.cons.inj heq).1 ▸ List.mem_cons_self) hfront
      rw [hway] at hparsed
      refine ⟨h.counted, h.effects, ?_, fun _ => hrest, h.ofSession,
        fun hzero => absurd hzero htorn,
        fun _ => ⟨hempty, .inr ⟨rfl, hrest, x.calls, rfl, hcalls⟩⟩⟩
      rw [delivered_append]
      exact (congrArg (· ++ _ ++ _) (List.append_nil _)).trans hparsed
    · exact absurd hhandler (by simp [hgone])
  · next hhandler =>
    obtain ⟨hthere, -⟩ | ⟨hgone, hnone, hcalls⟩ := hending
    · exact absurd hthere hhandler
    · rw [hway] at hparsed hnone
      exact ⟨h.counted, h.effects, hparsed, fun _ => hnone, h.ofSession,
        fun hzero => absurd hzero htorn, fun _ => ⟨hempty, .inr ⟨hgone, hnone, hcalls⟩⟩⟩

theorem execute_ofSession (h : Accounted x) (htask : task.OfSession)
    (hawaited : ¬ task.Sends → Awaited x)
    (hC : ∀ e, task = .session e → TearsDown F x.session e → x.session.messagesReceived = [])
    (hy : x.execute F task = some y) : Accounted y ∧ Awaited y := by
  cases task with
  | session e =>
    by_cases hpack : e = .packMessageList
    · subst hpack
      exact Option.some.inj hy ▸ h.sendMessageList
    · have hnot : ¬ (Task.session e).Sends := by
        intro hsends
        cases e with
        | packMessageList => exact hpack rfl
        | _ => exact hsends
      exact execute_session h (hawaited hnot) hpack (hC e rfl) hy
  | handleReceiveTimer error =>
    cases error with
    | true => exact Option.some.inj hy ▸ ⟨h, hawaited id⟩
    | false => exact Option.some.inj hy ▸ h.sendMessageList
  | sendMessageListToHandler messages => exact htask.elim
  | onSessionClose => exact htask.elim

theorem call_kept {e : SessionEvent M} (h : Accounted x) (hawaited : Awaited x) :
    Accounted (x.call e) ∧ Awaited (x.call e) := by
  unfold call
  split
  · exact ⟨h.postSession trivial, hawaited.postSession _⟩
  · exact ⟨h, hawaited⟩

theorem runMain_kept (h : Accounted x) (hawaited : Awaited x) (hC : HandedOver F x .runMain)
    (hy : x.step F .runMain = some y) : Accounted y ∧ Awaited y := by
  simp only [step] at hy
  split at hy
  · cases hy
  next task rest hmain =>
  have hpop : ∀ z : Server σ M, z.session = x.session → z.timer = x.timer →
      z.mainTasks = rest → z.sessionTasks = x.sessionTasks → ¬ task.Sends → Awaited z := by
    intro z hsession htimer hrest hothers
    refine hawaited.pop hsession htimer fun other hmem => ?_
    rw [tasks, hmain, List.cons_append, List.mem_cons] at hmem
    rwa [tasks, hrest, hothers]
  cases task with
  | sendMessageListToHandler messages =>
    rw [← Option.some.inj hy]
    refine ⟨h.popDeliver hmain, ?_⟩
    unfold deliver
    split
    · exact hpop _ rfl rfl rfl rfl id
    · exact hpop _ rfl rfl rfl rfl id
  | onSessionClose =>
    rw [← Option.some.inj hy]
    refine ⟨h.popOnSessionClose hmain, ?_⟩
    unfold onSessionClose
    split
    · exact hpop _ rfl rfl rfl rfl id
    · exact hpop _ rfl rfl rfl rfl id
  | session e =>
    have htask : (Task.session e : Task M).OfSession := trivial
    refine execute_ofSession (h.popMain hmain htask) htask (hpop _ rfl rfl rfl rfl) ?_ hy
    rintro e' ⟨⟩ htears
    exact hC e rest hmain htears
  | handleReceiveTimer error =>
    have htask : (Task.handleReceiveTimer error : Task M).OfSession := trivial
    exact execute_ofSession (h.popMain hmain htask) htask (hpop _ rfl rfl rfl rfl)
      (fun e heq => by cases heq) hy

theorem runSession_kept (h : Accounted x) (hawaited : Awaited x) (hC : HandedOver F x .runSession)
    (hy : x.step F .runSession = some y) : Accounted y ∧ Awaited y := by
  simp only [step] at hy
  split at hy
  · cases hy
  next task rest hsession =>
  obtain ⟨htask, hrest⟩ := h.popSession hsession
  refine execute_ofSession hrest htask (fun hnot => ?_) (fun e heq htears => ?_) hy
  · refine hawaited.pop rfl rfl (fun other hmem => ?_) hnot
    simp only [tasks, hsession, List.mem_append, List.mem_cons] at hmem ⊢
    tauto
  · exact hC e rest (heq ▸ hsession) htears

theorem kept_step (x : Server σ M) (e : ServerEvent M) (y : Server σ M)
    (h : Accounted x ∧ Awaited x) (hC : HandedOver F x e) (hy : x.step F e = some y) :
    Accounted y ∧ Awaited y := by
  obtain ⟨haccounted, hawaited⟩ := h
  cases e with
  | read reading error data =>
    simp only [step] at hy
    split at hy
    · exact Option.some.inj hy ▸ ⟨haccounted.postSession trivial, hawaited.postSession _⟩
    · cases hy
  | written buffer error =>
    simp only [step] at hy
    split at hy
    · exact Option.some.inj hy ▸ ⟨haccounted.postSession trivial, hawaited.postSession _⟩
    · cases hy
  | timerExpires =>
    simp only [step] at hy
    split at hy
    · have htask : (Task.handleReceiveTimer false : Task M).OfSession := trivial
      rw [← Option.some.inj hy]
      refine ⟨(haccounted.postSession htask).timer false,
        fun _ => .inr ⟨.handleReceiveTimer false, ?_, trivial⟩⟩
      exact ((postSession_frame x _).2.2 _).mpr (.inr rfl)
    · cases hy
  | postMessageList messages => exact Option.some.inj hy ▸ call_kept haccounted hawaited
  | close => exact Option.some.inj hy ▸ call_kept haccounted hawaited
  | setReceiveDelay delay => exact Option.some.inj hy ▸ call_kept haccounted hawaited
  | runMain => exact runMain_kept haccounted hawaited hC hy
  | runSession => exact runSession_kept haccounted hawaited hC hy

theorem kept_init (F : NetMessageFilter σ M) (single : Bool) (f : σ) :
    Accounted (init F single f) ∧ Awaited (init F single f) := by
  have hinit : (TCPSession.init F f).messagesReceived = [] ∧ (TCPSession.init F f).effects = [] ∧
      (TCPSession.init F f).tornDown = 0 := by
    obtain ⟨-, heq⟩ | ⟨-, reading, heq⟩ :=
      TCPSession.startRead_cases F ({ filter := f } : TCPSession σ M)
    all_goals rw [TCPSession.init, heq]; exact ⟨rfl, rfl, rfl⟩
  obtain ⟨hnone, heffects, hstanding⟩ := hinit
  refine ⟨⟨TCPSession.handlersCounted_init F f, heffects, hnone, fun _ => rfl,
    fun task hmem => absurd hmem List.not_mem_nil,
    fun _ => ⟨rfl, List.not_mem_nil, List.not_mem_nil⟩, fun hne => absurd hstanding hne⟩, ?_⟩
  exact fun hne => absurd hnone hne

/-- When a session is torn down only after its messages have left it, the handler gets every one
of them, once, in order and before it hears of the end. -/
theorem delivers_of_handedOver (F : NetMessageFilter σ M) (single : Bool) (f : σ)
    (events : List (ServerEvent M))
    (hC : Run.EachStep (step F) (HandedOver F) (init F single f) events) :
    Run.Always (step F) Delivers (init F single f) events :=
  (Run.always_of_eachStep (I := fun x => Accounted x ∧ Awaited x) kept_step
    (kept_init F single f) hC).mono fun _ h => h.1.delivers h.2

theorem delivers_of_handedOver_message :
    Run.Always (step myFilter) Delivers (init myFilter false {})
      [.read (.exactly 2) false [1, 0], .runSession, .read (.exactly 1) false [7], .runSession,
        .runSession, .runMain, .read (.exactly 2) true [], .runSession, .runMain] := by
  refine delivers_of_handedOver myFilter false {} _ fun x hx => ⟨trivial, ?_⟩
  obtain rfl := Option.some.inj hx
  refine fun x hx => ⟨fun _ _ _ _ => rfl, ?_⟩
  obtain rfl := Option.some.inj hx
  refine fun x hx => ⟨trivial, ?_⟩
  obtain rfl := Option.some.inj hx
  refine fun x hx => ⟨fun _ _ _ _ => rfl, ?_⟩
  obtain rfl := Option.some.inj hx
  -- the task that takes the message from the session
  refine fun x hx => ⟨fun e rest htask htears => ?_, ?_⟩
  · cases htask
    exact htears.elim
  obtain rfl := Option.some.inj hx
  refine fun x hx => ⟨fun _ _ _ _ => rfl, ?_⟩
  obtain rfl := Option.some.inj hx
  refine fun x hx => ⟨trivial, ?_⟩
  obtain rfl := Option.some.inj hx
  refine fun x hx => ⟨fun _ _ _ _ => rfl, ?_⟩
  obtain rfl := Option.some.inj hx
  exact fun x hx => ⟨fun _ _ _ _ => rfl, trivial⟩

/-- With a receive delay the end of the session overtakes a message that has been parsed. -/
theorem not_delivers_delayed : ¬ Run.Always (step myFilter) Delivers (init myFilter false {})
    [.setReceiveDelay true, .runSession, .read (.exactly 2) false [1, 0], .runSession,
      .read (.exactly 1) false [7], .runSession, .read (.exactly 2) true [], .runSession,
      .runMain] := by
  intro hall
  have hend := (Run.always_iff_prefixes _ _).mp hall _ (List.prefix_refl _) _ rfl
  exact absurd (hend.2.1 [] [] rfl).2 (by decide)

end Server

end IceBridge.Eddy
