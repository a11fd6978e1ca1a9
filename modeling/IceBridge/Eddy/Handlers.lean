import IceBridge.Eddy.MyFilter

/-! The outstanding operations of a session: they are counted right, so a session is torn down
once, when none is left. A session that waits for a peer's bytes is not torn down when it is
closed, even if there is nothing to send. -/

namespace IceBridge.Eddy

namespace TCPSession
variable {σ M : Type} {F : NetMessageFilter σ M} {s t : TCPSession σ M}

/-! ## What the parts of the session do -/

def readDone (s : TCPSession σ M) (reading : Reading) : TCPSession σ M :=
  handled { s with reads := s.reads.erase reading }

def writeDone (s : TCPSession σ M) (buffer : List UInt8) : TCPSession σ M :=
  handled { s with writes := s.writes.erase buffer }

def packed : List M → List (Effect M)
  | [] => []
  | messages => [.sendMessageListToHandler messages]

theorem startTimer_notMem_packed (messages : List M) : Effect.startTimer ∉ packed messages := by
  cases messages <;> simp [packed]

theorem packMessageList_eq (s : TCPSession σ M) : s.packMessageList =
    { s with messagesReceived := [], effects := s.effects ++ packed s.messagesReceived } := by
  unfold packMessageList
  split
  · next hnone => rw [hnone, packed, List.append_nil, ← hnone]
  · next hsome => rw [packed.eq_2 _ hsome]

theorem handleClose_cases (s : TCPSession σ M) :
    (0 < s.numHandlers ∨ s.activeClosed) ∧ s.handleClose = s ∨
    (s.numHandlers ≤ 0 ∧ s.activeClosed = false) ∧ s.handleClose = { s with
      messagesReceived := []
      effects := s.effects ++ .onSessionClose :: .cancelTimer :: packed s.messagesReceived
      tornDown := s.tornDown + 1 } := by
  unfold handleClose
  split_ifs with hwaits
  · exact .inl ⟨hwaits, rfl⟩
  · obtain ⟨hnone, hactive⟩ := not_or.mp hwaits
    refine .inr ⟨⟨Int.not_lt.mp hnone, by simpa using hactive⟩, ?_⟩
    rw [tearDown, packMessageList_eq, List.append_assoc]
    rfl

theorem closed_handleClose (s : TCPSession σ M) : s.handleClose.closed = s.closed := by
  obtain ⟨-, heq⟩ | ⟨-, heq⟩ := handleClose_cases s
  all_goals rw [heq]

theorem closed_shut (s : TCPSession σ M) : s.shut.closed = true := closed_handleClose _

theorem startRead_cases (F : NetMessageFilter σ M) (s : TCPSession σ M) :
    F.bytesWannaRead s.filter = 0 ∧ s.startRead F = s ∨
    F.bytesWannaRead s.filter ≠ 0 ∧ ∃ reading, s.startRead F =
      { s with numHandlers := s.numHandlers + 1, reads := s.reads ++ [reading] } := by
  by_cases hnone : F.bytesWannaRead s.filter = 0
  · exact .inl ⟨hnone, if_pos hnone⟩
  · exact .inr ⟨hnone, _, if_neg hnone⟩

def arrival (receiveDelay : Bool) (old new : List M) : List (Effect M) :=
  if old = [] ∧ new ≠ [] then [if receiveDelay then .startTimer else .packMessageList] else []

theorem startTimer_notMem_arrival (old new : List M) : Effect.startTimer ∉ arrival false old new := by
  unfold arrival
  split <;> simp

theorem receive_cases {data : List UInt8} (h : s.receive F data = some t) :
    t = startRead F { s with
      filter := (F.read s.filter data).1
      messagesReceived := s.messagesReceived ++ (F.read s.filter data).2.1
      effects := s.effects ++
        arrival s.receiveDelay s.messagesReceived (F.read s.filter data).2.1 } := by
  unfold receive at h
  dsimp only at h
  by_cases hall : (F.read s.filter data).2.2 = data.length
  · rw [if_neg (not_not.mpr hall)] at h
    exact (Option.some.inj h).symm
  · rw [if_pos hall] at h
    cases h

theorem postMessageList_cases {messages : List M} (h : s.postMessageList F messages = some t) :
    t = s ∨ s.closed = false ∧ ((∃ left, t = { s with messagesToBeSent := left }) ∨
      ∃ f buffer, (s.bufferSending ≠ [] ∧ t = { s with filter := f, bufferToBeSent := buffer }) ∨
        (s.bufferSending = [] ∧ t = startWrite { s with filter := f, bufferToBeSent := buffer })) := by
  unfold postMessageList at h
  split at h
  · exact .inl (Option.some.inj h).symm
  next hclosed =>
  have hclosed : s.closed = false := by simpa using hclosed
  split at h
  · cases h
  split at h
  · exact .inr ⟨hclosed, .inl ⟨messages, (Option.some.inj h).symm⟩⟩
  obtain ⟨⟨f, left, bytes⟩, -, h⟩ := Option.bind_eq_some_iff.mp h
  refine .inr ⟨hclosed, .inr ⟨f, s.bufferToBeSent ++ bytes, ?_⟩⟩
  have heq := (Option.some.inj h).symm
  by_cases hsending : s.bufferSending = []
  · exact .inr ⟨hsending, heq.trans (if_pos hsending)⟩
  · exact .inl ⟨hsending, heq.trans (if_neg hsending)⟩

theorem sendNext_cases (h : s.sendNext F = some t) :
    (s.bufferToBeSent = [] → F.bytesWannaWrite s.filter s.messagesToBeSent ≠ 0) ∧
      (∃ f left buffer, t = startWrite
        { s with filter := f, messagesToBeSent := left, bufferToBeSent := buffer }) ∨
    (s.bufferToBeSent = [] ∧ F.bytesWannaWrite s.filter s.messagesToBeSent = 0) ∧
      t = if s.closed then s.handleClose else s := by
  unfold sendNext at h
  split at h
  · next hbuffer =>
    exact .inl ⟨fun hnone => absurd hnone hbuffer,
      s.filter, s.messagesToBeSent, s.bufferToBeSent, (Option.some.inj h).symm⟩
  next hbuffer =>
  split at h
  · next hwanna => exact .inr ⟨⟨not_not.mp hbuffer, hwanna⟩, (Option.some.inj h).symm⟩
  · next hwanna =>
    obtain ⟨⟨f, left, bytes⟩, -, h⟩ := Option.bind_eq_some_iff.mp h
    exact .inl ⟨fun _ => hwanna, f, left, bytes, (Option.some.inj h).symm⟩

/-! ## The count of the outstanding operations -/

structure Standing (s : TCPSession σ M) : Prop where
  counted : s.numHandlers = s.reads.length + s.writes.length
  standing : s.tornDown = 0

/-- A session is torn down at most once, and then has no handlers and gets none. -/
structure HandlersCounted (s : TCPSession σ M) : Prop where
  counted : s.numHandlers = s.reads.length + s.writes.length
  tornDown_le : s.tornDown ≤ 1
  none_left : s.tornDown ≠ 0 → s.closed = true ∧ s.reads = [] ∧ s.writes = []

theorem Standing.handlersCounted (h : Standing s) : HandlersCounted s :=
  ⟨h.counted, by rw [h.standing]; exact Nat.zero_le 1, fun hne => absurd h.standing hne⟩

theorem HandlersCounted.standing_of_open (h : HandlersCounted s) (hopen : s.closed = false) :
    Standing s := by
  refine ⟨h.counted, ?_⟩
  by_contra hne
  exact absurd (h.none_left hne).1 (by simp [hopen])

theorem Standing.startRead (h : Standing s) : Standing (s.startRead F) := by
  obtain ⟨-, heq⟩ | ⟨-, reading, heq⟩ := startRead_cases F s
  · rwa [heq]
  · rw [heq]
    refine ⟨?_, h.standing⟩
    have hcount := h.counted
    simp only [List.length_append, List.length_singleton]
    omega

theorem Standing.startWrite (h : Standing s) : Standing s.startWrite := by
  refine ⟨?_, h.standing⟩
  have hcount := h.counted
  simp only [TCPSession.startWrite, List.length_append, List.length_singleton]
  omega

theorem Standing.handleClose (h : Standing s) (hclosed : s.closed = true) :
    HandlersCounted s.handleClose := by
  obtain ⟨-, heq⟩ | ⟨⟨hnone, -⟩, heq⟩ := handleClose_cases s
  · rw [heq]
    exact h.handlersCounted
  · have hcount := h.counted
    have hreads : s.reads.length = 0 := by omega
    have hwrites : s.writes.length = 0 := by omega
    have hempty : s.reads = [] ∧ s.writes = [] :=
      ⟨List.length_eq_zero_iff.mp hreads, List.length_eq_zero_iff.mp hwrites⟩
    rw [heq]
    refine ⟨h.counted, ?_, fun _ => ⟨hclosed, hempty⟩⟩
    have hstanding := h.standing
    simp only
    omega

theorem Standing.shut (h : Standing s) : HandlersCounted s.shut :=
  Standing.handleClose ⟨h.counted, h.standing⟩ rfl

theorem Standing.receive {data : List UInt8} (h : Standing s) (ht : s.receive F data = some t) :
    Standing t := by
  rw [receive_cases ht]
  exact Standing.startRead ⟨h.counted, h.standing⟩

theorem Standing.sendNext (h : Standing s) (ht : s.sendNext F = some t) : HandlersCounted t := by
  obtain ⟨-, f, left, buffer, rfl⟩ | ⟨-, rfl⟩ := sendNext_cases ht
  · have hnext : Standing
        { s with filter := f, messagesToBeSent := left, bufferToBeSent := buffer } :=
      ⟨h.counted, h.standing⟩
    exact hnext.startWrite.handlersCounted
  · split
    · next hclosed => exact h.handleClose hclosed
    · exact h.handlersCounted

theorem HandlersCounted.postMessageList {messages : List M} (h : HandlersCounted s)
    (ht : s.postMessageList F messages = some t) : HandlersCounted t := by
  obtain rfl | ⟨hopen, hrest⟩ := postMessageList_cases ht
  · exact h
  have hstanding := h.standing_of_open hopen
  obtain ⟨left, rfl⟩ | ⟨f, buffer, ⟨-, rfl⟩ | ⟨-, rfl⟩⟩ := hrest
  · exact ⟨h.counted, h.tornDown_le, h.none_left⟩
  · exact ⟨h.counted, h.tornDown_le, h.none_left⟩
  · have hnext : Standing { s with filter := f, bufferToBeSent := buffer } :=
      ⟨hstanding.counted, hstanding.standing⟩
    exact hnext.startWrite.handlersCounted

theorem HandlersCounted.close (h : HandlersCounted s) : HandlersCounted s.close := by
  unfold TCPSession.close
  split
  · exact ⟨h.counted, h.tornDown_le, h.none_left⟩
  next hopen =>
  have hstanding := h.standing_of_open (by simpa using hopen)
  exact Standing.shut ⟨hstanding.counted, hstanding.standing⟩

theorem HandlersCounted.standing_read {reading : Reading} (h : HandlersCounted s)
    (hmem : reading ∈ s.reads) : Standing (s.readDone reading) := by
  have hcount := h.counted
  have hpos : 0 < s.reads.length := List.length_pos_of_mem hmem
  refine ⟨?_, ?_⟩
  · simp only [readDone, handled, List.length_erase_of_mem hmem]
    omega
  · by_contra hne
    rw [(h.none_left hne).2.1] at hmem
    exact absurd hmem List.not_mem_nil

theorem HandlersCounted.standing_write {buffer : List UInt8} (h : HandlersCounted s)
    (hmem : buffer ∈ s.writes) : Standing (s.writeDone buffer) := by
  have hcount := h.counted
  have hpos : 0 < s.writes.length := List.length_pos_of_mem hmem
  refine ⟨?_, ?_⟩
  · simp only [writeDone, handled, List.length_erase_of_mem hmem]
    omega
  · by_contra hne
    rw [(h.none_left hne).2.2] at hmem
    exact absurd hmem List.not_mem_nil

theorem step_handleRead_cases {reading : Reading} {error : Bool} {data : List UInt8}
    (h : s.step F (.handleRead reading error data) = some t) :
    (reading ∈ s.reads ∧ (error = true ∨ reading.Fits data)) ∧
      ((error = true ∨ s.closed = true) ∧
          t = shut (s.readDone reading) ∨
        (error = false ∧ s.closed = false) ∧
          receive F (s.readDone reading) data = some t) := by
  simp only [step] at h
  split at h
  · next hfits =>
    refine ⟨hfits, ?_⟩
    unfold handleRead at h
    split at h
    · cases h
    split at h
    · next hend => exact .inl ⟨hend, (Option.some.inj h).symm⟩
    · next hgoes => exact .inr ⟨by simpa using hgoes, h⟩
  · cases h

theorem step_handleWrite_cases {buffer : List UInt8} {error : Bool}
    (h : s.step F (.handleWrite buffer error) = some t) :
    buffer ∈ s.writes ∧
      (error = true ∧ t = shut (s.writeDone buffer) ∨
        error = false ∧ sendNext F
          { s.writeDone buffer with bufferSending := [] } =
            some t) := by
  simp only [step] at h
  split at h
  · next hmem =>
    refine ⟨hmem, ?_⟩
    unfold handleWrite at h
    split at h
    · cases h
    split at h
    · next herror => exact .inl ⟨herror, (Option.some.inj h).symm⟩
    · next herror => exact .inr ⟨by simpa using herror, h⟩
  · cases h

theorem closed_step {e : SessionEvent M} (hclosed : s.closed = true) (ht : s.step F e = some t) :
    t.closed = true := by
  cases e with
  | postMessageList messages =>
    obtain rfl | ⟨hopen, -⟩ := postMessageList_cases ht
    · exact hclosed
    · exact absurd hclosed (by simp [hopen])
  | handleRead reading error data =>
    obtain ⟨-, ⟨-, rfl⟩ | ⟨⟨-, hopen⟩, -⟩⟩ := step_handleRead_cases ht
    · exact closed_shut _
    · exact absurd hclosed (by simp [hopen])
  | handleWrite buffer error =>
    obtain ⟨-, ⟨-, rfl⟩ | ⟨-, hnext⟩⟩ := step_handleWrite_cases ht
    · exact closed_shut _
    obtain ⟨-, f, left, next, rfl⟩ | ⟨-, rfl⟩ := sendNext_cases hnext
    · exact hclosed
    · split
      · exact (closed_handleClose _).trans hclosed
      · exact hclosed
  | close =>
    have heq : s.close = { s with closeCalled := true } := if_pos hclosed
    rw [← Option.some.inj ht, heq]
    exact hclosed
  | packMessageList =>
    rw [← Option.some.inj ht, packMessageList_eq]
    exact hclosed
  | setReceiveDelay delay =>
    rw [← Option.some.inj ht]
    exact hclosed

theorem handlersCounted_step (s : TCPSession σ M) (e : SessionEvent M) (t : TCPSession σ M)
    (h : HandlersCounted s) (ht : s.step F e = some t) : HandlersCounted t := by
  cases e with
  | postMessageList messages => exact h.postMessageList ht
  | handleRead reading error data =>
    obtain ⟨⟨hmem, -⟩, ⟨-, rfl⟩ | ⟨-, ht⟩⟩ := step_handleRead_cases ht
    · exact (h.standing_read hmem).shut
    · exact ((h.standing_read hmem).receive ht).handlersCounted
  | handleWrite buffer error =>
    obtain ⟨hmem, ⟨-, rfl⟩ | ⟨-, ht⟩⟩ := step_handleWrite_cases ht
    · exact (h.standing_write hmem).shut
    · have hstanding := h.standing_write hmem
      have hsent : Standing
          { s.writeDone buffer with bufferSending := [] } :=
        ⟨hstanding.counted, hstanding.standing⟩
      exact hsent.sendNext ht
  | close => exact Option.some.inj ht ▸ h.close
  | packMessageList =>
    rw [← Option.some.inj ht, packMessageList_eq]
    exact ⟨h.counted, h.tornDown_le, h.none_left⟩
  | setReceiveDelay delay =>
    rw [← Option.some.inj ht]
    exact ⟨h.counted, h.tornDown_le, h.none_left⟩

theorem handlersCounted_init (F : NetMessageFilter σ M) (f : σ) : HandlersCounted (init F f) :=
  (Standing.startRead ⟨rfl, rfl⟩).handlersCounted

/-! ## The timer -/

def Timerless (s : TCPSession σ M) : Prop := s.receiveDelay = false ∧ Effect.startTimer ∉ s.effects

theorem Timerless.post {posts : List (Effect M)} (h : Timerless s)
    (hposts : Effect.startTimer ∉ posts) : Effect.startTimer ∉ s.effects ++ posts := by
  rw [List.mem_append]
  exact not_or.mpr ⟨h.2, hposts⟩

theorem Timerless.startRead (h : Timerless s) : Timerless (s.startRead F) := by
  obtain ⟨-, heq⟩ | ⟨-, reading, heq⟩ := startRead_cases F s
  · rwa [heq]
  · rw [heq]
    exact h

theorem Timerless.handleClose (h : Timerless s) : Timerless s.handleClose := by
  obtain ⟨-, heq⟩ | ⟨-, heq⟩ := handleClose_cases s
  · rwa [heq]
  · rw [heq]
    refine ⟨h.1, h.post ?_⟩
    simpa using startTimer_notMem_packed s.messagesReceived

theorem Timerless.shut (h : Timerless s) : Timerless s.shut := Timerless.handleClose h

theorem Timerless.receive {data : List UInt8} (h : Timerless s) (ht : s.receive F data = some t) :
    Timerless t := by
  have hposts : Effect.startTimer ∉
      arrival s.receiveDelay s.messagesReceived (F.read s.filter data).2.1 := by
    rw [h.1]
    exact startTimer_notMem_arrival _ _
  rw [receive_cases ht]
  exact Timerless.startRead ⟨h.1, h.post hposts⟩

theorem Timerless.sendNext (h : Timerless s) (ht : s.sendNext F = some t) : Timerless t := by
  obtain ⟨-, f, left, buffer, rfl⟩ | ⟨-, rfl⟩ := sendNext_cases ht
  · exact h
  · split
    · exact h.handleClose
    · exact h

theorem timerless_step {e : SessionEvent M} (h : Timerless s) (ht : s.step F e = some t)
    (hdelay : ∀ delay, e ≠ .setReceiveDelay delay) : Timerless t := by
  cases e with
  | postMessageList messages =>
    obtain rfl | ⟨-, ⟨left, rfl⟩ | ⟨f, buffer, ⟨-, rfl⟩ | ⟨-, rfl⟩⟩⟩ := postMessageList_cases ht
    all_goals exact h
  | handleRead reading error data =>
    obtain ⟨-, ⟨-, rfl⟩ | ⟨-, ht⟩⟩ := step_handleRead_cases ht
    · exact Timerless.shut h
    · have hread : Timerless (s.readDone reading) := h
      exact hread.receive ht
  | handleWrite buffer error =>
    obtain ⟨-, ⟨-, rfl⟩ | ⟨-, ht⟩⟩ := step_handleWrite_cases ht
    · exact Timerless.shut h
    · have hsent : Timerless
          { s.writeDone buffer with bufferSending := [] } := h
      exact hsent.sendNext ht
  | close =>
    rw [← Option.some.inj ht]
    unfold TCPSession.close
    split
    · exact h
    · exact Timerless.shut h
  | packMessageList =>
    rw [← Option.some.inj ht, packMessageList_eq]
    exact ⟨h.1, h.post (startTimer_notMem_packed s.messagesReceived)⟩
  | setReceiveDelay delay => exact absurd rfl (hdelay delay)

/-- The handlers that hold a session by its bare pointer are those of the reads, of the writes
after the first and of the timer. The session is torn down once, when no read or write is left,
and its timer has never been set unless a receive delay has. -/
theorem handlers_counted (F : NetMessageFilter σ M) (f : σ) (events : List (SessionEvent M)) :
    Run.Always (step F) (fun s => s.numHandlers = s.reads.length + s.writes.length ∧
        s.tornDown ≤ 1 ∧ (s.tornDown ≠ 0 → s.reads = [] ∧ s.writes = []))
      (init F f) events ∧
    ((∀ delay, .setReceiveDelay delay ∉ events) →
      Run.Always (step F) (fun s => .startTimer ∉ s.effects) (init F f) events) := by
  constructor
  · have hkept : Run.Always (step F) HandlersCounted (init F f) events :=
      Run.always_of_invariant handlersCounted_step (handlersCounted_init F f) events
    exact hkept.mono fun s h => ⟨h.counted, h.tornDown_le, fun hne => (h.none_left hne).2⟩
  · intro hdelay
    have hinit : Timerless (init F f) := Timerless.startRead ⟨rfl, List.not_mem_nil⟩
    have hsteps : Run.EachStep (step F) (fun _ e => ∀ delay, e ≠ .setReceiveDelay delay)
        (init F f) events :=
      Run.eachStep_of_forall _ fun e he _ delay heq => hdelay delay (heq ▸ he)
    have hkept := Run.always_of_eachStep (I := Timerless)
      (fun s e t h hCe ht => timerless_step h ht hCe) hinit hsteps
    exact hkept.mono fun s h => h.2

/-! ## Closing -/

structure Closes (s : TCPSession σ M) : Prop where
  handlers : HandlersCounted s
  activeClosed : s.activeClosed = false
  closed : s.closeCalled = true → s.closed = true
  finished : s.closed = true → s.reads = [] → s.writes = [] → s.tornDown ≠ 0

theorem closes_of_open (h : HandlersCounted t) (hactive : t.activeClosed = false)
    (hcalled : t.closeCalled = true → t.closed = true) (hopen : t.closed = false) : Closes t :=
  ⟨h, hactive, hcalled, fun hclosed => absurd hclosed (by simp [hopen])⟩

theorem Standing.closes_handleClose (h : Standing s) (hactive : s.activeClosed = false)
    (hclosed : s.closed = true) : Closes s.handleClose := by
  have hcounted := h.handleClose hclosed
  obtain ⟨hwaits | habsurd, heq⟩ | ⟨-, heq⟩ := handleClose_cases s
  · rw [heq] at hcounted ⊢
    refine ⟨hcounted, hactive, fun _ => hclosed, fun _ hreads hwrites => ?_⟩
    have hcount := h.counted
    rw [hreads, hwrites] at hcount
    simp only [List.length_nil] at hcount
    omega
  · exact absurd habsurd (by simp [hactive])
  · rw [heq] at hcounted ⊢
    exact ⟨hcounted, hactive, fun _ => hclosed, fun _ _ _ => Nat.succ_ne_zero _⟩

theorem Standing.closes_shut (h : Standing s) (hactive : s.activeClosed = false) :
    Closes s.shut :=
  Standing.closes_handleClose ⟨h.counted, h.standing⟩ hactive rfl

theorem startRead_frame (F : NetMessageFilter σ M) (s : TCPSession σ M) :
    (s.startRead F).activeClosed = s.activeClosed ∧ (s.startRead F).closed = s.closed ∧
      (s.startRead F).closeCalled = s.closeCalled := by
  obtain ⟨-, heq⟩ | ⟨-, reading, heq⟩ := startRead_cases F s
  all_goals rw [heq]; exact ⟨rfl, rfl, rfl⟩

theorem receive_frame {data : List UInt8} (h : s.receive F data = some t) :
    t.activeClosed = s.activeClosed ∧ t.closed = s.closed ∧ t.closeCalled = s.closeCalled := by
  rw [receive_cases h]
  exact startRead_frame F _

theorem closes_step (s : TCPSession σ M) (e : SessionEvent M) (t : TCPSession σ M)
    (h : Closes s) (ht : s.step F e = some t) : Closes t := by
  have hcounted := handlersCounted_step s e t h.handlers ht
  cases e with
  | postMessageList messages =>
    obtain rfl | ⟨hopen, ⟨left, rfl⟩ | ⟨f, buffer, ⟨-, rfl⟩ | ⟨-, rfl⟩⟩⟩ :=
      postMessageList_cases ht
    · exact h
    all_goals exact closes_of_open hcounted h.activeClosed h.closed hopen
  | handleRead reading error data =>
    obtain ⟨⟨hmem, -⟩, ⟨-, rfl⟩ | ⟨⟨-, hopen⟩, ht⟩⟩ := step_handleRead_cases ht
    · exact (h.handlers.standing_read hmem).closes_shut h.activeClosed
    · obtain ⟨hactive, hclosed, hcalled⟩ := receive_frame ht
      refine closes_of_open hcounted (hactive.trans h.activeClosed) (fun hc => ?_)
        (hclosed.trans hopen)
      exact hclosed.trans (h.closed (hcalled.symm.trans hc))
  | handleWrite buffer error =>
    obtain ⟨hmem, ⟨-, rfl⟩ | ⟨-, ht⟩⟩ := step_handleWrite_cases ht
    · exact (h.handlers.standing_write hmem).closes_shut h.activeClosed
    · have hstanding := h.handlers.standing_write hmem
      obtain ⟨-, f, left, next, rfl⟩ | ⟨-, rfl⟩ := sendNext_cases ht
      · exact ⟨hcounted, h.activeClosed, h.closed, fun _ _ hwrites => absurd hwrites (by
          simp [startWrite])⟩
      · split at hcounted
        · next hclosed =>
          rw [if_pos hclosed]
          exact Standing.closes_handleClose ⟨hstanding.counted, hstanding.standing⟩
            h.activeClosed hclosed
        · next hopen =>
          rw [if_neg hopen]
          exact closes_of_open hcounted h.activeClosed h.closed (by simpa using hopen)
  | close =>
    rw [← Option.some.inj ht] at hcounted ⊢
    unfold TCPSession.close at hcounted ⊢
    split
    · next hclosed => exact ⟨⟨h.handlers.counted, h.handlers.tornDown_le, h.handlers.none_left⟩,
        h.activeClosed, fun _ => hclosed, h.finished⟩
    · next hopen =>
      have hstanding := h.handlers.standing_of_open (by simpa using hopen)
      exact Standing.closes_shut ⟨hstanding.counted, hstanding.standing⟩ h.activeClosed
  | packMessageList =>
    rw [← Option.some.inj ht, packMessageList_eq] at hcounted ⊢
    exact ⟨hcounted, h.activeClosed, h.closed, h.finished⟩
  | setReceiveDelay delay =>
    rw [← Option.some.inj ht] at hcounted ⊢
    exact ⟨hcounted, h.activeClosed, h.closed, h.finished⟩

theorem closes_init (F : NetMessageFilter σ M) (f : σ) : Closes (init F f) := by
  obtain ⟨hactive, hclosed, hcalled⟩ := startRead_frame F ({ filter := f } : TCPSession σ M)
  exact closes_of_open (handlersCounted_init F f) hactive
    (fun hc => absurd (hcalled.symm.trans hc) Bool.false_ne_true) hclosed

def Drained (s : TCPSession σ M) : Prop :=
  s.writes = [] ∧ s.bufferToBeSent = [] ∧ s.bufferSending = []

/-- What is documented of `Close`: it is delayed only until the pending data has been sent. -/
def CloseCompletes (s : TCPSession σ M) : Prop :=
  s.closeCalled = true → Drained s → s.tornDown ≠ 0

/-- The last data has not been sent yet, or no read is outstanding. -/
def NoReadWaits (F : NetMessageFilter σ M) (s : TCPSession σ M) : SessionEvent M → Prop
  | .close => Drained s → s.reads = []
  | .handleWrite buffer error =>
    s.closeCalled = true → s.writes = [buffer] → s.bufferToBeSent = [] →
      (if error then s.bufferSending = []
        else F.bytesWannaWrite s.filter s.messagesToBeSent = 0) → s.reads = []
  | _ => True

theorem Closes.completes_iff (h : Closes s) :
    CloseCompletes s ↔ (s.closeCalled = true → Drained s → s.reads = []) := by
  constructor
  · exact fun hcompletes hcalled hdrained => (h.handlers.none_left (hcompletes hcalled hdrained)).2.1
  · exact fun hreads hcalled hdrained =>
      h.finished (h.closed hcalled) (hreads hcalled hdrained) hdrained.1

theorem handleClose_frame (s : TCPSession σ M) :
    (Drained s.handleClose ↔ Drained s) ∧ s.handleClose.reads = s.reads ∧
      s.handleClose.closeCalled = s.closeCalled := by
  obtain ⟨-, heq⟩ | ⟨-, heq⟩ := handleClose_cases s
  all_goals rw [heq]; exact ⟨Iff.rfl, rfl, rfl⟩

theorem shut_frame (s : TCPSession σ M) :
    (Drained s.shut ↔ Drained s) ∧ s.shut.reads = s.reads ∧ s.shut.closeCalled = s.closeCalled :=
  handleClose_frame { s with closed := true }

theorem drained_erase {buffer : List UInt8} (hmem : buffer ∈ s.writes) :
    Drained { s with writes := s.writes.erase buffer } ↔
      s.writes = [buffer] ∧ s.bufferToBeSent = [] ∧ s.bufferSending = [] := by
  have herase : s.writes.erase buffer = [] ↔ s.writes = [buffer] := by
    rw [List.erase_eq_nil_iff]
    exact or_iff_right (List.ne_nil_of_mem hmem)
  exact and_congr_left fun _ => herase

theorem closeCompletes_step (s : TCPSession σ M) (e : SessionEvent M) (t : TCPSession σ M)
    (h : Closes s) (hP : CloseCompletes s) (ht : s.step F e = some t) :
    CloseCompletes t ↔ NoReadWaits F s e := by
  have hcloses := closes_step s e t h ht
  have hopen_not : s.closed = false → s.closeCalled ≠ true :=
    fun hopen hcalled => absurd (h.closed hcalled) (by simp [hopen])
  cases e with
  | postMessageList messages =>
    refine iff_of_true ?_ trivial
    obtain rfl | ⟨hopen, ⟨left, rfl⟩ | ⟨f, buffer, ⟨-, rfl⟩ | ⟨-, rfl⟩⟩⟩ :=
      postMessageList_cases ht
    · exact hP
    all_goals exact fun hcalled => absurd hcalled (hopen_not hopen)
  | handleRead reading error data =>
    refine iff_of_true ?_ trivial
    obtain ⟨⟨hmem, -⟩, ⟨-, rfl⟩ | ⟨⟨-, hopen⟩, ht⟩⟩ := step_handleRead_cases ht
    · obtain ⟨hdrained, -, hcalled⟩ :=
        shut_frame (s.readDone reading)
      intro hc hd
      have htorn := hP (hcalled.symm.trans hc) (hdrained.mp hd)
      rw [(h.handlers.none_left htorn).2.1] at hmem
      exact absurd hmem List.not_mem_nil
    · obtain ⟨-, -, hcalled⟩ := receive_frame ht
      exact fun hc => absurd (hcalled.symm.trans hc) (hopen_not hopen)
  | handleWrite buffer error =>
    rw [hcloses.completes_iff]
    obtain ⟨hmem, ⟨rfl, rfl⟩ | ⟨rfl, hnext⟩⟩ := step_handleWrite_cases ht
    · obtain ⟨hdrained, hreads, hcalled⟩ :=
        shut_frame (s.writeDone buffer)
      rw [hdrained, hreads, hcalled]
      refine forall_congr' fun _ => (imp_congr_left (drained_erase hmem)).trans ?_
      simp only [and_imp, if_true]
      exact Iff.rfl
    · obtain ⟨hleft, f, left, next, rfl⟩ | ⟨⟨hbuffer, hwanna⟩, rfl⟩ := sendNext_cases hnext
      · refine iff_of_true (fun _ hd => ?_) fun _ _ hbuffer hwanna => absurd hwanna (hleft hbuffer)
        exact absurd hd.1 (by simp [startWrite])
      · have hframe : ∀ u : TCPSession σ M, (Drained (if u.closed then u.handleClose else u) ↔
            Drained u) ∧ (if u.closed then u.handleClose else u).reads = u.reads ∧
            (if u.closed then u.handleClose else u).closeCalled = u.closeCalled := by
          intro u
          split
          · exact handleClose_frame u
          · exact ⟨Iff.rfl, rfl, rfl⟩
        obtain ⟨hdrained, hreads, hcalled⟩ := hframe
          { s.writeDone buffer with bufferSending := [] }
        rw [hdrained, hreads, hcalled]
        have hsent : buffer ∈ ({ s with bufferSending := [] } : TCPSession σ M).writes := hmem
        refine forall_congr' fun _ => (imp_congr_left (drained_erase hsent)).trans ?_
        constructor
        · exact fun hall hwrites hnone _ => hall ⟨hwrites, hnone, rfl⟩
        · exact fun hall hd => hall hd.1 hd.2.1 hwanna
  | close =>
    rw [hcloses.completes_iff]
    rw [← Option.some.inj ht]
    unfold TCPSession.close
    split
    · exact ⟨fun hreads => hreads rfl, fun hreads _ => hreads⟩
    · obtain ⟨hdrained, hreads, hcalled⟩ := shut_frame { s with closeCalled := true }
      rw [hdrained, hreads, hcalled]
      exact ⟨fun hreads => hreads rfl, fun hreads _ => hreads⟩
  | packMessageList =>
    rw [← Option.some.inj ht, packMessageList_eq]
    exact iff_of_true hP trivial
  | setReceiveDelay delay =>
    rw [← Option.some.inj ht]
    exact iff_of_true hP trivial

theorem closeCompletes_init (F : NetMessageFilter σ M) (f : σ) : CloseCompletes (init F f) := by
  intro hcalled
  exact absurd ((startRead_frame F { filter := f }).2.2.symm.trans hcalled) Bool.false_ne_true

/-- `Close` completes with the last data exactly when no read is outstanding then: nothing cancels
a read, which lasts until the peer sends or leaves. -/
theorem closeCompletes_iff (F : NetMessageFilter σ M) (f : σ) (events : List (SessionEvent M)) :
    Run.Always (step F) CloseCompletes (init F f) events ↔
      Run.EachStep (step F) (NoReadWaits F) (init F f) events :=
  Run.always_iff_eachStep closes_step closeCompletes_step (closes_init F f)
    (closeCompletes_init F f) events

/-- The peer is silent, and there has never been anything to send. -/
theorem not_closeCompletes_silent :
    ¬ Run.Always (step myFilter) CloseCompletes (init myFilter {}) [.close] := by
  intro hall
  exact hall.2 _ rfl rfl ⟨rfl, rfl, rfl⟩ (by decide)

end TCPSession

end IceBridge.Eddy
