import IceBridge.Eddy.Handlers

/-! What a session sends. A write is outstanding exactly as long as `bufferSending` is not empty,
so every byte that has been posted waits in the other buffer or has been passed on, in order. -/

namespace IceBridge.Eddy
variable {σ M : Type}

/-! ## Encodings -/

def encodeList (encode : σ → M → σ × List UInt8) : σ → List M → σ × List UInt8
  | f, [] => (f, [])
  | f, message :: messages =>
    let (g, bytes) := encode f message
    let (last, rest) := encodeList encode g messages
    (last, bytes ++ rest)

/-- What the comments of the interface say of `BytesWannaWrite`, the size of the memory for the
bytes, and of `Write`, which writes all messages, for encodings that are not empty. -/
structure Encodes (F : NetMessageFilter σ M) (encode : σ → M → σ × List UInt8) : Prop where
  nonempty : ∀ f message, (encode f message).2 ≠ []
  write : ∀ f messages, ∃ left, F.write f messages =
    some ((encodeList encode f messages).1, left, (encodeList encode f messages).2)
  bytesWannaWrite : ∀ f messages, F.bytesWannaWrite f messages = 0 ↔ messages = []

theorem encodeList_ne_nil {F : NetMessageFilter σ M} {encode : σ → M → σ × List UInt8}
    (h : Encodes F encode) (f : σ) {messages : List M} (hne : messages ≠ []) :
    (encodeList encode f messages).2 ≠ [] := by
  obtain ⟨message, rest, rfl⟩ := List.exists_cons_of_ne_nil hne
  intro hnil
  exact h.nonempty f message (List.append_eq_nil_iff.mp hnil).1

/-! ## Posting and sending -/

structure Traffic (σ M : Type) where
  session : TCPSession σ M
  posted : List UInt8 := []

namespace Traffic

def adds (encode : σ → M → σ × List UInt8) (s : TCPSession σ M) : SessionEvent M → List UInt8
  | .postMessageList messages => if s.closed then [] else (encodeList encode s.filter messages).2
  | .handleRead .. | .handleWrite .. | .close | .packMessageList | .setReceiveDelay _ => []

def step (F : NetMessageFilter σ M) (encode : σ → M → σ × List UInt8) (x : Traffic σ M)
    (e : SessionEvent M) : Option (Traffic σ M) :=
  (x.session.step F e).map fun s => ⟨s, x.posted ++ adds encode x.session e⟩

end Traffic

namespace TCPSession
variable {F : NetMessageFilter σ M} {encode : σ → M → σ × List UInt8} {s t : TCPSession σ M}
  {posted : List UInt8}

/-- Everything that has been posted has been passed on or waits, and it waits only for a write
that is outstanding: `bufferSending` tells whether there is one. -/
structure InOrder (s : TCPSession σ M) (posted : List UInt8) : Prop where
  passed : s.sent.flatten ++ s.bufferToBeSent = posted
  none_queued : s.messagesToBeSent = []
  sending : s.bufferSending = [] ∧ s.writes = [] ∧ s.bufferToBeSent = [] ∨
    s.bufferSending ≠ [] ∧ s.writes = [s.bufferSending]

theorem InOrder.handleClose (h : InOrder s posted) : InOrder s.handleClose posted := by
  obtain ⟨-, heq⟩ | ⟨-, heq⟩ := handleClose_cases s
  · rwa [heq]
  · rw [heq]
    exact ⟨h.passed, h.none_queued, h.sending⟩

theorem InOrder.shut (h : InOrder s posted) : InOrder s.shut posted :=
  InOrder.handleClose ⟨h.passed, h.none_queued, h.sending⟩

theorem InOrder.startRead (h : InOrder s posted) : InOrder (s.startRead F) posted := by
  obtain ⟨-, heq⟩ | ⟨-, reading, heq⟩ := startRead_cases F s
  · rwa [heq]
  · rw [heq]
    exact ⟨h.passed, h.none_queued, h.sending⟩

theorem inOrder_startWrite (hpassed : s.sent.flatten ++ s.bufferToBeSent = posted)
    (hqueue : s.messagesToBeSent = []) (hwrites : s.writes = []) (hbuffer : s.bufferToBeSent ≠ []) :
    InOrder s.startWrite posted := by
  refine ⟨?_, hqueue, .inr ⟨hbuffer, ?_⟩⟩
  · simpa [TCPSession.startWrite] using hpassed
  · simp [TCPSession.startWrite, hwrites]

theorem postMessageList_eq (henc : Encodes F encode) (hopen : s.closed = false)
    (hqueue : s.messagesToBeSent = []) {messages : List M} (hne : messages ≠ []) :
    ∃ u, u = { s with
        filter := (encodeList encode s.filter messages).1
        bufferToBeSent := s.bufferToBeSent ++ (encodeList encode s.filter messages).2 } ∧
      s.postMessageList F messages = some (if s.bufferSending = [] then u.startWrite else u) := by
  have hwanna := mt (henc.bytesWannaWrite s.filter messages).mp hne
  obtain ⟨left, hwrite⟩ := henc.write s.filter messages
  refine ⟨_, rfl, ?_⟩
  unfold postMessageList
  rw [if_neg (by simp [hopen]), if_neg (not_not.mpr hqueue), if_neg hwanna, hwrite]
  rfl

theorem InOrder.postMessageList (henc : Encodes F encode) (h : InOrder s posted)
    (messages : List M) : ∃ t, s.postMessageList F messages = some t ∧
      InOrder t (posted ++ Traffic.adds encode s (.postMessageList messages)) := by
  by_cases hclosed : s.closed = true
  · refine ⟨s, if_pos hclosed, ?_⟩
    rwa [Traffic.adds, if_pos hclosed, List.append_nil]
  rw [Traffic.adds, if_neg hclosed]
  obtain rfl | hne := eq_or_ne messages []
  · refine ⟨{ s with messagesToBeSent := [] }, ?_, ?_⟩
    · unfold TCPSession.postMessageList
      rw [if_neg hclosed, if_neg (not_not.mpr h.none_queued),
        if_pos ((henc.bytesWannaWrite s.filter []).mpr rfl)]
    · rw [encodeList, List.append_nil]
      exact ⟨h.passed, rfl, h.sending⟩
  obtain ⟨u, hu, heq⟩ := postMessageList_eq henc (by simpa using hclosed) h.none_queued hne
  have hpassed : u.sent.flatten ++ u.bufferToBeSent =
      posted ++ (encodeList encode s.filter messages).2 := by
    rw [hu, ← h.passed, List.append_assoc]
  have hbuffer : u.bufferToBeSent ≠ [] := by
    rw [hu]
    exact List.append_ne_nil_of_right_ne_nil _ (encodeList_ne_nil henc s.filter hne)
  refine ⟨_, heq, ?_⟩
  obtain ⟨hsending, hwrites, -⟩ | ⟨hsending, hwrites⟩ := h.sending
  · rw [if_pos hsending]
    exact inOrder_startWrite hpassed (hu ▸ h.none_queued) (hu ▸ hwrites) hbuffer
  · rw [if_neg hsending]
    exact ⟨hpassed, hu ▸ h.none_queued, .inr (hu ▸ ⟨hsending, hwrites⟩)⟩

theorem InOrder.handleWrite (henc : Encodes F encode) (h : InOrder s posted) {buffer : List UInt8}
    (ht : s.step F (.handleWrite buffer false) = some t) : InOrder t posted := by
  obtain ⟨hmem, ⟨herror, -⟩ | ⟨-, hnext⟩⟩ := step_handleWrite_cases ht
  · exact absurd herror Bool.false_ne_true
  have hwrites : s.writes.erase buffer = [] := by
    obtain ⟨-, hnone, -⟩ | ⟨-, hone⟩ := h.sending
    · rw [hnone, List.erase_nil]
    · rw [hone, List.mem_singleton] at hmem
      rw [hone, hmem, List.erase_cons_head]
  set u := { s.writeDone buffer with bufferSending := [] } with hu
  by_cases hbuffer : s.bufferToBeSent = []
  · have hrest : InOrder u posted := ⟨h.passed, h.none_queued, .inl ⟨rfl, hwrites, hbuffer⟩⟩
    have hwanna : F.bytesWannaWrite u.filter u.messagesToBeSent = 0 :=
      (henc.bytesWannaWrite _ _).mpr h.none_queued
    have hnone : u.bufferToBeSent = [] := hbuffer
    have hdone : u.sendNext F = some (if u.closed then u.handleClose else u) := by
      unfold sendNext
      rw [if_neg (not_not.mpr hnone), if_pos hwanna]
    rw [← Option.some.inj (hdone.symm.trans hnext)]
    split
    · exact hrest.handleClose
    · exact hrest
  · have hgoes : u.sendNext F = some u.startWrite := if_pos hbuffer
    rw [← Option.some.inj (hgoes.symm.trans hnext)]
    exact inOrder_startWrite h.passed h.none_queued hwrites hbuffer

theorem sendNext_isSome (hwanna : F.bytesWannaWrite s.filter s.messagesToBeSent = 0) :
    ∃ t, s.sendNext F = some t := by
  unfold sendNext
  rw [if_pos hwanna]
  split
  · exact ⟨_, rfl⟩
  · exact ⟨_, rfl⟩

theorem InOrder.handleWrite_isSome (henc : Encodes F encode) (h : InOrder s posted)
    (hcounted : HandlersCounted s) {buffer : List UInt8} (hmem : buffer ∈ s.writes) :
    ∃ t, s.step F (.handleWrite buffer false) = some t := by
  have hcount := hcounted.counted
  have hpos : 0 < s.writes.length := List.length_pos_of_mem hmem
  have hassert : ¬ s.numHandlers - 1 < 0 := by omega
  simp only [step, if_pos hmem]
  unfold TCPSession.handleWrite
  rw [if_neg hassert, if_neg Bool.false_ne_true]
  exact sendNext_isSome ((henc.bytesWannaWrite _ _).mpr h.none_queued)

theorem InOrder.step (henc : Encodes F encode) (h : InOrder s posted) {e : SessionEvent M}
    (ht : s.step F e = some t) (hgood : ∀ buffer, e ≠ .handleWrite buffer true) :
    InOrder t (posted ++ Traffic.adds encode s e) := by
  cases e with
  | postMessageList messages =>
    obtain ⟨u, hu, hnext⟩ := h.postMessageList henc messages
    exact Option.some.inj (hu.symm.trans ht) ▸ hnext
  | handleRead reading error data =>
    rw [Traffic.adds, List.append_nil]
    obtain ⟨-, ⟨-, rfl⟩ | ⟨-, ht⟩⟩ := step_handleRead_cases ht
    · exact InOrder.shut ⟨h.passed, h.none_queued, h.sending⟩
    · rw [receive_cases ht]
      exact InOrder.startRead ⟨h.passed, h.none_queued, h.sending⟩
  | handleWrite buffer error =>
    rw [Traffic.adds, List.append_nil]
    cases error with
    | false => exact h.handleWrite henc ht
    | true => exact absurd rfl (hgood buffer)
  | close =>
    rw [Traffic.adds, List.append_nil, ← Option.some.inj ht]
    unfold TCPSession.close
    split
    · exact ⟨h.passed, h.none_queued, h.sending⟩
    · exact InOrder.shut ⟨h.passed, h.none_queued, h.sending⟩
  | packMessageList =>
    rw [Traffic.adds, List.append_nil, ← Option.some.inj ht, packMessageList_eq]
    exact ⟨h.passed, h.none_queued, h.sending⟩
  | setReceiveDelay delay =>
    rw [Traffic.adds, List.append_nil, ← Option.some.inj ht]
    exact ⟨h.passed, h.none_queued, h.sending⟩

end TCPSession

namespace Traffic
variable {F : NetMessageFilter σ M} {encode : σ → M → σ × List UInt8}

structure Kept (x : Traffic σ M) : Prop where
  inOrder : x.session.InOrder x.posted
  counted : x.session.HandlersCounted

theorem kept_step (henc : Encodes F encode) (x : Traffic σ M) (e : SessionEvent M) (y : Traffic σ M)
    (h : Kept x) (hgood : ∀ buffer, e ≠ .handleWrite buffer true)
    (hy : x.step F encode e = some y) : Kept y := by
  obtain ⟨s, hs, rfl⟩ := Option.map_eq_some_iff.mp hy
  exact ⟨h.inOrder.step henc hs hgood, TCPSession.handlersCounted_step _ _ _ h.counted hs⟩

theorem kept_init (F : NetMessageFilter σ M) (f : σ) : Kept ⟨.init F f, []⟩ := by
  refine ⟨TCPSession.InOrder.startRead ?_, TCPSession.handlersCounted_init F f⟩
  exact ⟨rfl, rfl, .inl ⟨rfl, rfl, rfl⟩⟩

/-- No byte is lost, sent twice or out of turn, and neither a post nor the end of a write is ever
stopped by an assertion. -/
theorem sent_in_order (henc : Encodes F encode) (f : σ) (events : List (SessionEvent M))
    (hgood : ∀ buffer, .handleWrite buffer true ∉ events) :
    Run.Always (step F encode) (fun x =>
        x.session.sent.flatten ++ x.session.bufferToBeSent = x.posted ∧
        x.session.writes.length ≤ 1 ∧
        (x.session.bufferToBeSent ≠ [] → x.session.writes ≠ []) ∧
        (∀ messages, ∃ y, x.step F encode (.postMessageList messages) = some y) ∧
        ∀ buffer ∈ x.session.writes, ∃ y, x.step F encode (.handleWrite buffer false) = some y)
      ⟨.init F f, []⟩ events := by
  have hsteps : Run.EachStep (step F encode) (fun _ e => ∀ buffer, e ≠ .handleWrite buffer true)
      ⟨.init F f, []⟩ events :=
    Run.eachStep_of_forall _ fun e he _ buffer heq => hgood buffer (heq ▸ he)
  have hkept := Run.always_of_eachStep (I := Kept) (kept_step henc) (kept_init F f) hsteps
  refine hkept.mono fun x h => ⟨h.inOrder.passed, ?_, ?_, ?_, ?_⟩
  · obtain ⟨-, hnone, -⟩ | ⟨-, hone⟩ := h.inOrder.sending
    · simp [hnone]
    · simp [hone]
  · obtain ⟨-, -, hnone⟩ | ⟨-, hone⟩ := h.inOrder.sending
    · exact fun hne => absurd hnone hne
    · simp [hone]
  · intro messages
    obtain ⟨t, ht, -⟩ := h.inOrder.postMessageList henc messages
    have hstep : x.session.step F (.postMessageList messages) = some t := ht
    exact ⟨_, congrArg (Option.map _) hstep⟩
  · intro buffer hmem
    obtain ⟨t, ht⟩ := h.inOrder.handleWrite_isSome henc h.counted hmem
    exact ⟨_, congrArg (Option.map _) ht⟩

theorem encodes_myFilter : Encodes myFilter fun f message => (f, f.encode message) := by
  refine ⟨fun f message hnil => ?_, fun f messages => ⟨[], ?_⟩, fun f messages => ?_⟩
  · have hlen := congrArg List.length hnil
    simp [MyFilter.encode, MyFilter.kHeaderSize] at hlen
  · have hall : encodeList (fun (f : MyFilter) message => (f, f.encode message)) f messages =
        (f, messages.flatMap f.encode) := by
      induction messages with
      | nil => rfl
      | cons message messages ih => simp only [encodeList, ih, List.flatMap_cons]
    rw [hall]
    rfl
  · cases messages with
    | nil => exact iff_of_true rfl rfl
    | cons message messages =>
      refine iff_of_false (fun hzero => ?_) (List.cons_ne_nil _ _)
      simp [myFilter, MyFilter.bytesWannaWrite, MyFilter.kHeaderSize] at hzero

theorem sent_in_order_posts :
    Run.Always (step myFilter fun f message => (f, f.encode message)) (fun x =>
        x.session.sent.flatten ++ x.session.bufferToBeSent = x.posted ∧
        x.session.writes.length ≤ 1 ∧
        (x.session.bufferToBeSent ≠ [] → x.session.writes ≠ []) ∧
        (∀ messages, ∃ y, x.step myFilter (fun f message => (f, f.encode message))
          (.postMessageList messages) = some y) ∧
        ∀ buffer ∈ x.session.writes, ∃ y, x.step myFilter (fun f message => (f, f.encode message))
          (.handleWrite buffer false) = some y)
      ⟨.init myFilter {}, []⟩
      [.postMessageList [[7]], .postMessageList [[8, 9]], .handleWrite [1, 0, 7] false, .close] :=
  sent_in_order encodes_myFilter {} _ (by simp)

end Traffic

end IceBridge.Eddy
