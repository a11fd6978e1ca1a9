import IceBridge.Eddy.TCPSession
import IceBridge.Gateway.Broadcast
import IceBridge.Gateway.Tables

/-! The filter of a gateway session on messages that share nothing: a header with the size, the
id, and the rest through the table of the session. It decrypts fewer messages than it encrypts. -/

namespace IceBridge.Gateway

/-! ## The filter -/

structure MyFilter where
  headerRead : Bool := false
  header : UInt16 := 0
  pBox : Table
  randoms : ℕ → Fin (exchangeTimes * 2) → UInt8
  exchanges : ℕ := 0

namespace MyFilter

def kHeaderSize : ℕ := 2

def messageId (message : List UInt8) : ℕ := Bytes.value (message.take 2)

def bytesWannaWrite (_ : MyFilter) (messagesToBeSent : List (List UInt8)) : ℕ :=
  (messagesToBeSent.map fun message => kHeaderSize + message.length).sum

def writeMessage (globalBox : Table) (f : MyFilter) (message : List UInt8) :
    MyFilter × List UInt8 × List UInt8 :=
  if messageId message ≠ serverChallengeResponseId then
    let message := message.take 2 ++ TeaAlgorithm.encrypt (message.drop 2) f.pBox
    (f, message, Bytes.encode kHeaderSize message.length ++ message)
  else
    let randoms := List.ofFn (f.randoms f.exchanges)
    ({ f with pBox := AESSBox.exchange globalBox randoms, exchanges := f.exchanges + 1 }, randoms,
      Bytes.encode kHeaderSize (message.length + exchangeTimes * 2) ++ (message ++ randoms))

/-- The loop of `Write`, with the messages as it leaves them and whether it has reached their
end; `none` when it reads and writes past the end of a message of less than two bytes. -/
def writeLoop (globalBox : Table) : MyFilter → List (List UInt8) →
    Option (MyFilter × List (List UInt8) × List UInt8 × Bool)
  | f, [] => some (f, [], [], true)
  | f, message :: messages =>
    if message.length < 2 then none
    else if 65535 < message.length then some (f, message :: messages, [], false)
    else do
      let (g, kept, bytes) := f.writeMessage globalBox message
      let (last, left, more, complete) ← writeLoop globalBox g messages
      some (last, kept :: left, bytes ++ more, complete)

def write (globalBox : Table) (f : MyFilter) (messagesToBeSent : List (List UInt8)) :
    Option (MyFilter × List (List UInt8) × List UInt8) :=
  (writeLoop globalBox f messagesToBeSent).map fun (last, left, bytes, complete) =>
    (last, if complete then [] else left, bytes)

def bytesWannaRead (f : MyFilter) : ℕ := if f.headerRead then f.header.toNat else kHeaderSize

def decryptMessage (f : MyFilter) (message : List UInt8) : List UInt8 :=
  if serverChallengeResponseId ≤ messageId message ∧ 3 < message.length ∧
      message.length < 65535 then
    message.take 2 ++ TeaAlgorithm.decrypt (message.drop 2) f.pBox
  else message

def read (f : MyFilter) (buffer : List UInt8) : MyFilter × List (List UInt8) × ℕ :=
  if f.headerRead then
    ({ f with headerRead := false }, [f.decryptMessage buffer], f.header.toNat)
  else
    ({ f with headerRead := true, header := (Bytes.value (buffer.take kHeaderSize)).toUInt16 }, [],
      kHeaderSize)

end MyFilter

def myFilter (globalBox : Table) : Eddy.NetMessageFilter MyFilter (List UInt8) where
  bytesWannaWrite := MyFilter.bytesWannaWrite
  write := MyFilter.write globalBox
  bytesWannaRead := MyFilter.bytesWannaRead
  read := MyFilter.read

/-! ## A peer -/

namespace Peer

def produceData (table : Table) (message : List UInt8) : List UInt8 :=
  Bytes.encode 2 message.length ++
    (message.take 2 ++ EncryptionBox.edcrpt table (message.drop 2))

/-- At most `turns` messages as `process` takes them from the front of the bytes, and the rest.
Here the size is not negative from 32768 on. -/
def process (table : Table) : (turns : ℕ) → List UInt8 → List (List UInt8) × List UInt8
  | 0, bytes => ([], bytes)
  | turns + 1, bytes =>
    let size := Bytes.value (bytes.take 2)
    if bytes.length < 2 ∨ size = 0 ∨ bytes.length - 2 < size then ([], bytes)
    else
      let body := (bytes.drop 2).take size
      let (messages, rest) := process table turns (bytes.drop (2 + size))
      ((body.take 2 ++ EncryptionBox.edcrpt table (body.drop 2)) :: messages, rest)

end Peer

structure Message where
  bytes : List UInt8
  size : 2 ≤ bytes.length ∧ bytes.length ≤ 65535
  id : serverChallengeResponseId < MyFilter.messageId bytes

/-! ## What a peer reads of what the filter writes -/

section Frames
variable {σ : Equiv.Perm UInt8} {f : MyFilter} {body rest : List UInt8}

def frame (body : List UInt8) : List UInt8 := Bytes.encode 2 body.length ++ body

theorem take_frame (body rest : List UInt8) :
    (frame body ++ rest).take 2 = Bytes.encode 2 body.length := by
  rw [frame, List.append_assoc]
  exact List.take_left' (Bytes.length_encode 2 _)

theorem drop_frame (body rest : List UInt8) : (frame body ++ rest).drop 2 = body ++ rest := by
  rw [frame, List.append_assoc]
  exact List.drop_left' (Bytes.length_encode 2 _)

theorem length_frame (body rest : List UInt8) :
    (frame body ++ rest).length = 2 + (body.length + rest.length) := by
  rw [frame, List.append_assoc, List.length_append, Bytes.length_encode, List.length_append]

theorem value_size (hsize : body.length ≤ 65535) :
    Bytes.value (Bytes.encode 2 body.length) = body.length :=
  Bytes.value_encode_of_lt (by norm_num; omega)

theorem produceData_eq (σ : Equiv.Perm UInt8) (message : List UInt8) :
    Peer.produceData σ message = frame (encrypt σ message) := by
  rw [frame, length_encrypt]
  rfl

theorem write_ordinary (globalBox : Table) (hbox : f.pBox = σ) {bodies : List (List UInt8)}
    (hbodies : ∀ body ∈ bodies, (2 ≤ body.length ∧ body.length ≤ 65535) ∧
      MyFilter.messageId body ≠ serverChallengeResponseId) :
    f.write globalBox bodies = some (f, [], bodies.flatMap fun body => frame (encrypt σ body)) := by
  have hloop : f.writeLoop globalBox bodies = some (f, bodies.map (encrypt σ),
      bodies.flatMap fun body => frame (encrypt σ body), true) := by
    induction bodies with
    | nil => rfl
    | cons body bodies ih =>
      obtain ⟨hsize, hid⟩ := hbodies body List.mem_cons_self
      have hfirst : f.writeMessage globalBox body =
          (f, encrypt σ body, frame (encrypt σ body)) := by
        rw [MyFilter.writeMessage, if_pos hid, hbox]
        rfl
      rw [MyFilter.writeLoop, if_neg (by omega), if_neg (by omega), hfirst]
      simp only [ih fun b hb => hbodies b (List.mem_cons_of_mem body hb), Option.bind_eq_bind,
        Option.bind_some, List.map_cons, List.flatMap_cons]
  rw [MyFilter.write, hloop]
  rfl

theorem write_messages (globalBox : Table) (hbox : f.pBox = σ) (ms : List Message) :
    f.write globalBox (ms.map Message.bytes) =
      some (f, [], ms.flatMap fun m => frame (encrypt σ m.bytes)) := by
  have hbodies : ∀ body ∈ ms.map Message.bytes, (2 ≤ body.length ∧ body.length ≤ 65535) ∧
      MyFilter.messageId body ≠ serverChallengeResponseId := by
    intro body hbody
    obtain ⟨m, -, rfl⟩ := List.mem_map.mp hbody
    exact ⟨m.size, Nat.ne_of_gt m.id⟩
  rw [write_ordinary globalBox hbox hbodies, List.flatMap_map]

theorem writeMessages_unshared (globalBox : Equiv.Perm UInt8) {h : Heap} {s : Session}
    {q : List NetMessage} (hq : ∀ m ∈ q, Ordinary h m)
    (hunshared : (q.filterMap NetMessage.dynamicData).Nodup) :
    ∃ h', s.writeMessages globalBox q h =
      some (h', s.wrote (q.map fun m => frame (encrypt s.pBox (m.bytes h)))) := by
  induction q generalizing h s with
  | nil => exact ⟨h, by simp [Session.writeMessages, Session.wrote]⟩
  | cons m q ih =>
    have hm := hq m List.mem_cons_self
    have hsize := hm.size
    obtain ⟨h₁, hwrite, halike, hbytes⟩ := Session.writeMessage_ordinary (s := s) globalBox hm
    have hsame : ∀ m' ∈ q, m'.bytes h₁ = m'.bytes h := by
      intro m' hm'
      unfold NetMessage.bytes
      split
      · rfl
      · next r hr =>
        rw [hbytes, if_neg fun hshared => ?_]
        rw [List.filterMap_cons_some hshared] at hunshared
        exact (List.nodup_cons.mp hunshared).1 (List.mem_filterMap.mpr ⟨m', hm', hr⟩)
    have hrest : (q.filterMap NetMessage.dynamicData).Nodup :=
      hunshared.sublist ((List.sublist_cons_self m q).filterMap _)
    obtain ⟨h₂, hrun⟩ := ih (s := s.wrote [frame (encrypt s.pBox (m.bytes h))])
      (fun x hx => (hq x (List.mem_cons_of_mem m hx)).alike halike) hrest
    have hframe : Bytes.encode 2 (m.bytes h).length ++ encrypt s.pBox (m.bytes h) =
        frame (encrypt s.pBox (m.bytes h)) := by
      rw [frame, length_encrypt]
    have hframes : (q.map fun m => frame (encrypt s.pBox (m.bytes h₁))) =
        q.map fun m => frame (encrypt s.pBox (m.bytes h)) :=
      List.map_congr_left fun m' hm' => by rw [hsame m' hm']
    refine ⟨h₂, ?_⟩
    rw [Session.writeMessages, if_neg (by omega), if_neg (by omega), hwrite, hframe]
    refine hrun.trans ?_
    simp only [Session.wrote, hframes, List.append_assoc, List.map_cons, List.singleton_append]

/-- Both accounts of `Write` append the same bytes for messages that share no vector. -/
theorem write_eq_writeMessages (globalBox : Equiv.Perm UInt8) {h : Heap} {s : Session}
    {q : List NetMessage} (hq : ∀ m ∈ q, Ordinary h m)
    (hunshared : (q.filterMap NetMessage.dynamicData).Nodup) (hwritten : s.written = [])
    (hbox : f.pBox = s.pBox) :
    ∃ h' s', s.writeMessages globalBox q h = some (h', s') ∧
      f.write globalBox (q.map (NetMessage.bytes h)) = some (f, [], s'.written.flatten) := by
  obtain ⟨h', hrun⟩ := writeMessages_unshared (s := s) globalBox hq hunshared
  refine ⟨h', _, hrun, ?_⟩
  have hbodies : ∀ body ∈ q.map (NetMessage.bytes h), (2 ≤ body.length ∧ body.length ≤ 65535) ∧
      MyFilter.messageId body ≠ serverChallengeResponseId := by
    intro body hbody
    obtain ⟨m, hm, rfl⟩ := List.mem_map.mp hbody
    exact ⟨(hq m hm).size, (hq m hm).id⟩
  rw [write_ordinary globalBox hbox hbodies, List.flatMap_map, Session.wrote, hwritten,
    List.nil_append, List.flatMap_def]

theorem process_frame (table : Table) (turns : ℕ) (hsize : 2 ≤ body.length ∧ body.length ≤ 65535) :
    Peer.process table (turns + 1) (frame body ++ rest) =
      ((body.take 2 ++ EncryptionBox.edcrpt table (body.drop 2)) ::
        (Peer.process table turns rest).1, (Peer.process table turns rest).2) := by
  have hrest : (frame body ++ rest).drop (2 + body.length) = rest := by
    rw [← List.drop_drop, drop_frame, List.drop_left]
  have hmany : ¬ ((frame body ++ rest).length < 2 ∨ body.length = 0 ∨
      (frame body ++ rest).length - 2 < body.length) := by
    rw [length_frame]
    omega
  rw [Peer.process]
  simp only [take_frame, value_size hsize.2, drop_frame, List.take_left, hrest, if_neg hmany]

theorem process_frames (σ : Equiv.Perm UInt8) (ms : List Message) (turns : ℕ) :
    Peer.process σ.symm (ms.length + turns) (ms.flatMap fun m => frame (encrypt σ m.bytes)) =
      (ms.map Message.bytes, []) := by
  induction ms with
  | nil => cases turns <;> rfl
  | cons m ms ih =>
    have hsize : 2 ≤ (encrypt σ m.bytes).length ∧ (encrypt σ m.bytes).length ≤ 65535 := by
      rw [length_encrypt]
      exact m.size
    have hcount : (m :: ms).length + turns = ms.length + turns + 1 := by
      rw [List.length_cons]
      omega
    rw [List.flatMap_cons, hcount, process_frame _ _ hsize, ih]
    refine Prod.ext (congrArg (· :: _) ?_) rfl
    exact decrypt_encrypt

end Frames

/-! ## What the filter reads of what a peer writes -/

section Feeding
variable {σ : Equiv.Perm UInt8} {f : MyFilter} {body rest : List UInt8}

theorem feed_frame (globalBox : Table) (hread : f.headerRead = false) (turns : ℕ)
    (hsize : 2 ≤ body.length ∧ body.length ≤ 65535) :
    ((myFilter globalBox).feed (turns + 2) f (frame body ++ rest)).2 =
      (f.decryptMessage body :: ((myFilter globalBox).feed turns
          { f with headerRead := false, header := body.length.toUInt16 } rest).2.1,
        ((myFilter globalBox).feed turns
          { f with headerRead := false, header := body.length.toUInt16 } rest).2.2) := by
  set g : MyFilter := { f with headerRead := true, header := body.length.toUInt16 } with hg
  have hheader : (myFilter globalBox).bytesWannaRead f = 2 := by
    simp [myFilter, MyFilter.bytesWannaRead, MyFilter.kHeaderSize, hread]
  have hbody : (myFilter globalBox).bytesWannaRead g = body.length := by
    have hlt : body.length < 65536 := by omega
    simp [myFilter, MyFilter.bytesWannaRead, hg, Nat.mod_eq_of_lt hlt]
  have hfirst : (myFilter globalBox).read f (Bytes.encode 2 body.length) = (g, [], 2) := by
    have htake : (Bytes.encode 2 body.length).take 2 = Bytes.encode 2 body.length :=
      List.take_of_length_le (Bytes.length_encode 2 _).le
    simp [myFilter, MyFilter.read, MyFilter.kHeaderSize, hread, htake, value_size hsize.2, hg]
  have hsecond : (myFilter globalBox).read g body =
      ({ f with headerRead := false, header := body.length.toUInt16 }, [f.decryptMessage body],
        g.header.toNat) := rfl
  have hlen := length_frame body rest
  have hmany : body.length ≤ (body ++ rest).length := by
    rw [List.length_append]
    exact Nat.le_add_right _ _
  have htake : (body ++ rest).take body.length = body := List.take_left
  rw [← take_frame body rest] at hfirst
  rw [← htake] at hsecond
  rw [Eddy.NetMessageFilter.feed_succ hheader (by decide) (by omega) hfirst, drop_frame,
    Eddy.NetMessageFilter.feed_succ hbody (by omega) hmany hsecond, List.drop_left,
    List.nil_append, htake]
  rfl

theorem feed_frames (globalBox : Table) (hread : f.headerRead = false) (turns : ℕ)
    (bodies : List (List UInt8)) (hsize : ∀ body ∈ bodies, 2 ≤ body.length ∧ body.length ≤ 65535) :
    ((myFilter globalBox).feed (2 * bodies.length + turns) f (bodies.flatMap frame)).2 =
      (bodies.map f.decryptMessage, []) := by
  induction bodies generalizing f with
  | nil =>
    have hheader : ([] : List UInt8).length < (myFilter globalBox).bytesWannaRead f := by
      simp [myFilter, MyFilter.bytesWannaRead, MyFilter.kHeaderSize, hread]
    rw [List.flatMap_nil, Eddy.NetMessageFilter.feed_short hheader]
    rfl
  | cons body bodies ih =>
    have hcount : 2 * (body :: bodies).length + turns = 2 * bodies.length + turns + 2 := by
      rw [List.length_cons]
      omega
    rw [List.flatMap_cons, hcount, feed_frame globalBox hread _ (hsize body List.mem_cons_self),
      ih rfl fun b hb => hsize b (List.mem_cons_of_mem body hb)]
    rfl

theorem messageId_decrypt (σ : Equiv.Perm UInt8) (message : List UInt8) :
    MyFilter.messageId (decrypt σ message) = MyFilter.messageId message :=
  congrArg Bytes.value take_encrypt

theorem decryptMessage_eq_iff (hbox : f.pBox = σ) (m : Message) :
    f.decryptMessage (decrypt σ m.bytes) = m.bytes ↔
      (m.bytes.length = 3 ∨ m.bytes.length = 65535 → ∀ x ∈ m.bytes.drop 2, σ x = x) := by
  have hsize := m.size
  have hid := m.id
  have hback : decrypt σ.symm (encrypt σ.symm m.bytes) = m.bytes := decrypt_encrypt
  have hself : decrypt σ m.bytes = m.bytes ↔ ∀ x ∈ m.bytes.drop 2, σ x = x := by
    have hfixed : encrypt σ.symm m.bytes = m.bytes ↔
        ∀ x ∈ m.bytes.drop 2, σ.symm x = x := encrypt_eq_self_iff
    refine hfixed.trans (forall₂_congr fun x _ => ?_)
    exact (Equiv.symm_apply_eq σ).trans eq_comm
  unfold MyFilter.decryptMessage
  rw [messageId_decrypt, length_decrypt]
  by_cases hmiddle : 3 < m.bytes.length ∧ m.bytes.length < 65535
  · rw [if_pos ⟨hid.le, hmiddle⟩, hbox]
    exact iff_of_true hback fun hlen => by omega
  rw [if_neg fun h => hmiddle h.2, hself]
  by_cases hshort : m.bytes.length = 2
  · have hnone : m.bytes.drop 2 = [] := List.drop_eq_nil_of_le hshort.le
    rw [hnone]
    exact iff_of_true (fun x hx => absurd hx List.not_mem_nil) fun _ x hx =>
      absurd hx List.not_mem_nil
  · have hends : m.bytes.length = 3 ∨ m.bytes.length = 65535 := by omega
    exact ⟨fun hfixed _ => hfixed, fun hfixed => hfixed hends⟩

end Feeding

/-! ## There and back -/

/-- The bytes that `Write` appends for the messages give a peer the same messages, and all of them
are written. -/
def WriteRoundTrip (globalBox : Table) (σ : Equiv.Perm UInt8) (f : MyFilter) (ms : List Message) :
    Prop :=
  ∃ g bytes,
    { f with pBox := σ }.write globalBox (ms.map Message.bytes) = some (g, [], bytes) ∧
    ∀ turns, ms.length ≤ turns → Peer.process σ.symm turns bytes = (ms.map Message.bytes, [])

/-- The bytes that a peer sends for the messages give the filter, between two messages, the same
messages, and all of them are read. -/
def ReadRoundTrip (globalBox : Table) (σ : Equiv.Perm UInt8) (f : MyFilter) (ms : List Message) :
    Prop :=
  ∀ turns, 2 * ms.length ≤ turns →
    ((myFilter globalBox).feed turns { f with pBox := σ, headerRead := false }
      (ms.flatMap fun m => Peer.produceData σ.symm m.bytes)).2 = (ms.map Message.bytes, [])

section RoundTrip
variable (globalBox : Table) (σ : Equiv.Perm UInt8) (f : MyFilter) (ms : List Message)

theorem writeRoundTrip : WriteRoundTrip globalBox σ f ms := by
  refine ⟨_, ms.flatMap fun m => frame (encrypt σ m.bytes), write_messages globalBox rfl ms,
    fun turns hturns => ?_⟩
  obtain ⟨more, rfl⟩ := Nat.exists_eq_add_of_le hturns
  exact process_frames σ ms more

theorem readRoundTrip_iff : ReadRoundTrip globalBox σ f ms ↔
    ∀ m ∈ ms, m.bytes.length = 3 ∨ m.bytes.length = 65535 → ∀ x ∈ m.bytes.drop 2, σ x = x := by
  set g : MyFilter := { f with pBox := σ, headerRead := false } with hg
  have hbytes : (ms.flatMap fun m => Peer.produceData σ.symm m.bytes) =
      (ms.map fun m => decrypt σ m.bytes).flatMap frame := by
    rw [List.flatMap_map]
    exact congrArg (ms.flatMap ·) (funext fun m => produceData_eq σ.symm m.bytes)
  have hsize : ∀ body ∈ ms.map fun m => decrypt σ m.bytes,
      2 ≤ body.length ∧ body.length ≤ 65535 := by
    intro body hbody
    obtain ⟨m, -, rfl⟩ := List.mem_map.mp hbody
    rw [length_decrypt]
    exact m.size
  have hfeed : ∀ turns, 2 * ms.length ≤ turns → ((myFilter globalBox).feed turns g
      (ms.flatMap fun m => Peer.produceData σ.symm m.bytes)).2 =
        (ms.map fun m => g.decryptMessage (decrypt σ m.bytes), []) := by
    intro turns hturns
    obtain ⟨more, rfl⟩ := Nat.exists_eq_add_of_le hturns
    have hall := feed_frames (f := g) globalBox rfl more _ hsize
    rw [List.length_map, List.map_map] at hall
    rw [hbytes, hall]
    rfl
  have hsame : ReadRoundTrip globalBox σ f ms ↔
      (ms.map fun m => g.decryptMessage (decrypt σ m.bytes)) = ms.map Message.bytes := by
    constructor
    · exact fun h => congrArg Prod.fst ((hfeed _ le_rfl).symm.trans (h _ le_rfl))
    · exact fun h turns hturns => (hfeed turns hturns).trans (congrArg (·, []) h)
  rw [hsame, List.map_inj_left]
  exact forall₂_congr fun m _ => decryptMessage_eq_iff rfl m

/-- Both ways work for the messages whose sizes the filter decrypts, and for those of the two sizes
at the ends that the table leaves as they are. -/
theorem roundTrip_iff : WriteRoundTrip globalBox σ f ms ∧ ReadRoundTrip globalBox σ f ms ↔
    ∀ m ∈ ms, m.bytes.length = 3 ∨ m.bytes.length = 65535 → ∀ x ∈ m.bytes.drop 2, σ x = x :=
  (and_iff_right (writeRoundTrip globalBox σ f ms)).trans (readRoundTrip_iff globalBox σ f ms)

end RoundTrip

/-- A message of three bytes arrives encrypted. -/
theorem not_roundTrip_short :
    ¬ (WriteRoundTrip globalBox globalBox { pBox := globalBox, randoms := fun _ _ => 0 }
        [⟨[0xE9, 0x03, 0x00], by decide, by decide⟩] ∧
      ReadRoundTrip globalBox globalBox { pBox := globalBox, randoms := fun _ _ => 0 }
        [⟨[0xE9, 0x03, 0x00], by decide, by decide⟩]) := by
  rintro ⟨-, hread⟩
  have hshort := (readRoundTrip_iff _ _ _ _).mp hread _ (List.mem_singleton_self _) (.inl rfl)
  exact absurd (hshort 0 (by decide)) (by decide)

end IceBridge.Gateway
