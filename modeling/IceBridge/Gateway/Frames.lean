import IceBridge.Gateway.MyFilter
import IceBridge.Lib.Reads
import IceBridge.Workers.Forward

/-! A frame of a client on its way through `MyFilter::Read`, `decryptMessage`,
`LoginWorker::OnMessage` and `ChatProcess`, with the bytes and the lengths that they look at. None
of them asks how long the message is before it reads the id. -/

namespace IceBridge.Gateway
open Reads Workers Router

/-! ## The filter -/

namespace MyFilter
variable (f : MyFilter)

theorem length_decryptMessage (message : List UInt8) :
    (f.decryptMessage message).length = message.length := by
  unfold decryptMessage TeaAlgorithm.decrypt
  split_ifs
  · rw [List.length_append, List.length_map, ← List.length_append, List.take_append_drop]
  · rfl

theorem take_decryptMessage (message : List UInt8) :
    (f.decryptMessage message).take 2 = message.take 2 := by
  unfold decryptMessage
  split_ifs with h
  · have hlen : (message.take 2).length = 2 := by
      rw [List.length_take]
      omega
    exact List.take_left' hlen
  · rfl

def decrypted (message : Buffer) : Buffer where
  bytes := f.decryptMessage message.bytes
  around := message.around
  fits := by
    rw [length_decryptMessage]
    exact message.fits

def decryptMessageNoted (message : Buffer) : Traced Buffer := do
  let id ← message.unsignedShort 0
  if serverChallengeResponseId ≤ id ∧ 3 < message.size ∧ message.size < 65535 then
    let length ← storeLength (message.size - 2) (toUnsigned (toSizeT (message.size - 2)))
    let _ ← message.read 2 length.toNat
    pure (f.decrypted message)
  else pure message

def readNoted (buffer : Buffer) : Traced (MyFilter × Option Buffer × ℕ) :=
  if f.headerRead = false then do
    let header ← buffer.unsignedShort 0
    pure ({ f with headerRead := true, header := header.toUInt16 }, none, kHeaderSize)
  else do
    let _ ← buffer.read 0 buffer.size
    let message ← f.decryptMessageNoted buffer
    pure ({ f with headerRead := false }, some message, f.header.toNat)

end MyFilter

/-! ## The handler -/

def unpackRest (message : Buffer) : Traced Unit := do
  let size ← storeLength (message.size - 2) (toInt (toSizeT (message.size - 2)))
  if size ≠ 0 then
    let _ ← message.read 2 (toSizeT size)
    pure ()
  else pure ()

def chatProcessNoted (data : Buffer) : Traced Unit := do
  let _ ← data.unsignedShort 0
  unpackRest data

def forwardNoted (worker : WorkerStatus) (w : Workers.LoginWorker) (message : Buffer) :
    Traced (Option (Frame × Zmsg)) := do
  -- `Header` is an unsigned short
  let header ← storeLength (message.size + 4) ((message.size + 4) % 65536)
  let body ← message.read 0 message.size
  let request := Bytes.encode 2 header.toNat ++ (Bytes.encode 4 w.playerUuid.toNat ++ body)
  if worker.name ≠ [] ∧ worker.name ≠ ascii [' '] then pure (some (worker.name, [request]))
  else pure none

/-- `LoginWorker.onMessage` on a message in memory; `process` says which workers have one, and the
only one there is is `ChatProcess`. -/
def onMessageNoted (workerStatus : ℕ → WorkerStatus) (process : ℕ → Bool) (w : Workers.LoginWorker)
    (message : Buffer) : Traced (Option (Frame × Zmsg)) := do
  let id ← message.unsignedShort 0
  let index := (id.toUInt16.toUInt32 - serverChallengeRequestId).toNat
  if maxReqNum - 1 < index then pure none
  else if index < loginServiceNum then
    unpackRest message
    pure none
  else if (workerStatus index).isLocal ∧ w.loginStatus then
    if process index then
      chatProcessNoted message
      pure none
    else pure none
  else if w.loginStatus = false then pure none
  else forwardNoted (workerStatus index) w message

/-! ## The values are those of the functions on lists -/

section
variable {f : MyFilter} {workerStatus : ℕ → WorkerStatus} {process : ℕ → Bool}
  {w : Workers.LoginWorker} {message : Buffer}

theorem slice_two (h : 2 ≤ message.size) : message.slice 0 2 = message.bytes.take 2 :=
  message.slice_of_le (by rwa [Nat.zero_add])

theorem bytes_decryptMessageNoted :
    (f.decryptMessageNoted message).value.bytes = f.decryptMessage message.bytes := by
  unfold MyFilter.decryptMessageNoted
  rw [Traced.value_bind, Buffer.value_unsignedShort]
  by_cases hsize : 2 ≤ message.size
  · rw [slice_two hsize]
    unfold MyFilter.decryptMessage
    split_ifs with hid hid'
    · show f.decryptMessage message.bytes = _
      rw [MyFilter.decryptMessage, if_pos hid']
    · exact absurd hid hid'
    · contradiction
    · rfl
  · have hshort : ¬ 3 < message.size := by omega
    rw [if_neg fun h => hshort h.2.1, MyFilter.decryptMessage, if_neg fun h => hshort h.2.1]
    rfl

theorem value_readNoted {buffer : Buffer} (hsize : f.headerRead = false → 2 ≤ buffer.size) :
    let (g, received, read) := (f.readNoted buffer).value
    (g, (received.map Buffer.bytes).toList, read) = f.read buffer.bytes := by
  unfold MyFilter.readNoted MyFilter.read
  cases hread : f.headerRead with
  | false =>
    rw [if_pos rfl, Traced.value_bind, Buffer.value_unsignedShort, slice_two (hsize hread)]
    rfl
  | true =>
    have hbytes := @bytes_decryptMessageNoted f buffer
    exact congrArg (fun bytes => (_, [bytes], _)) hbytes

theorem value_forwardNoted (worker : WorkerStatus) :
    (forwardNoted worker w message).value =
      if worker.name ≠ [] ∧ worker.name ≠ ascii [' '] then
        some (worker.name, [Workers.requestOf w.playerUuid message.bytes])
      else none := by
  have hbody : message.slice 0 message.size = message.bytes := by
    rw [← Int.natCast_zero, message.slice_of_le (Nat.zero_add _).le, List.drop_zero]
    exact List.take_of_length_le le_rfl
  have hheader : Bytes.encode 2 ((message.size + 4 : Int) % 65536).toNat =
      Bytes.encode 2 (message.bytes.length + 4) := by
    rw [← Bytes.encode_mod 2 (message.bytes.length + 4)]
    rfl
  unfold forwardNoted Workers.requestOf
  rw [Traced.value_bind, value_storeLength, Traced.value_bind, Buffer.value_read, hbody]
  dsimp only
  rw [hheader]
  split_ifs
  · rfl
  · rfl

theorem value_onMessageNoted (hsize : 2 ≤ message.size) :
    (onMessageNoted workerStatus process w message).value =
      w.onMessage workerStatus message.bytes := by
  have hshort : ¬ message.bytes.length < 2 := not_lt.mpr hsize
  unfold onMessageNoted Workers.LoginWorker.onMessage
  rw [if_neg hshort, Traced.value_bind, Buffer.value_unsignedShort, slice_two hsize]
  dsimp only [unsignedShortAt]
  split_ifs with hhigh hown hlocal hprocess hlogin hname
  · rfl
  · rfl
  · rfl
  · rfl
  · rfl
  · rw [value_forwardNoted, if_pos hname]
  · rw [value_forwardNoted, if_neg hname]

/-! ## What is read -/

theorem safe_decryptMessageNoted :
    (f.decryptMessageNoted message).Safe message.size ↔ 2 ≤ message.size := by
  unfold MyFilter.decryptMessageNoted
  rw [Traced.safe_bind, Buffer.safe_unsignedShort]
  constructor
  · intro h
    omega
  · intro hsize
    refine ⟨by omega, ?_⟩
    split_ifs with h
    · have hlength : (toUnsigned (toSizeT (message.size - 2)) : Int) = message.size - 2 := by
        rw [toSizeT_eq_self_iff.mpr (by omega)]
        exact toUnsigned_eq_self_iff.mpr (by omega)
      rw [Traced.safe_bind, safe_storeLength, value_storeLength, hlength, Traced.safe_bind,
        Buffer.safe_read, Traced.safe_pure, and_true]
      omega
    · exact (Traced.safe_pure _).mpr trivial

theorem safe_unpackRest (hsize : 2 ≤ message.size) (hbound : message.size ≤ 65535) :
    (unpackRest message).Safe message.size := by
  have hlength : toInt (toSizeT (message.size - 2)) = message.size - 2 := by
    rw [toSizeT_eq_self_iff.mpr (by omega)]
    exact toInt_eq_self_iff.mpr (by omega)
  unfold unpackRest
  rw [Traced.safe_bind, safe_storeLength, value_storeLength, hlength]
  refine ⟨by omega, ?_⟩
  split_ifs
  · rw [Traced.safe_bind, Buffer.safe_read, Traced.safe_pure, and_true,
      toSizeT_eq_self_iff.mpr (by omega)]
    omega
  · exact (Traced.safe_pure _).mpr trivial

/-- The header of a request has no room for the size of the longest messages with the player. -/
theorem safe_forwardNoted (worker : WorkerStatus) :
    (forwardNoted worker w message).Safe message.size ↔ message.size < 65532 := by
  unfold forwardNoted
  rw [Traced.safe_bind, safe_storeLength, Traced.safe_bind, Buffer.safe_read]
  dsimp only
  split_ifs
  · rw [Traced.safe_pure, and_true]
    omega
  · rw [Traced.safe_pure, and_true]
    omega

def Forwards (workerStatus : ℕ → WorkerStatus) (w : Workers.LoginWorker) (message : List UInt8) :
    Prop :=
  let index := ((unsignedShortAt message).toUInt32 - serverChallengeRequestId).toNat
  loginServiceNum ≤ index ∧ index ≤ maxReqNum - 1 ∧ w.loginStatus = true ∧
    (workerStatus index).isLocal = false

theorem safe_onMessageNoted (hbound : message.size ≤ 65535) :
    (onMessageNoted workerStatus process w message).Safe message.size ↔
      2 ≤ message.size ∧
        ¬ (65532 ≤ message.size ∧ Forwards workerStatus w message.bytes) := by
  unfold onMessageNoted
  rw [Traced.safe_bind, Buffer.safe_unsignedShort, Buffer.value_unsignedShort]
  by_cases hsize : 2 ≤ message.size
  · rw [slice_two hsize, and_iff_right (by omega), and_iff_right hsize]
    unfold Forwards
    dsimp only [unsignedShortAt]
    generalize ((Bytes.value (message.bytes.take 2)).toUInt16.toUInt32 -
      serverChallengeRequestId).toNat = index
    have hpure : ∀ r : Option (Frame × Zmsg), (pure r : Traced _).Safe message.size :=
      fun r => (Traced.safe_pure r).mpr trivial
    have hrest := safe_unpackRest hsize hbound
    split_ifs with hhigh hown hlocal hprocess hlogin
    · exact iff_of_true (hpure none) fun h => absurd h.2.2.1 (not_le.mpr hhigh)
    · rw [Traced.safe_bind]
      exact iff_of_true ⟨hrest, hpure none⟩ fun h => absurd h.2.1 (not_le.mpr hown)
    · have hchat : (chatProcessNoted message).Safe message.size := by
        rw [chatProcessNoted, Traced.safe_bind, Buffer.safe_unsignedShort]
        exact ⟨by omega, hrest⟩
      rw [Traced.safe_bind]
      exact iff_of_true ⟨hchat, hpure none⟩ fun h => by simp [hlocal.1] at h
    · exact iff_of_true (hpure none) fun h => by simp [hlocal.1] at h
    · exact iff_of_true (hpure none) fun h => by simp [hlogin] at h
    · have hlogged : w.loginStatus = true := by simpa using hlogin
      have hforeign : (workerStatus index).isLocal = false := by simpa [hlogged] using hlocal
      rw [safe_forwardNoted]
      constructor
      · exact fun hshort h => absurd h.1 (not_le.mpr hshort)
      · intro h
        by_contra hlong
        exact h ⟨not_lt.mp hlong, not_lt.mp hown, not_lt.mp hhigh, hlogged, hforeign⟩
  · exact iff_of_false (by omega) (by omega)

end

/-! ## A frame -/

structure Arrival where
  header : Buffer
  frame : Buffer
  announced : header.bytes = Bytes.encode 2 frame.size
  bounded : 1 ≤ frame.size ∧ frame.size ≤ 65535

def handleFrame (f : MyFilter) (workerStatus : ℕ → WorkerStatus) (process : ℕ → Bool)
    (w : Workers.LoginWorker) (frame : Buffer) : Traced (Option (Frame × Zmsg)) := do
  let (_, message, _) ← f.readNoted frame
  match message with
  | none => pure none
  | some message => onMessageNoted workerStatus process w message

/-- From the header to the handler, the gateway reads only the bytes it has received and computes
no length that is negative or wrapped. -/
def HandledInside (f : MyFilter) (workerStatus : ℕ → WorkerStatus) (process : ℕ → Bool)
    (w : Workers.LoginWorker) (a : Arrival) : Prop :=
  let header := { f with headerRead := false }.readNoted a.header
  header.Safe a.header.size ∧
    (handleFrame header.value.1 workerStatus process w a.frame).Safe a.frame.size

section
variable {f : MyFilter} {workerStatus : ℕ → WorkerStatus} {process : ℕ → Bool}
  {w : Workers.LoginWorker}

theorem safe_handleFrame (hread : f.headerRead = true) {frame : Buffer}
    (hbound : frame.size ≤ 65535) :
    (handleFrame f workerStatus process w frame).Safe frame.size ↔
      2 ≤ frame.size ∧ ¬ (65532 ≤ frame.size ∧ Forwards workerStatus w frame.bytes) := by
  obtain ⟨message, hmessage⟩ : ∃ message, (f.decryptMessageNoted frame).value = message :=
    ⟨_, rfl⟩
  have hbytes : message.bytes = f.decryptMessage frame.bytes := by
    rw [← hmessage, bytes_decryptMessageNoted]
  have hsize : message.size = frame.size := by
    rw [Buffer.size, hbytes, MyFilter.length_decryptMessage]
    rfl
  have hforwards : Forwards workerStatus w message.bytes ↔
      Forwards workerStatus w frame.bytes := by
    unfold Forwards unsignedShortAt
    rw [hbytes, MyFilter.take_decryptMessage]
  have hhandler : (onMessageNoted workerStatus process w message).Safe frame.size ↔
      2 ≤ frame.size ∧ ¬ (65532 ≤ frame.size ∧ Forwards workerStatus w frame.bytes) := by
    rw [← hforwards, ← hsize]
    exact safe_onMessageNoted (hsize.trans_le hbound)
  unfold handleFrame MyFilter.readNoted
  rw [if_neg (by simp [hread]), Traced.safe_bind, Traced.safe_bind, Buffer.safe_read,
    Traced.safe_bind, safe_decryptMessageNoted, Traced.safe_pure, and_true]
  simp only [Traced.value_bind, Traced.value_pure, hmessage, hhandler]
  exact ⟨fun h => h.2, fun h => ⟨⟨Or.inr ⟨le_rfl, (Int.zero_add _).le⟩, h.1⟩, h⟩⟩

theorem handledInside_iff_safe (a : Arrival) : HandledInside f workerStatus process w a ↔
    (handleFrame { f with
      headerRead := true
      header := (Bytes.value (a.header.slice 0 2)).toUInt16 } workerStatus process w
        a.frame).Safe a.frame.size := by
  have hheader : a.header.size = 2 := by
    rw [Buffer.size, a.announced, Bytes.length_encode]
  unfold HandledInside MyFilter.readNoted
  dsimp only
  rw [if_pos rfl, hheader, Traced.safe_bind, Buffer.safe_unsignedShort, Traced.safe_pure, and_true]
  exact and_iff_right (by decide)

/-- The gateway handles a frame inside its bytes exactly when the frame has an id and, if it is to
be forwarded, leaves room for the player in the 16 bits of the size. -/
theorem handledInside_iff (f : MyFilter) (workerStatus : ℕ → WorkerStatus) (process : ℕ → Bool)
    (w : Workers.LoginWorker) (a : Arrival) : HandledInside f workerStatus process w a ↔
      2 ≤ a.frame.size ∧ ¬ (65532 ≤ a.frame.size ∧ Forwards workerStatus w a.frame.bytes) := by
  rw [handledInside_iff_safe]
  exact safe_handleFrame rfl a.bounded.2

end

def oneByte : Arrival where
  header := ⟨[1, 0], fun _ => 0, by decide⟩
  frame := ⟨[233], fun _ => 0, by decide⟩
  announced := rfl
  bounded := by decide

theorem length_long : (9 :: 4 :: List.replicate 65530 (0 : UInt8)).length = 65532 := by
  rw [List.length_cons, List.length_cons, List.length_replicate]

def longFrame : Arrival where
  header := ⟨[252, 255], fun _ => 0, by decide⟩
  frame := ⟨9 :: 4 :: List.replicate 65530 0, fun _ => 0, length_long.trans_lt (by decide)⟩
  announced := (congrArg (Bytes.encode 2) length_long).symm
  bounded := ⟨Nat.one_le_iff_ne_zero.mpr (List.cons_ne_nil _ _ ∘ List.length_eq_zero_iff.mp),
    length_long.trans_le (by decide)⟩

/-- The id of the one is read past its end, and the other's size becomes 0 in the request. -/
theorem not_handledInside :
    ¬ HandledInside { pBox := id, randoms := fun _ _ => 0 } (fun _ => ⟨false, worldmap⟩)
      (fun _ => false) ⟨false, 0⟩ oneByte ∧
    ¬ HandledInside { pBox := id, randoms := fun _ _ => 0 } (fun _ => ⟨false, worldmap⟩)
      (fun _ => false) ⟨true, 258⟩ longFrame := by
  have hforwards : Forwards (fun _ => ⟨false, worldmap⟩) ⟨true, 258⟩ longFrame.frame.bytes := by
    have hid : longFrame.frame.bytes.take 2 = [9, 4] := rfl
    unfold Forwards unsignedShortAt
    rw [hid]
    exact ⟨by decide, by decide, rfl, rfl⟩
  rw [handledInside_iff_safe, handledInside_iff_safe, safe_handleFrame rfl oneByte.bounded.2,
    safe_handleFrame rfl longFrame.bounded.2]
  exact ⟨fun h => absurd h.1 (by decide), fun h => h.2 ⟨length_long.ge, hforwards⟩⟩

end IceBridge.Gateway
