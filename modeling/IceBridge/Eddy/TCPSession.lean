import IceBridge.Lib.Bytes
import IceBridge.Lib.Run
import Mathlib.Algebra.Group.Nat.Defs

/-! A session of the network library and the filter between its bytes and its messages. All of
this runs on the thread of the session; what it posts to others is listed in `effects`. -/

namespace IceBridge.Eddy

/-! ## The filter -/

structure NetMessageFilter (σ M : Type) where
  bytesWannaWrite : σ → List M → ℕ
  /-- The filter, what it leaves of the messages and the bytes that it appends to the buffer;
  `none` when it reads or writes outside a message. -/
  write : σ → List M → Option (σ × List M × List UInt8)
  bytesWannaRead : σ → ℕ
  /-- The filter, the messages that it appends and the number of bytes that it says it has read. -/
  read : σ → List UInt8 → σ × List M × ℕ

def readSome : ℕ := 2 ^ 64 - 1

/-- `BytesWannaRead` and `Read` in turns until the bytes are used up, at most `turns` of them:
the filter, the messages and the rest of the bytes. -/
def NetMessageFilter.feed {σ M : Type} (F : NetMessageFilter σ M) :
    (turns : ℕ) → σ → List UInt8 → σ × List M × List UInt8
  | 0, f, bytes => (f, [], bytes)
  | turns + 1, f, bytes =>
    let wanted := F.bytesWannaRead f
    if wanted = 0 ∨ bytes.length < wanted then (f, [], bytes)
    else
      let (g, new, _) := F.read f (bytes.take wanted)
      let (last, messages, rest) := F.feed turns g (bytes.drop wanted)
      (last, new ++ messages, rest)

namespace NetMessageFilter
variable {σ M : Type} {F : NetMessageFilter σ M} {f g : σ} {bytes : List UInt8}

theorem feed_succ {wanted n : ℕ} {new : List M} (hwanted : F.bytesWannaRead f = wanted)
    (hpos : wanted ≠ 0) (hlen : wanted ≤ bytes.length)
    (hread : F.read f (bytes.take wanted) = (g, new, n)) (turns : ℕ) :
    (F.feed (turns + 1) f bytes).2 = (new ++ (F.feed turns g (bytes.drop wanted)).2.1,
      (F.feed turns g (bytes.drop wanted)).2.2) := by
  have hgoes : ¬ (wanted = 0 ∨ bytes.length < wanted) := by omega
  simp only [feed, hwanted, if_neg hgoes, hread]

theorem feed_short (h : bytes.length < F.bytesWannaRead f) (turns : ℕ) :
    F.feed turns f bytes = (f, [], bytes) := by
  cases turns with
  | zero => rfl
  | succ turns => exact if_pos (.inr h)

end NetMessageFilter

/-! ## The session -/

inductive Reading
  | exactly (n : ℕ)
  | some
  deriving DecidableEq

/-- What a session hands to others: a task for its own thread that takes `messages_received_`,
a wait of the receive timer, the cancelling of that wait, and two tasks for the main thread. -/
inductive Effect (M : Type)
  | packMessageList
  | startTimer
  | cancelTimer
  | onSessionClose
  | sendMessageListToHandler (messages : List M)
  deriving DecidableEq

/-- `reads` and `writes` are the operations whose completion has not been handled, `sent` the
buffers ever passed to `async_write`. `activeClosed` is there in the gateway only. -/
structure TCPSession (σ M : Type) where
  filter : σ
  messagesReceived : List M := []
  messagesToBeSent : List M := []
  bufferToBeSent : List UInt8 := []
  bufferSending : List UInt8 := []
  numHandlers : Int := 0
  closed : Bool := false
  activeClosed : Bool := false
  /-- `receive_delay_` is a time. -/
  receiveDelay : Bool := false
  reads : List Reading := []
  writes : List (List UInt8) := []
  sent : List (List UInt8) := []
  effects : List (Effect M) := []
  tornDown : ℕ := 0
  closeCalled : Bool := false

namespace TCPSession
variable {σ M : Type} (F : NetMessageFilter σ M)

def packMessageList (s : TCPSession σ M) : TCPSession σ M :=
  match s.messagesReceived with
  | [] => s
  | messages => { s with
      messagesReceived := []
      effects := s.effects ++ [.sendMessageListToHandler messages] }

def tearDown (s : TCPSession σ M) : TCPSession σ M :=
  packMessageList { s with
    effects := s.effects ++ [.onSessionClose, .cancelTimer]
    tornDown := s.tornDown + 1 }

def handleClose (s : TCPSession σ M) : TCPSession σ M :=
  if 0 < s.numHandlers ∨ s.activeClosed then s else s.tearDown

def shut (s : TCPSession σ M) : TCPSession σ M := handleClose { s with closed := true }

def handled (s : TCPSession σ M) : TCPSession σ M := { s with numHandlers := s.numHandlers - 1 }

def startRead (s : TCPSession σ M) : TCPSession σ M :=
  if F.bytesWannaRead s.filter = 0 then s
  else { s with
    numHandlers := s.numHandlers + 1
    reads := s.reads ++ [if F.bytesWannaRead s.filter = readSome then .some
      else .exactly (F.bytesWannaRead s.filter)] }

/-- The empty `buffer_sending_` changes places with the other buffer and is written. -/
def startWrite (s : TCPSession σ M) : TCPSession σ M :=
  { s with
    bufferSending := s.bufferToBeSent
    bufferToBeSent := []
    numHandlers := s.numHandlers + 1
    writes := s.writes ++ [s.bufferToBeSent]
    sent := s.sent ++ [s.bufferToBeSent] }

def init (f : σ) : TCPSession σ M := startRead F { filter := f }

def postMessageList (s : TCPSession σ M) (messages : List M) : Option (TCPSession σ M) :=
  if s.closed then some s
  else if s.messagesToBeSent ≠ [] then none
  else if F.bytesWannaWrite s.filter messages = 0 then some { s with messagesToBeSent := messages }
  else do
    let (f, _, bytes) ← F.write s.filter messages
    let t := { s with filter := f, bufferToBeSent := s.bufferToBeSent ++ bytes }
    some (if s.bufferSending = [] then t.startWrite else t)

def receive (s : TCPSession σ M) (data : List UInt8) : Option (TCPSession σ M) :=
  let (f, new, bytesRead) := F.read s.filter data
  if bytesRead ≠ data.length then none
  else
    let posts : List (Effect M) :=
      if s.messagesReceived = [] ∧ new ≠ [] then
        [if s.receiveDelay then .startTimer else .packMessageList]
      else []
    some (startRead F { s with
      filter := f
      messagesReceived := s.messagesReceived ++ new
      effects := s.effects ++ posts })

def handleRead (s : TCPSession σ M) (error : Bool) (data : List UInt8) : Option (TCPSession σ M) :=
  if s.numHandlers - 1 < 0 then none
  else if error ∨ s.closed then some s.handled.shut
  else s.handled.receive F data

def sendNext (s : TCPSession σ M) : Option (TCPSession σ M) :=
  if s.bufferToBeSent ≠ [] then some s.startWrite
  else if F.bytesWannaWrite s.filter s.messagesToBeSent = 0 then
    some (if s.closed then s.handleClose else s)
  else do
    let (f, left, bytes) ← F.write s.filter s.messagesToBeSent
    some (startWrite { s with filter := f, messagesToBeSent := left, bufferToBeSent := bytes })

def handleWrite (s : TCPSession σ M) (error : Bool) : Option (TCPSession σ M) :=
  if s.numHandlers - 1 < 0 then none
  else if error then some s.handled.shut
  else sendNext F { s.handled with bufferSending := [] }

def close (s : TCPSession σ M) : TCPSession σ M :=
  if s.closed then { s with closeCalled := true } else shut { s with closeCalled := true }

end TCPSession

inductive SessionEvent (M : Type)
  | postMessageList (messages : List M)
  | handleRead (reading : Reading) (error : Bool) (data : List UInt8)
  | handleWrite (buffer : List UInt8) (error : Bool)
  | close
  | packMessageList
  | setReceiveDelay (delay : Bool)

def Reading.Fits : Reading → List UInt8 → Prop
  | .exactly n, data => data.length = n
  | .some, data => data ≠ []

instance (reading : Reading) (data : List UInt8) : Decidable (reading.Fits data) :=
  match reading with
  | .exactly n => inferInstanceAs (Decidable (data.length = n))
  | .some => inferInstanceAs (Decidable (data ≠ []))

/-- An assertion that fails ends the run. -/
def TCPSession.step {σ M : Type} (F : NetMessageFilter σ M) (s : TCPSession σ M) :
    SessionEvent M → Option (TCPSession σ M)
  | .postMessageList messages => s.postMessageList F messages
  | .handleRead reading error data =>
    if reading ∈ s.reads ∧ (error ∨ reading.Fits data) then
      handleRead F { s with reads := s.reads.erase reading } error data
    else none
  | .handleWrite buffer error =>
    if buffer ∈ s.writes then handleWrite F { s with writes := s.writes.erase buffer } error
    else none
  | .close => some s.close
  | .packMessageList => some s.packMessageList
  | .setReceiveDelay delay => some { s with receiveDelay := delay }

end IceBridge.Eddy
