import IceBridge.Lib.Bytes
import Mathlib.Logic.Equiv.Basic
import Mathlib.Logic.Function.Basic

/-! Messages of the gateway: short ones hold their bytes, long ones share a vector, and
the filter of a session encrypts the bytes where they are. -/

namespace IceBridge.Gateway

/-! ## Shared vectors -/

/-- The vectors made so far, by address, and how many messages hold each. -/
structure Heap where
  vectors : List (List UInt8) := []
  useCount : ℕ → ℕ := fun _ => 0

namespace Heap

def bytesAt (h : Heap) (r : ℕ) : List UInt8 := (h.vectors[r]?).getD []

def make (h : Heap) (bytes : List UInt8) : Heap × ℕ :=
  ({ vectors := h.vectors ++ [bytes], useCount := Function.update h.useCount h.vectors.length 1 },
    h.vectors.length)

def retain (h : Heap) (r : ℕ) : Heap :=
  { h with useCount := Function.update h.useCount r (h.useCount r + 1) }

def release (h : Heap) (r : ℕ) : Heap :=
  { h with useCount := Function.update h.useCount r (h.useCount r - 1) }

def modify (h : Heap) (r : ℕ) (f : List UInt8 → List UInt8) : Heap :=
  { h with vectors := h.vectors.modify r f }

end Heap

/-! ## NetMessage -/

def kDynamicThreshold : ℕ := 128

structure NetMessage where
  staticData : List UInt8 := []
  dynamicData : Option ℕ := none

namespace NetMessage

def bytes (h : Heap) (m : NetMessage) : List UInt8 :=
  match m.dynamicData with
  | none => m.staticData
  | some r => h.bytesAt r

/-- The copy constructor, which makes a copy hold the vector of a dynamic message too. -/
def copy (h : Heap) (m : NetMessage) : Heap × NetMessage :=
  match m.dynamicData with
  | none => (h, { staticData := m.staticData })
  | some r => (h.retain r, { dynamicData := some r })

def setDynamic (h : Heap) (m : NetMessage) : Heap × NetMessage :=
  match m.dynamicData with
  | none =>
    let (h, r) := h.make m.staticData
    (h, { m with dynamicData := some r })
  | some _ => (h, m)

def write (h : Heap) (m : NetMessage) (data : List UInt8) : Heap × NetMessage :=
  if m.dynamicData = none ∧ m.staticData.length + data.length ≤ kDynamicThreshold then
    (h, { m with staticData := m.staticData ++ data })
  else
    let (h, m) := m.setDynamic h
    match m.dynamicData with
    | none => (h, m)
    | some r =>
      if h.useCount r = 1 then (h.modify r (· ++ data), m)
      else
        -- copy on write
        let (h', r') := (h.release r).make (h.bytesAt r ++ data)
        (h', { m with dynamicData := some r' })

def clear (h : Heap) (m : NetMessage) : Heap × NetMessage :=
  match m.dynamicData with
  | none => (h, {})
  | some r => (h.release r, {})

def update (h : Heap) (m : NetMessage) (f : List UInt8 → List UInt8) : Heap × NetMessage :=
  match m.dynamicData with
  | none => (h, { m with staticData := f m.staticData })
  | some r => (h.modify r f, m)

end NetMessage

/-! ## MyFilter -/

def serverChallengeResponseId : ℕ := 1000

def exchangeTimes : ℕ := 64

def encrypt (box : Equiv.Perm UInt8) (bytes : List UInt8) : List UInt8 :=
  bytes.take 2 ++ (bytes.drop 2).map box

def decrypt (box : Equiv.Perm UInt8) (bytes : List UInt8) : List UInt8 :=
  bytes.take 2 ++ (bytes.drop 2).map box.symm

/-- `AESSBox::formNewBoxes`: the entries at each pair of random positions change places. -/
def formNewBoxes (box : Equiv.Perm UInt8) : List UInt8 → Equiv.Perm UInt8
  | i :: j :: randoms => formNewBoxes ((Equiv.swap i j).trans box) randoms
  | _ => box

/-- The queue of a session with the variables of its filter: `randoms n` are the bytes its
n-th key exchange draws, and `written` the frames of its last `Write`. -/
structure Session where
  messagesToBeSent : List NetMessage := []
  pBox : Equiv.Perm UInt8
  randoms : ℕ → Fin (exchangeTimes * 2) → UInt8
  exchanges : ℕ := 0
  written : List (List UInt8) := []

namespace Session

/-- What `MyFilter::Write` does with a message of 2 to 65535 bytes, which it lets go of
afterwards. -/
def writeMessage (globalBox : Equiv.Perm UInt8) (h : Heap) (s : Session) (m : NetMessage) :
    Heap × Session :=
  let size := (m.bytes h).length
  if Bytes.value ((m.bytes h).take 2) ≠ serverChallengeResponseId then
    let (h, m) := m.update h (encrypt s.pBox)
    ((m.clear h).1, { s with written := s.written ++ [Bytes.encode 2 size ++ m.bytes h] })
  else
    let header := Bytes.encode 2 (size + exchangeTimes * 2)
    let plain := m.bytes h
    let (h, m) := m.clear h
    let randoms := List.ofFn (s.randoms s.exchanges)
    let (h, m) := m.write h randoms
    ((m.clear h).1, { s with
      pBox := formNewBoxes globalBox randoms
      exchanges := s.exchanges + 1
      written := s.written ++ [header ++ plain ++ m.bytes h] })

/-- `MyFilter::Write`: `none` when it reads and writes past the end of a message of less
than two bytes. -/
def writeMessages (globalBox : Equiv.Perm UInt8) : List NetMessage → Heap → Session →
    Option (Heap × Session)
  | [], h, s => some (h, s)
  | m :: rest, h, s =>
    if (m.bytes h).length < 2 then none
    else if 65535 < (m.bytes h).length then
      some ((m :: rest).foldl (fun h m => (m.clear h).1) h, s)
    else
      let (h, s) := s.writeMessage globalBox h m
      writeMessages globalBox rest h s

end Session

/-! ## The gateway -/

structure Sessions where
  globalBox : Equiv.Perm UInt8
  heap : Heap := {}
  session : UInt32 → Option Session := fun _ => none

namespace Sessions

def post (g : Sessions) (uuid : UInt32) : Option Sessions :=
  match g.session uuid with
  | none => some g
  | some s => do
    let (heap, s') ← { s with written := [] }.writeMessages g.globalBox s.messagesToBeSent g.heap
    some { g with
      heap := heap
      session := Function.update g.session uuid (some { s' with messagesToBeSent := [] }) }

def send (m : NetMessage) (g : Sessions) (uuid : UInt32) : Sessions :=
  match g.session uuid with
  | none => g
  | some s =>
    if m.bytes g.heap = [] then g
    else
      let (heap, copied) := m.copy g.heap
      { g with
        heap := heap
        session := Function.update g.session uuid
          (some { s with messagesToBeSent := s.messagesToBeSent ++ [copied] }) }

def readUuids : ℕ → List UInt8 → List UInt32
  | 0, _ => []
  | n + 1, data => (Bytes.value (data.take 4)).toUInt32 :: readUuids n (data.drop 4)

/-- `handler_in_gateway`: `none` when it reads outside `data`, that is without the two bytes
of the count or with a negative count. -/
def handlerInGateway (data : List UInt8) (g : Sessions) : Option Sessions :=
  let usercount := Bytes.value (data.take 2)
  let offset := 2 + 4 * usercount
  if data.length < 2 ∨ 32768 ≤ usercount then none
  else if data.length < offset ∨ 10240000 < data.length - offset then some g
  else
    let (heap, netMessage) := ({} : NetMessage).write g.heap (data.drop offset)
    let g := (readUuids usercount (data.drop 2)).foldl (send netMessage) { g with heap := heap }
    some { g with heap := (netMessage.clear g.heap).1 }

end Sessions

structure Reply where
  recipients : List UInt32
  payload : List UInt8
  count_short : recipients.length < 32768
  size_short : payload.length ≤ 65535

def Reply.data (r : Reply) : List UInt8 :=
  Bytes.encode 2 r.recipients.length ++
    (r.recipients.flatMap (fun uuid => Bytes.encode 4 uuid.toNat) ++ r.payload)

end IceBridge.Gateway
