import IceBridge.Gateway.NetMessage
import IceBridge.Lib.Holdings
import IceBridge.Lib.Run

/-! The storage of messages. A message has 128 bytes of its own and may hold a vector that others
hold too; what is left in the bytes of its own while it holds a vector is never looked at. -/

namespace IceBridge.Eddy
open Gateway (Heap kDynamicThreshold)

/-! ## One message -/

structure StaticData where
  bytes : List UInt8
  length_eq : bytes.length = kDynamicThreshold

def StaticData.copy (d : StaticData) (offset : ℕ) (source : List UInt8) : Option StaticData :=
  if h : offset + source.length ≤ kDynamicThreshold then
    some ⟨d.bytes.take offset ++ (source ++ d.bytes.drop (offset + source.length)), by
      rw [List.length_append, List.length_append, List.length_take, List.length_drop, d.length_eq]
      omega⟩
  else none

def Heap.reset (h : Heap) : Option ℕ → Heap
  | none => h
  | some r => h.release r

structure NetMessage where
  staticSize : ℕ
  staticData : StaticData
  dynamicData : Option ℕ := none

namespace NetMessage

def staticRange (m : NetMessage) : Option (List UInt8) :=
  if m.staticSize ≤ kDynamicThreshold then some (m.staticData.bytes.take m.staticSize) else none

def size (h : Heap) (m : NetMessage) : ℕ :=
  match m.dynamicData with
  | none => m.staticSize
  | some r => (h.bytesAt r).length

def bytes (h : Heap) (m : NetMessage) : List UInt8 :=
  match m.dynamicData with
  | none => m.staticData.bytes.take m.staticSize
  | some r => h.bytesAt r

def setDynamic (h : Heap) (m : NetMessage) : Option (Heap × NetMessage) :=
  match m.dynamicData with
  | some _ => some (h, m)
  | none => m.staticRange.map fun range =>
    ((h.make range).1, { m with dynamicData := some (h.make range).2 })

def reserve (h : Heap) (m : NetMessage) (size : ℕ) : Option (Heap × NetMessage) :=
  match m.dynamicData with
  | some _ => some (h, m)
  | none => if size < kDynamicThreshold then some (h, m) else m.setDynamic h

def clear (h : Heap) (m : NetMessage) : Heap × NetMessage :=
  (Heap.reset h m.dynamicData, { m with staticSize := 0, dynamicData := none })

/-- The end of `Write`: a vector that others hold is copied, and let go of at the end. -/
def insertDynamic (h : Heap) (m : NetMessage) (r : ℕ) (data : List UInt8) : Heap × NetMessage :=
  if h.useCount r = 1 then (h.modify r (· ++ data), m)
  else
    let (h', r') := h.make (h.bytesAt r ++ data)
    (h'.release r, { m with dynamicData := some r' })

def write (h : Heap) (m : NetMessage) (data : List UInt8) : Option (Heap × NetMessage) :=
  if m.dynamicData = none ∧ m.staticSize + data.length ≤ kDynamicThreshold then
    (m.staticData.copy m.staticSize data).map fun d =>
      (h, { m with staticSize := m.staticSize + data.length, staticData := d })
  else do
    let (h, m) ← m.setDynamic h
    m.dynamicData.map fun r => m.insertDynamic h r data

def assign (h : Heap) (m other : NetMessage) : Option (Heap × NetMessage) :=
  match other.dynamicData with
  | some r => some (Heap.reset (h.retain r) m.dynamicData, { m with dynamicData := some r })
  | none => do
    let range ← other.staticRange
    let d ← m.staticData.copy 0 range
    some (Heap.reset h m.dynamicData, { staticSize := other.staticSize, staticData := d })

def swap (m other : NetMessage) : Option (NetMessage × NetMessage) :=
  match m.dynamicData, other.dynamicData with
  | some r, some r' => some ({ m with dynamicData := some r' }, { other with dynamicData := some r })
  | some r, none => do
    let range ← other.staticRange
    let d ← m.staticData.copy 0 range
    some ({ staticSize := other.staticSize, staticData := d },
      { other with staticSize := m.staticSize, dynamicData := some r })
  | none, some r => do
    let range ← m.staticRange
    let d ← other.staticData.copy 0 range
    some ({ m with staticSize := other.staticSize, dynamicData := some r },
      { staticSize := m.staticSize, staticData := d })
  | none, none => do
    let tempData ← m.staticRange
    let range ← other.staticRange
    let d ← m.staticData.copy 0 range
    let d' ← other.staticData.copy 0 tempData
    some ({ m with staticSize := other.staticSize, staticData := d },
      { other with staticSize := m.staticSize, staticData := d' })

end NetMessage

/-! ## Many messages -/

structure Messages (ι : Type) where
  heap : Heap := {}
  objects : ι → Option NetMessage := fun _ => none

/-- `memory` and `size` are what a constructor finds where it does not initialize. -/
inductive Operation (ι : Type)
  | construct (i : ι) (memory : StaticData)
  | constructReserved (i : ι) (memory : StaticData) (reservedSize : ℕ)
  | constructCopy (i : ι) (memory : StaticData) (size : ℕ) (j : ι)
  | assign (i j : ι)
  | write (i : ι) (data : List UInt8)
  | swap (i j : ι)
  | reserve (i : ι) (size : ℕ)
  | setDynamic (i : ι)
  | clear (i : ι)
  | destroy (i : ι)

variable {ι : Type} [DecidableEq ι]

namespace Messages

def put (x : Messages ι) (i : ι) (h : Heap) (m : NetMessage) : Messages ι :=
  { heap := h, objects := Function.update x.objects i (some m) }

/-- An operation on a message that does not exist, or a second construction, is none. With itself a
message is assigned and exchanged without effect. -/
def step (x : Messages ι) : Operation ι → Option (Messages ι)
  | .construct i memory =>
    match x.objects i with
    | some _ => none
    | none => some (x.put i x.heap { staticSize := 0, staticData := memory })
  | .constructReserved i memory reservedSize =>
    match x.objects i with
    | some _ => none
    | none => (NetMessage.reserve x.heap { staticSize := 0, staticData := memory } reservedSize).map
        fun (h, m) => x.put i h m
  | .constructCopy i memory size j =>
    match x.objects i, x.objects j with
    | none, some other =>
      (NetMessage.assign x.heap { staticSize := size, staticData := memory } other).map
        fun (h, m) => x.put i h m
    | _, _ => none
  | .assign i j =>
    match x.objects i, x.objects j with
    | some m, some other =>
      if i = j then some x else (m.assign x.heap other).map fun (h, m) => x.put i h m
    | _, _ => none
  | .write i data =>
    (x.objects i).bind fun m => (m.write x.heap data).map fun (h, m) => x.put i h m
  | .swap i j =>
    match x.objects i, x.objects j with
    | some m, some other =>
      if i = j then some x
      else (m.swap other).map fun (m, other) => (x.put i x.heap m).put j x.heap other
    | _, _ => none
  | .reserve i size =>
    (x.objects i).bind fun m => (m.reserve x.heap size).map fun (h, m) => x.put i h m
  | .setDynamic i =>
    (x.objects i).bind fun m => (m.setDynamic x.heap).map fun (h, m) => x.put i h m
  | .clear i => (x.objects i).map fun m => x.put i (m.clear x.heap).1 (m.clear x.heap).2
  | .destroy i => (x.objects i).map fun m =>
    { heap := Heap.reset x.heap m.dynamicData, objects := Function.update x.objects i none }

end Messages

/-! ## Messages as byte lists -/

/-- What the operations mean: every message is a byte list of its own. -/
abbrev Contents (ι : Type) := ι → Option (List UInt8)

def Contents.step (a : Contents ι) : Operation ι → Option (Contents ι)
  | .construct i _ | .constructReserved i _ _ =>
    match a i with
    | some _ => none
    | none => some (Function.update a i (some []))
  | .constructCopy i _ _ j =>
    match a i, a j with
    | none, some bytes => some (Function.update a i (some bytes))
    | _, _ => none
  | .assign i j =>
    match a i, a j with
    | some _, some bytes => some (Function.update a i (some bytes))
    | _, _ => none
  | .write i data => (a i).map fun bytes => Function.update a i (some (bytes ++ data))
  | .swap i j =>
    match a i, a j with
    | some bytes, some others =>
      some (Function.update (Function.update a i (some others)) j (some bytes))
    | _, _ => none
  | .reserve i _ | .setDynamic i => (a i).map fun _ => a
  | .clear i => (a i).map fun _ => Function.update a i (some [])
  | .destroy i => (a i).map fun _ => Function.update a i none

end IceBridge.Eddy
