import IceBridge.Lib.Bytes
import Mathlib.Data.List.TakeWhile
import Mathlib.Data.UInt
import Mathlib.Tactic.Common

/-! Multipart messages (`zmsg.hpp`, `mdp.h`). A part is a `ustring`, a list of bytes;
a message is its parts from front to back. Reading a part as a C string cuts it at
its first zero byte. -/

namespace IceBridge.Router

abbrev Frame := List UInt8

abbrev Zmsg := List Frame

/-- What ends the process: an uncaught exception, a failed `assert`, or a pointer or an
iterator that is not valid where it is dereferenced. -/
inductive Fault
  | emptyMessage
  | assertion
  | nullService
  | deletedService
  | cursorOutOfRange
  | unknownService
deriving DecidableEq, Repr

abbrev Result := Except Fault

theorem bind_eq_ok {α β : Type} {x : Result α} {f : α → Result β} {b : β} :
    (x >>= f) = .ok b ↔ ∃ a, x = .ok a ∧ f a = .ok b := by
  cases x with
  | error e => simp [bind, Except.bind]
  | ok a => simp [bind, Except.bind]

@[simp] theorem ok_bind {α β : Type} (a : α) (f : α → Result β) :
    ((.ok a : Result α) >>= f) = f a := rfl

theorem error_bind {α β : Type} (e : Fault) (f : α → Result β) :
    ((.error e : Result α) >>= f) = .error e := rfl

/-! ## C strings and the protocol's words -/

def cstr (part : Frame) : Frame := part.takeWhile (· ≠ 0)

@[simp] theorem cstr_nil : cstr [] = [] := rfl

theorem cstr_eq_self {part : Frame} (h : 0 ∉ part) : cstr part = part :=
  List.takeWhile_eq_self_iff.mpr fun c hc => by
    simpa only [decide_eq_true_eq] using ne_of_mem_of_not_mem hc h

theorem zero_notMem_cstr (part : Frame) : (0 : UInt8) ∉ cstr part := fun h => by
  simpa using List.mem_takeWhile_imp h

@[simp] theorem cstr_cstr (part : Frame) : cstr (cstr part) = cstr part :=
  cstr_eq_self (zero_notMem_cstr part)

def ascii (text : List Char) : Frame := text.map fun c => UInt8.ofNat c.toNat

def mdpcClient : Frame := ascii ['C', 'L', 'I', 'E', 'N', 'T']
def mdpwWorker : Frame := ascii ['W', 'O', 'R', 'K', 'E', 'R']
def mdpwReady : Frame := [1]
def mdpwRequest : Frame := [2]
def mdpwReply : Frame := [3]
def mdpwHeartbeat : Frame := [4]
def mdpwDisconnect : Frame := [5]

/-! ## Operations on the parts -/

/-- `pop_front`: of an empty message it builds a string from the null pointer. -/
def popFront : Zmsg → Result (Frame × Zmsg)
  | [] => .error .emptyMessage
  | part :: rest => .ok (part, rest)

def popCstr : Zmsg → Result (Frame × Zmsg)
  | [] => .error .emptyMessage
  | part :: rest => .ok (cstr part, rest)

def pushFront (part : Frame) (msg : Zmsg) : Zmsg := cstr part :: msg

def wrap (address delim : Frame) (msg : Zmsg) : Zmsg := pushFront address (pushFront delim msg)

def unwrap : Zmsg → Result (Frame × Zmsg)
  | [] => .error .emptyMessage
  | [addr] => .ok (cstr addr, [])
  | addr :: delim :: rest => .ok (cstr addr, if cstr delim = [] then rest else delim :: rest)

def body (msg : Zmsg) : Result Frame :=
  match msg.getLast? with
  | none => .error .emptyMessage
  | some part => .ok (cstr part)

def bodySet (text : Frame) (msg : Zmsg) : Zmsg := msg.dropLast ++ [cstr text]

@[simp] theorem popFront_eq_ok {msg : Zmsg} {r : Frame × Zmsg} :
    popFront msg = .ok r ↔ msg = r.1 :: r.2 := by
  cases msg with
  | nil => simp [popFront]
  | cons part rest =>
    obtain ⟨part', rest'⟩ := r
    simp [popFront]

@[simp] theorem popCstr_eq_ok {msg : Zmsg} {r : Frame × Zmsg} :
    popCstr msg = .ok r ↔ ∃ part, msg = part :: r.2 ∧ cstr part = r.1 := by
  cases msg with
  | nil => simp [popCstr]
  | cons part rest =>
    obtain ⟨text, rest'⟩ := r
    simp only [popCstr, Except.ok.injEq, Prod.mk.injEq, List.cons.injEq]
    exact ⟨fun ⟨h, h'⟩ => ⟨part, ⟨rfl, h'⟩, h⟩, fun ⟨_, ⟨hp, h'⟩, h⟩ => ⟨hp ▸ h, h'⟩⟩

theorem unwrap_wrap {address : Frame} (msg : Zmsg) :
    unwrap (wrap address [] msg) = .ok (cstr address, msg) := by
  simp [wrap, pushFront, unwrap]

/-! ## The wire: seventeen-byte identities are carried as text -/

def hexChar (nibble : UInt8) : UInt8 := if nibble < 10 then 48 + nibble else 55 + nibble

/-- `hex_to_bin[c & 127]`, a `char` table whose -1 is the byte 255. -/
def hexToBin (c : UInt8) : UInt8 :=
  let c := c &&& 127
  if 48 ≤ c ∧ c ≤ 57 then c - 48
  else if 65 ≤ c ∧ c ≤ 70 then c - 55
  else if 97 ≤ c ∧ c ≤ 102 then c - 87
  else 255

def encodeByte (b : UInt8) : Frame := [hexChar (b >>> 4), hexChar (b &&& 15)]

def encodeUuid (data : Frame) : Frame := 64 :: data.tail.flatMap encodeByte

def decodePairs : Frame → Frame
  | hi :: lo :: rest => ((hexToBin hi <<< 4) + hexToBin lo) :: decodePairs rest
  | _ => []

def decodeUuid (text : Frame) : Frame := 0 :: decodePairs text.tail

def recvPart (data : Frame) : Frame :=
  if data.length = 17 ∧ data.head? = some 0 then encodeUuid data else data

def sendPart (data : Frame) : Frame :=
  if data.length = 33 ∧ data.head? = some 64 then decodeUuid data else data

/-- `decode_uuid` asserts that what it is given is 33 characters long as a C string. -/
def Sendable (msg : Zmsg) : Prop :=
  ∀ part ∈ msg, part.length = 33 → part.head? = some 64 → 0 ∉ part

instance (msg : Zmsg) : Decidable (Sendable msg) :=
  inferInstanceAs (Decidable (∀ part ∈ msg, part.length = 33 → part.head? = some 64 → 0 ∉ part))

def send (msg : Zmsg) : Result Zmsg := if Sendable msg then .ok msg else .error .assertion

theorem send_eq_ok {msg sent : Zmsg} : send msg = .ok sent ↔ Sendable msg ∧ sent = msg := by
  unfold send
  split_ifs with h
  · simp [h, eq_comm]
  · simp [h]

@[simp] theorem sendable_nil : Sendable [] := fun _ => nofun

theorem sendable_cons {part : Frame} {msg : Zmsg} : Sendable (part :: msg) ↔
    (part.length = 33 → part.head? = some 64 → 0 ∉ part) ∧ Sendable msg := by
  simp [Sendable]

theorem sendable_append {msg msg' : Zmsg} :
    Sendable (msg ++ msg') ↔ Sendable msg ∧ Sendable msg' := List.forall_mem_append

@[simp] theorem sendable_pushFront {part : Frame} {msg : Zmsg} :
    Sendable (pushFront part msg) ↔ Sendable msg :=
  sendable_cons.trans (and_iff_right fun _ _ => zero_notMem_cstr part)

@[simp] theorem sendable_wrap {address delim : Frame} {msg : Zmsg} :
    Sendable (wrap address delim msg) ↔ Sendable msg := by
  rw [wrap, sendable_pushFront, sendable_pushFront]

theorem hexToBin_hexChar (b : UInt8) :
    (hexToBin (hexChar (b >>> 4)) <<< 4) + hexToBin (hexChar (b &&& 15)) = b := by
  obtain ⟨⟨n⟩⟩ := b
  revert n
  decide +kernel

theorem hexChar_ne_zero (b : UInt8) : hexChar (b >>> 4) ≠ 0 ∧ hexChar (b &&& 15) ≠ 0 := by
  obtain ⟨⟨n⟩⟩ := b
  revert n
  decide +kernel

theorem decodePairs_flatMap (data : Frame) : decodePairs (data.flatMap encodeByte) = data := by
  induction data with
  | nil => rfl
  | cons b data ih =>
    simp only [List.flatMap_cons, encodeByte, List.cons_append, List.nil_append, decodePairs,
      hexToBin_hexChar, ih]

theorem decodeUuid_encodeUuid {data : Frame} (h : data.head? = some 0) :
    decodeUuid (encodeUuid data) = data := by
  cases data with
  | nil => simp at h
  | cons b data =>
    obtain rfl : b = 0 := by simpa using h
    simp [decodeUuid, encodeUuid, decodePairs_flatMap]

theorem length_encodeUuid (data : Frame) :
    (encodeUuid data).length = 2 * (data.length - 1) + 1 := by
  simp only [encodeUuid, List.length_cons, List.length_flatMap]
  simp [encodeByte, Nat.mul_comm]

theorem zero_notMem_encodeUuid (data : Frame) : (0 : UInt8) ∉ encodeUuid data := by
  intro h
  simp only [encodeUuid, List.mem_cons, List.mem_flatMap] at h
  obtain h | ⟨b, -, hb⟩ := h
  · exact absurd h (by decide)
  · obtain ⟨h1, h2⟩ := hexChar_ne_zero b
    simp only [encodeByte, List.mem_cons, List.not_mem_nil, or_false] at hb
    exact hb.elim (fun h => h1 h.symm) fun h => h2 h.symm

/-- What `recv` stores of a part, `send` writes back, unless the part itself looks like
an encoded identity. -/
theorem sendPart_recvPart {data : Frame} (h : ¬ (data.length = 33 ∧ data.head? = some 64)) :
    sendPart (recvPart data) = data := by
  unfold recvPart
  split_ifs with hu
  · have hlen : (encodeUuid data).length = 33 := by rw [length_encodeUuid, hu.1]
    rw [sendPart, if_pos ⟨hlen, rfl⟩, decodeUuid_encodeUuid hu.2]
  · rw [sendPart, if_neg h]

end IceBridge.Router
