import IceBridge.Lib.Reads
import IceBridge.Workers.Sender

/-! What `handler_in_gateway` (`__server.cpp`) reads of a reply. The count of players is signed and
the size is not, so no size is negative: a negative count moves the start of the message before the
body, and the size grows by as much. -/

namespace IceBridge.Workers
open Reads

def sendNotedFrom (registered : UInt32 → Bool) (data : Buffer) (message : List UInt8) (i : ℕ) :
    (players : ℕ) → Traced Calls
  | 0 => pure []
  | players + 1 => do
    let uuid := (← data.unsignedInt (2 + i * 4)).toUInt32
    let calls ← sendNotedFrom registered data message (i + 1) players
    pure (if registered uuid then (uuid, message) :: calls else calls)

def sendReplyNoted (registered : UInt32 → Bool) (data : Buffer) (usercount : Int) :
    Traced (Option Calls) :=
  let offset := toInt (toSizeT (2 + 4 * toSizeT usercount))
  let size := toSizeT (data.size - offset)
  -- the first is never so, the size is unsigned
  if size < 0 ∨ 10240000 < size then pure none
  else do
    let message ← data.read offset size
    let calls ← sendNotedFrom registered data message 0 usercount.toNat
    pure (some calls)

/-- `handler_in_gateway` on a reply in memory, with its calls of `Send`; `none` when it drops the
reply. -/
def handlerInGatewayNoted (registered : UInt32 → Bool) (data : Buffer) :
    Traced (Option Calls) := do
  let usercount := (← data.unsignedShort 0).toUInt16.toInt16.toInt
  sendReplyNoted registered data usercount

def KeepsToBody (registered : UInt32 → Bool) (data : Buffer) : Prop :=
  let handled := handlerInGatewayNoted registered data
  (handled.value = none ∨ handled.Safe data.size) ∧
    ∀ calls, handled.value = some calls → ∀ call ∈ calls, call.2 <:+ data.bytes

/-! ## The calls -/

section
variable {registered : UInt32 → Bool} {data : Buffer} {message : List UInt8}

theorem safe_sendNotedFrom {i players : ℕ} (h : 2 + 4 * (i + players) ≤ data.size) :
    (sendNotedFrom registered data message i players).Safe data.size := by
  induction players generalizing i with
  | zero => exact (Traced.safe_pure _).mpr trivial
  | succ players ih =>
    have hrest := @ih (i + 1) (by omega)
    rw [sendNotedFrom, Traced.safe_bind, Buffer.safe_unsignedInt, Traced.safe_bind]
    exact ⟨by omega, hrest, (Traced.safe_pure _).mpr trivial⟩

theorem value_sendNotedFrom {i players : ℕ} (h : 2 + 4 * (i + players) ≤ data.size) :
    (sendNotedFrom registered data message i players).value =
      ((Gateway.Sessions.readUuids players (data.bytes.drop (2 + 4 * i))).filter registered).map
        fun uuid => (uuid, message) := by
  induction players generalizing i with
  | zero => rfl
  | succ players ih =>
    have hslice : data.slice (2 + i * 4) 4 = (data.bytes.drop (2 + 4 * i)).take 4 := by
      have hstart : (2 + i * 4 : Int) = (2 + 4 * i : ℕ) := by omega
      rw [hstart]
      exact data.slice_of_le (by omega)
    have hnext : data.bytes.drop (2 + 4 * (i + 1)) = (data.bytes.drop (2 + 4 * i)).drop 4 := by
      rw [List.drop_drop, mul_add, add_assoc]
    rw [sendNotedFrom, Traced.value_bind, Buffer.value_unsignedInt, hslice, Traced.value_bind,
      ih (by omega), hnext, Traced.value_pure, Gateway.Sessions.readUuids]
    split_ifs with hreg
    · rw [List.filter_cons_of_pos hreg, List.map_cons]
    · rw [List.filter_cons_of_neg hreg]

end

/-! ## Where the message starts -/

section
variable {registered : UInt32 → Bool} {data : Buffer}

def unsignedCount (data : Buffer) : ℕ := Bytes.value (data.bytes.take 2)

theorem unsignedCount_lt (data : Buffer) : unsignedCount data < 65536 := by
  have hlen : (data.bytes.take 2).length ≤ 2 := List.length_take_le _ _
  calc unsignedCount data < 256 ^ (data.bytes.take 2).length := Bytes.value_lt _
    _ ≤ 256 ^ 2 := Nat.pow_le_pow_right (Nat.succ_pos 255) hlen
    _ = 65536 := by norm_num

def usercount (data : Buffer) : Int := (unsignedCount data : Int).bmod 65536

theorem bmod_of_lt {count : ℕ} (h : count < 32768) : (count : Int).bmod 65536 = count := by
  rw [Int.bmod_def]
  split_ifs <;> omega

theorem bmod_of_le {count : ℕ} (h : ¬ count < 32768) (hlt : count < 65536) :
    (count : Int).bmod 65536 = count - 65536 := by
  rw [Int.bmod_def]
  split_ifs <;> omega

theorem offset_eq {count : Int} (h : -32768 ≤ count ∧ count < 32768) :
    toInt (toSizeT (2 + 4 * toSizeT count)) = 2 + 4 * count := by
  unfold toInt toSizeT
  rw [Int.bmod_def]
  split_ifs <;> omega

theorem handlerInGatewayNoted_eq (hsize : 2 ≤ data.size) :
    handlerInGatewayNoted registered data =
      data.unsignedShort 0 >>= fun _ => sendReplyNoted registered data (usercount data) := by
  have hslice : data.slice 0 2 = data.bytes.take 2 :=
    data.slice_of_le (by rwa [Nat.zero_add])
  have hcount : (Bytes.value (data.slice 0 2)).toUInt16.toInt16.toInt = usercount data := by
    rw [hslice]
    exact Int16.toInt_ofNat'
  rw [← hcount]
  rfl

theorem sendReplyNoted_eq {count : Int} (h : -32768 ≤ count ∧ count < 32768) :
    sendReplyNoted registered data count =
      if data.size < 2 + 4 * count ∨ 10240000 < data.size - (2 + 4 * count) then pure none
      else (do
        let message ← data.read (2 + 4 * count) (data.size - (2 + 4 * count)).toNat
        let calls ← sendNotedFrom registered data message 0 count.toNat
        pure (some calls)) := by
  have hfits : data.size < 2 ^ 63 := data.fits
  unfold sendReplyNoted
  dsimp only
  rw [offset_eq h]
  by_cases hdrop : data.size < 2 + 4 * count ∨ 10240000 < data.size - (2 + 4 * count)
  · have hlarge : 10240000 < toSizeT (data.size - (2 + 4 * count)) := by
      unfold toSizeT
      omega
    rw [if_pos hdrop, if_pos (Or.inr hlarge)]
  · have hexact : toSizeT (data.size - (2 + 4 * count)) =
        (data.size - (2 + 4 * count)).toNat := by
      unfold toSizeT
      omega
    rw [if_neg hdrop, hexact, if_neg (by omega)]

theorem slice_message {count : ℕ} (hin : 2 + 4 * count ≤ data.size) :
    data.slice (2 + 4 * count) (data.size - (2 + 4 * count) : Int).toNat =
      data.bytes.drop (2 + 4 * count) := by
  have hstart : (2 + 4 * count : Int) = (2 + 4 * count : ℕ) := by omega
  have hlength : (data.size - (2 + 4 * count : ℕ) : Int).toNat = data.size - (2 + 4 * count) := by
    omega
  have hall : (data.bytes.drop (2 + 4 * count)).length ≤ data.size - (2 + 4 * count) :=
    List.length_drop.le
  rw [hstart, hlength, data.slice_of_le (by omega), List.take_of_length_le hall]

theorem safe_sendReplyNoted {count : ℕ} (hcount : count < 32768) :
    (sendReplyNoted registered data count).Safe data.size ∧
      ∀ calls, (sendReplyNoted registered data count).value = some calls →
        ∀ call ∈ calls, call.2 <:+ data.bytes := by
  rw [sendReplyNoted_eq (by omega)]
  split_ifs with hdrop
  · exact ⟨(Traced.safe_pure _).mpr trivial, nofun⟩
  have hin : 2 + 4 * count ≤ data.size := by omega
  constructor
  · rw [Traced.safe_bind, Buffer.safe_read, Traced.safe_bind, Int.toNat_natCast]
    exact ⟨by omega, safe_sendNotedFrom (by omega), (Traced.safe_pure _).mpr trivial⟩
  · intro calls hcalls call hcall
    rw [Traced.value_bind, Traced.value_bind, Buffer.value_read, slice_message hin,
      Int.toNat_natCast, value_sendNotedFrom (by omega)] at hcalls
    obtain rfl := Option.some.inj hcalls
    obtain ⟨uuid, -, rfl⟩ := List.mem_map.mp hcall
    exact List.drop_suffix _ _

theorem calls_handlerInGateway (hsize : 2 ≤ data.size) (hsign : unsignedCount data < 32768)
    (g : Gateway.Sessions) : (handlerInGateway registered data.bytes g).map Prod.snd =
      some ((sendReplyNoted registered data (unsignedCount data)).value.getD []) := by
  have hcount : Bytes.value (data.bytes.take 2) = unsignedCount data := rfl
  have hlen : data.bytes.length = data.size := rfl
  unfold handlerInGateway
  dsimp only
  rw [hcount, hlen]
  generalize unsignedCount data = count at hsign
  rw [if_neg (by omega), sendReplyNoted_eq (by omega)]
  by_cases hdrop : data.size < 2 + 4 * count ∨ 10240000 < data.size - (2 + 4 * count)
  · rw [if_pos hdrop, if_pos (by omega)]
    rfl
  · rw [if_neg hdrop, if_neg (by omega)]
    obtain ⟨heap, m, hwrite, hbytes, -⟩ :=
      Gateway.NetMessage.write_fresh g.heap (data.bytes.drop (2 + 4 * count))
    rw [hwrite]
    dsimp only
    rw [foldl_sendNoted, hbytes, Traced.value_bind, Traced.value_bind, Buffer.value_read,
      slice_message (by omega), Int.toNat_natCast, value_sendNotedFrom (by omega)]
    rfl

theorem not_safe_sendReplyNoted {count : Int} (hneg : -32768 ≤ count ∧ count < 0)
    (hsmall : data.size - (2 + 4 * count) ≤ 10240000) :
    (sendReplyNoted registered data count).value ≠ none ∧
      ¬ (sendReplyNoted registered data count).Safe data.size := by
  rw [sendReplyNoted_eq (by omega), if_neg (by omega)]
  refine ⟨Option.some_ne_none _, fun h => ?_⟩
  rw [Traced.safe_bind, Buffer.safe_read] at h
  omega

end

def SentInside (registered : UInt32 → Bool) (data : Buffer) (count : Int) : Prop :=
  let sent := sendReplyNoted registered data count
  (sent.value = none ∨ sent.Safe data.size) ∧
    ∀ calls, sent.value = some calls → ∀ call ∈ calls, call.2 <:+ data.bytes

theorem keepsToBody_iff_sentInside {registered : UInt32 → Bool} {data : Buffer}
    (hsize : 2 ≤ data.size) :
    KeepsToBody registered data ↔ SentInside registered data (usercount data) := by
  have hfirst : (data.unsignedShort 0).Safe data.size :=
    (data.safe_unsignedShort 0).mpr (by omega)
  unfold KeepsToBody SentInside
  dsimp only
  rw [handlerInGatewayNoted_eq hsize, Traced.value_seq, Traced.safe_seq, and_iff_right hfirst]

theorem sentInside_iff (registered : UInt32 → Bool) (data : Buffer) {count : ℕ}
    (hlt : count < 65536) : SentInside registered data ((count : Int).bmod 65536) ↔
      count < 32768 ∨ 10240002 < data.size + 4 * (65536 - count) := by
  unfold SentInside
  by_cases hsign : count < 32768
  · obtain ⟨hsafe, hsuffix⟩ := @safe_sendReplyNoted registered data count hsign
    rw [bmod_of_lt hsign]
    exact iff_of_true ⟨Or.inr hsafe, hsuffix⟩ (Or.inl hsign)
  · rw [bmod_of_le hsign hlt]
    by_cases hlarge : 10240000 < data.size - (2 + 4 * (count - 65536 : Int))
    · rw [sendReplyNoted_eq (by omega), if_pos (Or.inr hlarge)]
      exact iff_of_true ⟨Or.inl rfl, nofun⟩ (by omega)
    · obtain ⟨hsome, hread⟩ := @not_safe_sendReplyNoted registered data (count - 65536)
        (by omega) (not_lt.mp hlarge)
      exact iff_of_false (fun h => h.1.elim hsome hread) (by omega)

/-- The handler keeps to the body of a reply exactly when the count is not negative, or so far below
zero that the size it takes for the message is too large. -/
theorem keepsToBody_iff (registered : UInt32 → Bool) {data : Buffer} (hsize : 2 ≤ data.size) :
    KeepsToBody registered data ↔ unsignedCount data < 32768 ∨
      10240002 < data.size + 4 * (65536 - unsignedCount data) :=
  (keepsToBody_iff_sentInside hsize).trans (sentInside_iff registered data (unsignedCount_lt data))

theorem keepsToBody_two_players : KeepsToBody (fun uuid => uuid = 9)
    ⟨[2, 0, 7, 0, 0, 0, 9, 0, 0, 0, 1, 0, 5], fun _ => 0, by decide⟩ :=
  (keepsToBody_iff (fun uuid => uuid = 9) (by decide)).mpr (Or.inl (by decide))

/-- A count of -1 starts the message two bytes before the body. -/
theorem not_keepsToBody_negative :
    ¬ KeepsToBody (fun _ => true) ⟨[255, 255, 1, 0, 5], fun _ => 0, by decide⟩ := by
  have hcount : usercount ⟨[255, 255, 1, 0, 5], fun _ => 0, by decide⟩ = -1 := by decide
  obtain ⟨hsome, hread⟩ := @not_safe_sendReplyNoted (fun _ => true)
    ⟨[255, 255, 1, 0, 5], fun _ => 0, by decide⟩ (-1) (by decide) (by decide)
  rw [keepsToBody_iff_sentInside (by decide), hcount]
  exact fun h => h.1.elim hsome hread

end IceBridge.Workers
