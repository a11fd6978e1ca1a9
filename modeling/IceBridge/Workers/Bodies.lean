import IceBridge.Lib.Reads
import IceBridge.Workers.Forward

/-! What the handlers of the workers read of a request: `process` of the world map
(`_world_map.cpp`) and of the small map (`_small_map.cpp`), and `GameHandler::handleMsg`
(`GameHandler.cpp`). They all read the player and the id at fixed places and unpack the rest. -/

namespace IceBridge.Workers
open Reads Router

/-! ## The handlers -/

def worldMapNearByRequestId : Int16 := 1033
def worldChannelMsgRequestId : Int16 := 1046
def soldierInfoRequestId : Int16 := 1053

structure ServiceTable where
  entries : ℕ
  /-- the highest index that `dispatch_func` lets pass -/
  highest : Int
  /-- the index and the dispatch of an id that comes without an object -/
  bare : Int16 → Option (Int × (Int32 → Dispatched))
  /-- the index of any other id -/
  index : Int16 → Int

namespace ServiceTable
variable (table : ServiceTable)

def dispatchFunc (index : Int) : Traced Unit :=
  if index < 0 ∨ table.highest < index then pure ()
  else Traced.note (.entry index table.entries)

def process (unpack : List UInt8 → Bool) (data : Buffer) (size : Int) : Traced Dispatched := do
  let playerUuid := (← data.unsignedInt 2).toUInt32.toInt32
  let messageId := (← data.unsignedShort 6).toUInt16.toInt16
  match table.bare messageId with
  | some (index, dispatched) =>
    table.dispatchFunc index
    pure (dispatched playerUuid)
  | none =>
    let length ← storeLength (data.size - 8) (toSizeT (size - 8))
    let payload ← data.read 8 length.toNat
    let _ ← if unpack payload then table.dispatchFunc (table.index messageId) else pure ()
    pure (.request playerUuid messageId payload)

end ServiceTable

/-- `handler_in_worker`, with the thread that takes up what it posts; the memory around the copy
is any. -/
def handlerInWorker (process : Buffer → Int → Traced Dispatched) (data : Buffer) :
    Traced Dispatched := do
  let _ ← data.read 0 data.size
  process data (toInt data.size)

namespace WorldMap

def maxServiceNum : ℕ := 13

def serviceTable : ServiceTable where
  entries := maxServiceNum
  -- only `index > MAX_SERVICE_NUM` is refused
  highest := maxServiceNum
  bare messageId :=
    if messageId = logoutRequestId.toInt16 then some (maxServiceNum - 1, .logout) else none
  index messageId := messageId.toInt - worldMapNearByRequestId.toInt

def process (unpack : List UInt8 → Bool) (data : Buffer) (size : Int) : Traced Dispatched :=
  serviceTable.process unpack data size

end WorldMap

namespace SmallMap

def maxServiceNum : ℕ := 10
def servicesLen : ℕ := 4

def serviceTable : ServiceTable where
  entries := maxServiceNum
  highest := servicesLen
  bare messageId :=
    if messageId = loginRequestId.toInt16 then some (0, .login)
    else if messageId = logoutRequestId.toInt16 then some (1, .logout)
    else none
  index messageId := messageId.toInt - soldierInfoRequestId.toInt + 2

def process (unpack : List UInt8 → Bool) (data : Buffer) (size : Int) : Traced Dispatched :=
  serviceTable.process unpack data size

end SmallMap

namespace GameHandler

def handleMsg (msg : Buffer) : Traced Dispatched := do
  let uid := (← msg.unsignedInt 2).toUInt32.toInt32
  let msgID := (← msg.unsignedShort 6).toUInt16.toInt16
  if msgID = loginRequestId.toInt16 then pure (.login uid)
  else if msgID = logoutRequestId.toInt16 then pure (.logout uid)
  else
    let length ← storeLength (msg.size - 8) (toSizeT (msg.size - 8))
    let payload ← msg.read 8 length.toNat
    pure (.request uid msgID payload)

end GameHandler

/-! ## What they read -/

section
variable {data : Buffer} {unpack : List UInt8 → Bool} {table : ServiceTable}

def messageIdOf (data : List UInt8) : Int16 := shortAt (data.drop 6)

theorem messageId_eq (hsize : 8 ≤ data.size) :
    (Bytes.value (data.slice 6 2)).toUInt16.toInt16 = messageIdOf data.bytes := by
  have hslice : data.slice 6 2 = (data.bytes.drop 6).take 2 := data.slice_of_le hsize
  rw [hslice]
  rfl

def ServiceTable.Keeps (table : ServiceTable) (index : Int) : Prop :=
  0 ≤ index → index ≤ table.highest → index < table.entries

theorem safe_dispatchFunc (index : Int) {size : ℕ} :
    (table.dispatchFunc index).Safe size ↔ table.Keeps index := by
  unfold ServiceTable.dispatchFunc ServiceTable.Keeps
  split_ifs with h
  · rw [Traced.safe_pure, true_iff]
    omega
  · rw [Traced.safe_note, Access.Sound]
    omega

theorem toSizeT_sub_iff {size : Int} : (toSizeT (size - 8) = (data.size - 8 : Int) ∧
    0 ≤ (data.size - 8 : Int)) ↔ 8 ≤ data.size ∧ toSizeT size = data.size := by
  have hfits : data.size < 2 ^ 63 := data.fits
  unfold toSizeT
  omega

theorem slice_payload {size : Int} (hsize : 8 ≤ data.size) (hheld : toSizeT size = data.size) :
    data.slice 8 (toSizeT (size - 8) : Int).toNat = data.bytes.drop 8 := by
  have hlength : (toSizeT (size - 8) : Int) = data.size - 8 :=
    (toSizeT_sub_iff.mpr ⟨hsize, hheld⟩).1
  have hcount : (data.size - 8 : Int).toNat = data.size - 8 := by omega
  have hin : 8 + (data.size - 8) ≤ data.size := by omega
  have hall : (data.bytes.drop 8).length ≤ data.size - 8 := List.length_drop.le
  rw [hlength, hcount]
  exact (data.slice_of_le hin).trans (List.take_of_length_le hall)

theorem safe_payload {size : Int} {f : List UInt8 → Traced Dispatched} :
    (do let length ← storeLength (data.size - 8) (toSizeT (size - 8))
        let payload ← data.read 8 length.toNat
        f payload).Safe data.size ↔
      (8 ≤ data.size ∧ toSizeT size = data.size) ∧ (f (data.bytes.drop 8)).Safe data.size := by
  rw [Traced.safe_bind, safe_storeLength, value_storeLength, toSizeT_sub_iff, Traced.safe_bind,
    Buffer.safe_read, Buffer.value_read]
  refine and_congr_right fun h => ?_
  have hlength : (toSizeT (size - 8) : Int) = data.size - 8 := (toSizeT_sub_iff.mpr h).1
  rw [slice_payload h.1 h.2, hlength]
  exact and_iff_right (by omega)

theorem safe_process {size : Int}
    (hbare : ∀ id index dispatched, table.bare id = some (index, dispatched) → table.Keeps index) :
    (table.process unpack data size).Safe data.size ↔ 8 ≤ data.size ∧
      (table.bare (messageIdOf data.bytes) = none → toSizeT size = data.size ∧
        (unpack (data.bytes.drop 8) = true →
          table.Keeps (table.index (messageIdOf data.bytes)))) := by
  unfold ServiceTable.process
  rw [Traced.safe_bind, Buffer.safe_unsignedInt, Traced.safe_bind, Buffer.safe_unsignedShort,
    Buffer.value_unsignedShort]
  by_cases hsize : 8 ≤ data.size
  · rw [messageId_eq hsize, and_iff_right (by omega), and_iff_right (by omega),
      and_iff_right hsize]
    dsimp only
    cases hb : table.bare (messageIdOf data.bytes) with
    | some entry =>
      obtain ⟨index, dispatched⟩ := entry
      rw [Traced.safe_bind, safe_dispatchFunc, Traced.safe_pure]
      exact iff_of_true ⟨hbare _ index dispatched hb, trivial⟩ nofun
    | none =>
      rw [safe_payload, and_iff_right hsize]
      rw [imp_iff_right rfl]
      refine and_congr_right fun _ => ?_
      split_ifs with hunpack
      · rw [Traced.safe_bind, safe_dispatchFunc, Traced.safe_pure, and_true]
        exact (imp_iff_right hunpack).symm
      · exact iff_of_true ((Traced.safe_pure _).mpr trivial) fun h => absurd h hunpack
  · exact iff_of_false (by omega) (by omega)

theorem value_process {size : Int} (hsize : 8 ≤ data.size)
    (hheld : table.bare (messageIdOf data.bytes) = none → toSizeT size = data.size) :
    (table.process unpack data size).value =
      let playerUuid := (Bytes.value ((data.bytes.drop 2).take 4)).toUInt32.toInt32
      match table.bare (messageIdOf data.bytes) with
      | some (_, dispatched) => dispatched playerUuid
      | none => .request playerUuid (messageIdOf data.bytes) (data.bytes.drop 8) := by
  have huuid : data.slice 2 4 = (data.bytes.drop 2).take 4 :=
    @Buffer.slice_of_le data 2 4 (Nat.le_trans (by decide) hsize)
  unfold ServiceTable.process
  rw [Traced.value_bind, Buffer.value_unsignedInt, huuid, Traced.value_bind,
    Buffer.value_unsignedShort, messageId_eq hsize]
  dsimp only
  cases hb : table.bare (messageIdOf data.bytes) with
  | some entry => rfl
  | none =>
    rw [Traced.value_bind, value_storeLength, Traced.value_bind, Buffer.value_read,
      slice_payload hsize (hheld hb)]
    split_ifs
    · rfl
    · rfl

theorem toSizeT_toInt_iff : toSizeT (toInt data.size) = data.size ↔ data.size < 2 ^ 31 := by
  have hfits : data.size < 2 ^ 63 := data.fits
  have hrange : -2 ^ 31 ≤ toInt data.size ∧ toInt data.size < 2 ^ 31 := by
    unfold toInt
    rw [Int.bmod_def]
    split_ifs <;> omega
  have hself := @toInt_eq_self_iff data.size
  constructor
  · intro h
    have hsame : toInt data.size = data.size := by
      unfold toSizeT at h
      omega
    have hlt := (hself.mp hsame).2
    omega
  · intro h
    rw [hself.mpr (by omega)]
    unfold toSizeT
    omega

theorem safe_handlerInWorker {process : Buffer → Int → Traced Dispatched} :
    (handlerInWorker process data).Safe data.size ↔
      (process data (toInt data.size)).Safe data.size := by
  rw [handlerInWorker, Traced.safe_bind, Buffer.safe_read]
  exact and_iff_right (by omega)

end

/-! ## The three workers -/

inductive Handler
  | worldMap
  | smallMap
  | gameHandler

namespace Handler

def handle (unpack : List UInt8 → Bool) (data : Buffer) : Handler → Traced Dispatched
  | worldMap => handlerInWorker (WorldMap.process unpack) data
  | smallMap => handlerInWorker (SmallMap.process unpack) data
  | gameHandler => GameHandler.handleMsg data

def Admits (unpack : List UInt8 → Bool) (data : Buffer) : Handler → Prop
  | worldMap => 8 ≤ data.size ∧ (messageIdOf data.bytes ≠ logoutRequestId.toInt16 →
      data.size < 2 ^ 31 ∧
        ¬ (messageIdOf data.bytes = worldChannelMsgRequestId ∧ unpack (data.bytes.drop 8) = true))
  | smallMap => 8 ≤ data.size ∧ (messageIdOf data.bytes ≠ loginRequestId.toInt16 →
      messageIdOf data.bytes ≠ logoutRequestId.toInt16 → data.size < 2 ^ 31)
  | gameHandler => 8 ≤ data.size

variable {unpack : List UInt8 → Bool} {data : Buffer}

theorem keeps_worldMap (id : Int16) :
    WorldMap.serviceTable.Keeps (WorldMap.serviceTable.index id) ↔
      id ≠ worldChannelMsgRequestId := by
  have hid : id = worldChannelMsgRequestId ↔ id.toInt = 1046 := Int16.toInt_inj.symm
  have hkeeps : WorldMap.serviceTable.Keeps (WorldMap.serviceTable.index id) ↔
      (0 ≤ id.toInt - 1033 → id.toInt - 1033 ≤ 13 → id.toInt - 1033 < 13) := Iff.rfl
  rw [hkeeps, ne_eq, hid]
  omega

theorem keeps_smallMap (index : Int) : SmallMap.serviceTable.Keeps index := by
  intro _ hhighest
  have hfour : index ≤ 4 := hhighest
  show index < 10
  omega

theorem safe_worldMap :
    (worldMap.handle unpack data).Safe data.size ↔ worldMap.Admits unpack data := by
  have hbare : ∀ id index dispatched,
      WorldMap.serviceTable.bare id = some (index, dispatched) →
        WorldMap.serviceTable.Keeps index := by
    intro id index dispatched h
    obtain ⟨-, h⟩ := Option.ite_none_right_eq_some.mp h
    obtain ⟨rfl, -⟩ := Prod.mk.inj (Option.some.inj h)
    intro _ _
    decide
  have hnone : ∀ id, WorldMap.serviceTable.bare id = none ↔ id ≠ logoutRequestId.toInt16 := by
    intro id
    show (if id = logoutRequestId.toInt16 then _ else none) = none ↔ _
    split_ifs with h
    · exact iff_of_false not_false fun hne => hne h
    · exact iff_of_true rfl h
  unfold handle Admits
  rw [safe_handlerInWorker, WorldMap.process, safe_process hbare, toSizeT_toInt_iff,
    keeps_worldMap, hnone, not_and, imp_not_comm]

theorem bare_smallMap_eq_none_iff {id : Int16} : SmallMap.serviceTable.bare id = none ↔
    id ≠ loginRequestId.toInt16 ∧ id ≠ logoutRequestId.toInt16 := by
  show (if id = loginRequestId.toInt16 then _
    else if id = logoutRequestId.toInt16 then _ else none) = none ↔ _
  split_ifs with h h'
  · exact iff_of_false not_false fun hne => hne.1 h
  · exact iff_of_false not_false fun hne => hne.2 h'
  · exact iff_of_true rfl ⟨h, h'⟩

theorem safe_smallMap :
    (smallMap.handle unpack data).Safe data.size ↔ smallMap.Admits unpack data := by
  have hkeeps : ∀ P : Prop, (P → SmallMap.serviceTable.Keeps
      (SmallMap.serviceTable.index (messageIdOf data.bytes))) ↔ True :=
    fun P => iff_of_true (fun _ => keeps_smallMap _) trivial
  unfold handle Admits
  rw [safe_handlerInWorker, SmallMap.process, safe_process fun _ index _ _ => keeps_smallMap index,
    toSizeT_toInt_iff, hkeeps, and_true, bare_smallMap_eq_none_iff, and_imp]

theorem safe_gameHandler :
    (gameHandler.handle unpack data).Safe data.size ↔ gameHandler.Admits unpack data := by
  have hfits : toSizeT data.size = data.size := by
    have hlt : data.size < 2 ^ 63 := data.fits
    exact Int.natCast_inj.mp (toSizeT_eq_self_iff.mpr (by omega))
  unfold handle Admits GameHandler.handleMsg
  rw [Traced.safe_bind, Buffer.safe_unsignedInt, Traced.safe_bind, Buffer.safe_unsignedShort]
  by_cases hsize : 8 ≤ data.size
  · refine iff_of_true ⟨by omega, by omega, ?_⟩ hsize
    dsimp only
    split_ifs
    · exact (Traced.safe_pure _).mpr trivial
    · exact (Traced.safe_pure _).mpr trivial
    · exact safe_payload.mpr ⟨⟨hsize, hfits⟩, (Traced.safe_pure _).mpr trivial⟩
  · exact iff_of_false (by omega) hsize

theorem value_smallMap (h : smallMap.Admits unpack data) :
    process data.bytes = some (smallMap.handle unpack data).value := by
  obtain ⟨hsize, hlong⟩ := h
  have hlen : ¬ data.bytes.length < 8 := not_lt.mpr hsize
  have hheld : SmallMap.serviceTable.bare (messageIdOf data.bytes) = none →
      toSizeT (toInt data.size) = data.size := by
    intro hnone
    obtain ⟨hlogin, hlogout⟩ := bare_smallMap_eq_none_iff.mp hnone
    exact toSizeT_toInt_iff.mpr (hlong hlogin hlogout)
  unfold handle handlerInWorker SmallMap.process process
  rw [if_neg hlen, Traced.value_bind, value_process hsize hheld]
  show (if messageIdOf data.bytes = loginRequestId.toInt16 then _
    else if messageIdOf data.bytes = logoutRequestId.toInt16 then _ else _) = _
  unfold SmallMap.serviceTable
  dsimp only
  split_ifs
  · rfl
  · rfl
  · rfl

/-- A handler keeps to a body of at least eight bytes, of a size that the variables hold, unless
the index is the one after the world map's table. -/
theorem handle_safe_iff (handler : Handler) (unpack : List UInt8 → Bool) (data : Buffer) :
    (handler.handle unpack data).Safe data.size ↔ handler.Admits unpack data :=
  match handler with
  | worldMap => safe_worldMap
  | smallMap => safe_smallMap
  | gameHandler => safe_gameHandler

/-- The body that the gateway sends at its start, and one for the index 13. -/
theorem not_safe_initData :
    ¬ (worldMap.handle (fun _ => true) ⟨ascii ['a', 'a'], fun _ => 0, by decide⟩).Safe 2 ∧
    ¬ (worldMap.handle (fun _ => true)
        ⟨[6, 0, 2, 1, 0, 0, 22, 4, 144], fun _ => 0, by decide⟩).Safe 9 := by
  constructor
  · exact fun h => absurd (safe_worldMap.mp h).1 (by decide)
  · exact fun h => ((safe_worldMap.mp h).2 (by decide)).2 ⟨by decide, rfl⟩

end Handler

end IceBridge.Workers
