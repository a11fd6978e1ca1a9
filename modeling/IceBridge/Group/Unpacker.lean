import IceBridge.Lib.Bytes
import IceBridge.Lib.Run
import Mathlib.Data.Int.Basic

/-! The decoder of the group worker. One `msgpack.Unpacker` serves the requests of all players:
what a request leaves in its buffer comes before the bytes of the next one. -/

namespace IceBridge.Group

structure Format (Obj : Type*) where
  first : List UInt8 → Option (Obj × List UInt8)
  consumes : ∀ b o rest, first b = some (o, rest) → rest.length < b.length

namespace Format
variable {Obj : Type*} (F : Format Obj)

theorem first_nil : F.first [] = none := by
  cases h : F.first [] with
  | none => rfl
  | some found => exact absurd (F.consumes [] found.1 found.2 h) (Nat.not_lt_zero _)

def short (n : ℕ) : Int := if n < 2 ^ 15 then n else n - 2 ^ 16

/-- `GroupManager.unpack`, of an unpacker with `buffer`: the buffer it leaves, and the uid, the
request id and the message. It raises when the eight bytes of the header are not there, and when
there is no complete object. -/
def unpack (buffer msgData : List UInt8) : List UInt8 × Option (ℕ × Int × Obj) :=
  if msgData.length < 8 then (buffer, none)
  else
    let uid := Bytes.value ((msgData.drop 2).take 4)
    let requestId := short (Bytes.value ((msgData.drop 6).take 2))
    let fed := buffer ++ msgData.drop 8
    match F.first fed with
    | none => (fed, none)
    | some (msg, rest) => (rest, some (uid, requestId, msg))

def step (buffer msgData : List UInt8) : Option (List UInt8) := some (F.unpack buffer msgData).1

def decoded (earlier : List (List UInt8)) (msgData : List UInt8) : Option (ℕ × Int × Obj) :=
  (Run.exec F.step [] earlier).bind fun buffer => (F.unpack buffer msgData).2

def Whole (msgData : List UInt8) : Prop :=
  8 ≤ msgData.length → msgData.drop 8 = [] ∨ ∃ msg, F.first (msgData.drop 8) = some (msg, [])

theorem unpack_nil_iff (msgData : List UInt8) :
    (F.unpack [] msgData).1 = [] ↔ F.Whole msgData := by
  unfold unpack Whole
  by_cases hlen : msgData.length < 8
  · rw [if_pos hlen]
    exact iff_of_true rfl fun hle => absurd hlen (not_lt.mpr hle)
  · rw [if_neg hlen, List.nil_append]
    have hle : 8 ≤ msgData.length := not_lt.mp hlen
    cases hfirst : F.first (msgData.drop 8) with
    | none => simp [hfirst, hle]
    | some found =>
      obtain ⟨msg, rest⟩ := found
      have hne : msgData.drop 8 ≠ [] := by
        intro hnil
        rw [hnil, F.first_nil] at hfirst
        exact absurd hfirst (by simp)
      simp only [hfirst, hle, hne, forall_const, false_or]
      simp

/-- The buffer is empty before and after each request exactly when each is whole. -/
theorem always_empty_iff (ms : List (List UInt8)) :
    Run.Always F.step (fun buffer => buffer = []) [] ms ↔ ∀ m ∈ ms, F.Whole m := by
  induction ms with
  | nil => simp [Run.Always]
  | cons m ms ih =>
    rw [List.forall_mem_cons, ← ih, ← F.unpack_nil_iff]
    constructor
    · rintro ⟨-, htail⟩
      have hrest := htail _ rfl
      have hempty : (F.unpack [] m).1 = [] := hrest.start
      rw [hempty] at hrest
      exact ⟨hempty, hrest⟩
    · rintro ⟨hempty, hrest⟩
      refine ⟨rfl, fun b hb => ?_⟩
      obtain rfl := Option.some.inj hb
      rw [hempty]
      exact hrest

theorem decoded_of_whole {earlier : List (List UInt8)} (h : ∀ m ∈ earlier, F.Whole m)
    (msgData : List UInt8) : F.decoded earlier msgData = (F.unpack [] msgData).2 := by
  have halways := (F.always_empty_iff earlier).mpr h
  unfold decoded
  cases hrun : Run.exec F.step [] earlier with
  | none =>
    have hsome : ∀ b, (Run.exec F.step b earlier).isSome := by
      clear hrun halways h
      induction earlier with
      | nil => exact fun _ => rfl
      | cons m ms ih => exact fun b => ih _
    exact absurd (hrun ▸ hsome []) (by simp)
  | some buffer =>
    have hempty := (Run.always_iff_prefixes _ _).mp halways earlier (List.prefix_refl _) buffer hrun
    rw [Option.bind_some, hempty]

/-- Two runs, whatever their earlier requests are, take a request for the same as long as all of
these are whole, which is when they leave nothing behind. -/
theorem decoded_eq (earlier earlier' : List (List UInt8)) :
    (Run.Always F.step (fun buffer => buffer = []) [] earlier ↔ ∀ m ∈ earlier, F.Whole m) ∧
    ((∀ m ∈ earlier, F.Whole m) → (∀ m ∈ earlier', F.Whole m) →
      ∀ msgData, F.decoded earlier msgData = F.decoded earlier' msgData) :=
  ⟨F.always_empty_iff earlier, fun h h' msgData =>
    (F.decoded_of_whole h msgData).trans (F.decoded_of_whole h' msgData).symm⟩

def oneByte : Format (Option Int ⊕ Bool) where
  first
    | [] => none
    | b :: rest =>
      if b < 0x80 then some (.inl (some b.toNat), rest)
      else if 0xe0 ≤ b then some (.inl (some (b.toNat - 256)), rest)
      else if b = 0xc0 then some (.inl none, rest)
      else if b = 0xc2 then some (.inr false, rest)
      else if b = 0xc3 then some (.inr true, rest)
      else none
  consumes b o rest h := by
    cases b with
    | nil => exact absurd h (by simp)
    | cons b bs =>
      have hrest : bs = rest := by
        simp only at h
        split_ifs at h <;> exact (Prod.mk.inj (Option.some.inj h)).2
      rw [← hrest]
      exact Nat.lt_succ_self _

theorem decoded_eq_oneByte :
    (∀ m ∈ [[1, 0, 5, 0, 0, 0, 63, 0, 7]], oneByte.Whole m) ∧
      (∀ m ∈ ([] : List (List UInt8)), oneByte.Whole m) ∧
      ∀ msgData, oneByte.decoded [[1, 0, 5, 0, 0, 0, 63, 0, 7]] msgData =
        oneByte.decoded [] msgData := by
  have hwhole : ∀ m ∈ [[1, 0, 5, 0, 0, 0, 63, 0, 7]], oneByte.Whole m := by
    intro m hm
    obtain rfl := List.mem_singleton.mp hm
    exact fun _ => .inr ⟨.inl (some 7), by decide⟩
  have hnone : ∀ m ∈ ([] : List (List UInt8)), oneByte.Whole m :=
    fun m hm => absurd hm List.not_mem_nil
  exact ⟨hwhole, hnone, (oneByte.decoded_eq _ []).2 hwhole hnone⟩

/-- A byte too many in the first request is the message of the second. -/
theorem decoded_ne_trailing :
    ¬ ∀ (earlier earlier' : List (List UInt8)) (msgData : List UInt8),
      oneByte.decoded earlier msgData = oneByte.decoded earlier' msgData := by
  intro hall
  have heq := hall [] [[1, 0, 5, 0, 0, 0, 63, 0, 7, 8]] [1, 0, 6, 0, 0, 0, 63, 0, 9]
  revert heq
  decide

end Format

end IceBridge.Group
