import IceBridge.Lib.Bytes
import Mathlib.Algebra.Order.Group.Int
import Mathlib.Data.Int.Basic
import Mathlib.Tactic.NormNum

/-! Code that reads a buffer at offsets and for lengths that it computes, with each of its accesses
noted. The sizes of its integers are those of a 64-bit machine. -/

namespace Reads

/-! ## Buffers -/

/-- A buffer in the memory of a program. No object has more bytes than half the addresses. -/
structure Buffer where
  bytes : List UInt8
  around : Int → UInt8 := fun _ => 0
  fits : bytes.length < 2 ^ 63

namespace Buffer
variable (b : Buffer)

def size : ℕ := b.bytes.length

def byteAt (offset : Int) : UInt8 :=
  if 0 ≤ offset then (b.bytes[offset.toNat]?).getD (b.around offset) else b.around offset

def slice (start : Int) (count : ℕ) : List UInt8 :=
  (List.range count).map fun i : ℕ => b.byteAt (start + i)

theorem slice_of_le {start count : ℕ} (h : start + count ≤ b.size) :
    b.slice start count = (b.bytes.drop start).take count := by
  apply List.ext_getElem
  · rw [slice, List.length_map, List.length_range, List.length_take, List.length_drop]
    exact (Nat.min_eq_left (Nat.le_sub_of_add_le' h)).symm
  · intro i hi _
    rw [slice, List.length_map, List.length_range] at hi
    have hin : start + i < b.bytes.length := Nat.lt_of_lt_of_le (Nat.add_lt_add_left hi start) h
    rw [List.getElem_take, List.getElem_drop]
    simp only [slice, List.getElem_map, List.getElem_range, byteAt, ← Nat.cast_add,
      Int.natCast_nonneg, if_true, Int.toNat_natCast, List.getElem?_eq_getElem hin,
      Option.getD_some]

end Buffer

/-! ## Accesses -/

inductive Access
  /-- `count` bytes are read from `start` on -/
  | read (start : Int) (count : ℕ)
  /-- a length is computed, and a variable holds what it can of it -/
  | length (exact stored : Int)
  | entry (index : Int) (entries : ℕ)

def Access.Sound (size : ℕ) : Access → Prop
  | .read start count => count = 0 ∨ 0 ≤ start ∧ start + count ≤ size
  | .length exact stored => stored = exact ∧ 0 ≤ exact
  | .entry index entries => 0 ≤ index ∧ index < entries

/-- What code computes, and the accesses that it makes. -/
structure Traced (α : Type) where
  value : α
  accesses : List Access

namespace Traced
variable {α β : Type} {size : ℕ}

instance : Monad Traced where
  pure a := ⟨a, []⟩
  bind x f := ⟨(f x.value).value, x.accesses ++ (f x.value).accesses⟩

def note (access : Access) : Traced Unit := ⟨(), [access]⟩

def Safe (size : ℕ) (x : Traced α) : Prop := ∀ access ∈ x.accesses, access.Sound size

@[simp] theorem value_pure (a : α) : (pure a : Traced α).value = a := rfl

@[simp] theorem value_bind (x : Traced α) (f : α → Traced β) :
    (x >>= f).value = (f x.value).value := rfl

@[simp] theorem safe_pure (a : α) : (pure a : Traced α).Safe size ↔ True :=
  iff_of_true nofun trivial

@[simp] theorem safe_bind (x : Traced α) (f : α → Traced β) :
    (x >>= f).Safe size ↔ x.Safe size ∧ (f x.value).Safe size :=
  List.forall_mem_append

theorem value_seq (x : Traced α) (y : Traced β) : (x >>= fun _ => y).value = y.value := rfl

theorem safe_seq (x : Traced α) (y : Traced β) :
    (x >>= fun _ => y).Safe size ↔ x.Safe size ∧ y.Safe size :=
  safe_bind x fun _ => y

@[simp] theorem safe_note (access : Access) : (note access).Safe size ↔ access.Sound size :=
  List.forall_mem_singleton

end Traced

/-! ## Reading -/

namespace Buffer
variable (b : Buffer) {size : ℕ}

def read (start : Int) (count : ℕ) : Traced (List UInt8) :=
  ⟨b.slice start count, [.read start count]⟩

def unsignedShort (start : Int) : Traced ℕ := do pure (Bytes.value (← b.read start 2))

def unsignedInt (start : Int) : Traced ℕ := do pure (Bytes.value (← b.read start 4))

@[simp] theorem value_read (start : Int) (count : ℕ) :
    (b.read start count).value = b.slice start count := rfl

@[simp] theorem value_unsignedShort (start : Int) :
    (b.unsignedShort start).value = Bytes.value (b.slice start 2) := rfl

@[simp] theorem value_unsignedInt (start : Int) :
    (b.unsignedInt start).value = Bytes.value (b.slice start 4) := rfl

@[simp] theorem safe_read (start : Int) (count : ℕ) :
    (b.read start count).Safe size ↔ count = 0 ∨ 0 ≤ start ∧ start + count ≤ size :=
  List.forall_mem_singleton

@[simp] theorem safe_unsignedShort (start : Int) :
    (b.unsignedShort start).Safe size ↔ 0 ≤ start ∧ start + 2 ≤ size := by
  simp [unsignedShort]

@[simp] theorem safe_unsignedInt (start : Int) :
    (b.unsignedInt start).Safe size ↔ 0 ≤ start ∧ start + 4 ≤ size := by
  simp [unsignedInt]

end Buffer

/-! ## Lengths -/

def toInt (x : Int) : Int := x.bmod (2 ^ 32)

def toUnsigned (x : Int) : ℕ := (x % 2 ^ 32).toNat

def toSizeT (x : Int) : ℕ := (x % 2 ^ 64).toNat

/-- A length, of which `stored` is what the variable holds. -/
def storeLength (exact stored : Int) : Traced Int := do
  Traced.note (.length exact stored)
  pure stored

@[simp] theorem value_storeLength (exact stored : Int) :
    (storeLength exact stored).value = stored := rfl

@[simp] theorem safe_storeLength {size : ℕ} (exact stored : Int) :
    (storeLength exact stored).Safe size ↔ stored = exact ∧ 0 ≤ exact := by
  simp [storeLength, Access.Sound]

theorem toInt_eq_self_iff {x : Int} : toInt x = x ↔ -2 ^ 31 ≤ x ∧ x < 2 ^ 31 := by
  unfold toInt
  rw [Int.bmod_def]
  split_ifs <;> omega

theorem toUnsigned_eq_self_iff {x : Int} : toUnsigned x = x ↔ 0 ≤ x ∧ x < 2 ^ 32 := by
  unfold toUnsigned
  omega

theorem toSizeT_eq_self_iff {x : Int} : toSizeT x = x ↔ 0 ≤ x ∧ x < 2 ^ 64 := by
  unfold toSizeT
  omega

end Reads
