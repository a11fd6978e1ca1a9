import Mathlib.Data.List.Nodup
import Mathlib.Logic.Function.Basic

/-! Records that are found by their keys, with the list of the keys, whose order means
nothing. -/

@[ext] structure Keyspace (κ α : Type*) where
  find : κ → Option α
  keys : List κ
  nodup : keys.Nodup
  mem_keys : ∀ k, k ∈ keys ↔ (find k).isSome

namespace Keyspace
variable {κ α : Type*}

def empty : Keyspace κ α where
  find _ := none
  keys := []
  nodup := List.nodup_nil
  mem_keys k := by simp

@[simp] theorem find_empty (k : κ) : (empty : Keyspace κ α).find k = none := rfl

theorem mem_keys_of_find {s : Keyspace κ α} {k : κ} {a : α} (h : s.find k = some a) :
    k ∈ s.keys := by
  rw [s.mem_keys, h]
  rfl

def records (s : Keyspace κ α) (order : List κ) : List α := order.filterMap s.find

theorem mem_records {s : Keyspace κ α} {order : List κ} (horder : order.Perm s.keys) (a : α) :
    a ∈ s.records order ↔ ∃ k, s.find k = some a := by
  rw [records, List.mem_filterMap]
  constructor
  · rintro ⟨k, -, hk⟩
    exact ⟨k, hk⟩
  · rintro ⟨k, hk⟩
    exact ⟨k, horder.mem_iff.mpr (mem_keys_of_find hk), hk⟩

def map {β : Type*} (f : α → β) (s : Keyspace κ α) : Keyspace κ β where
  find k := (s.find k).map f
  keys := s.keys
  nodup := s.nodup
  mem_keys k := by rw [Option.isSome_map, s.mem_keys]

theorem records_map {β : Type*} (f : α → β) (s : Keyspace κ α) (order : List κ) :
    (s.map f).records order = (s.records order).map f := List.map_filterMap.symm

variable [DecidableEq κ]

def set (s : Keyspace κ α) (k : κ) (a : α) : Keyspace κ α where
  find := Function.update s.find k (some a)
  keys := s.keys.insert k
  nodup := s.nodup.insert
  mem_keys l := by
    rw [List.mem_insert_iff, Function.update_apply, s.mem_keys]
    split_ifs with hl
    · simp [hl]
    · simp [hl]

def del (s : Keyspace κ α) (k : κ) : Keyspace κ α where
  find := Function.update s.find k none
  keys := s.keys.erase k
  nodup := s.nodup.erase k
  mem_keys l := by
    rw [s.nodup.mem_erase_iff, Function.update_apply, s.mem_keys]
    split_ifs with hl
    · simp [hl]
    · simp [hl]

variable (s : Keyspace κ α) (k : κ) (a : α)

@[simp] theorem find_set : (s.set k a).find = Function.update s.find k (some a) := rfl

@[simp] theorem find_del : (s.del k).find = Function.update s.find k none := rfl

theorem map_set {β : Type*} (f : α → β) : (s.set k a).map f = (s.map f).set k (f a) := by
  ext1
  · funext l
    show (Function.update s.find k (some a) l).map f =
      Function.update (fun l => (s.find l).map f) k (some (f a)) l
    rw [Function.update_apply, Function.update_apply]
    split_ifs <;> rfl
  · rfl

theorem map_del {β : Type*} (f : α → β) : (s.del k).map f = (s.map f).del k := by
  ext1
  · funext l
    show (Function.update s.find k none l).map f =
      Function.update (fun l => (s.find l).map f) k none l
    rw [Function.update_apply, Function.update_apply]
    split_ifs <;> rfl
  · rfl

/-! ## Reading records into slots -/

section place
variable {ι : Type*} [DecidableEq ι] {slot : α → ι} {m : ι → Option α} {l : List α} {a : α}

/-- Each record goes to its slot, and a later one takes the place of an earlier one. -/
def place (slot : α → ι) (m : ι → Option α) (l : List α) : ι → Option α :=
  l.foldl (fun m a => Function.update m (slot a) (some a)) m

theorem place_cons (m : ι → Option α) (a : α) (l : List α) :
    place slot m (a :: l) = place slot (Function.update m (slot a) (some a)) l := rfl

theorem place_cases {i : ι} (h : place slot m l i = some a) :
    m i = some a ∨ a ∈ l ∧ slot a = i := by
  induction l generalizing m with
  | nil => exact .inl h
  | cons b l ih =>
    rw [place_cons] at h
    rcases ih h with hupdate | ⟨hmem, hslot⟩
    · rw [Function.update_apply] at hupdate
      split_ifs at hupdate with hi
      · obtain rfl := Option.some.inj hupdate
        exact .inr ⟨List.mem_cons_self, hi.symm⟩
      · exact .inl hupdate
    · exact .inr ⟨List.mem_cons_of_mem b hmem, hslot⟩

theorem place_of_only (h : m (slot a) = some a) (honly : ∀ b ∈ l, slot b = slot a → b = a) :
    place slot m l (slot a) = some a := by
  induction l generalizing m with
  | nil => exact h
  | cons b l ih =>
    rw [place_cons]
    apply ih _ fun c hc => honly c (List.mem_cons_of_mem b hc)
    rw [Function.update_apply]
    split_ifs with hb
    · rw [honly b List.mem_cons_self hb.symm]
    · exact h

theorem place_of_mem (hmem : a ∈ l) (honly : ∀ b ∈ l, slot b = slot a → b = a) :
    place slot m l (slot a) = some a := by
  induction l generalizing m with
  | nil => exact absurd hmem List.not_mem_nil
  | cons b l ih =>
    have hrest : ∀ c ∈ l, slot c = slot a → c = a :=
      fun c hc => honly c (List.mem_cons_of_mem b hc)
    rw [place_cons]
    rcases List.mem_cons.mp hmem with rfl | hmem
    · exact place_of_only (Function.update_self _ _ _) hrest
    · exact ih hmem hrest

end place

end Keyspace
