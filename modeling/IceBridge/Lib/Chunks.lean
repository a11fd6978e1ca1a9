import Mathlib.Algebra.BigOperators.Group.List.Basic
import Mathlib.Algebra.GroupWithZero.Nat

/-! A list is cut into chunks from the front. Each chunk takes elements as long as their weights
fit in. -/

namespace Chunks
variable {α : Type*}

structure State (α : Type*) where
  size : ℕ := 0
  current : List α := []
  done : List (List α) := []

variable (weight : α → ℕ) (limit : ℕ)

def push (s : State α) (a : α) : State α :=
  if limit < s.size + weight a then ⟨weight a, [a], s.done ++ [s.current]⟩
  else ⟨s.size + weight a, s.current ++ [a], s.done⟩

def close (s : State α) : List (List α) :=
  if s.current = [] then s.done else s.done ++ [s.current]

/-- `taken` is in the chunks in its order. Those that are closed are neither empty nor too heavy,
and the one that is open has the weight that is noted and is empty only at the start. -/
structure Filled (s : State α) (taken : List α) : Prop where
  contents : s.done.flatten ++ s.current = taken
  size : s.size = (s.current.map weight).sum
  size_le : s.size ≤ limit
  nonempty : ∀ c ∈ s.done, c ≠ []
  fits : ∀ c ∈ s.done, (c.map weight).sum ≤ limit
  start : s.current = [] → taken = []

variable {weight limit} {s : State α} {taken : List α} {a : α}

theorem filled_nil : Filled weight limit {} [] :=
  ⟨rfl, rfl, Nat.zero_le _, fun _ hc => absurd hc List.not_mem_nil,
    fun _ hc => absurd hc List.not_mem_nil, fun _ => rfl⟩

theorem Filled.current_ne_nil (h : Filled weight limit s taken) (ha : weight a ≤ limit)
    (hfull : limit < s.size + weight a) : s.current ≠ [] := by
  intro hnil
  have hzero : s.size = 0 := by
    rw [h.size, hnil]
    rfl
  omega

theorem Filled.push (h : Filled weight limit s taken) (ha : weight a ≤ limit) :
    Filled weight limit (Chunks.push weight limit s a) (taken ++ [a]) := by
  unfold Chunks.push
  split_ifs with hfull
  · have hforall : ∀ P : List α → Prop, (∀ c ∈ s.done, P c) → P s.current →
        ∀ c ∈ s.done ++ [s.current], P c := by
      intro P hdone hcurrent c hc
      rcases List.mem_append.mp hc with hc | hc
      · exact hdone c hc
      · exact List.mem_singleton.mp hc ▸ hcurrent
    refine ⟨?_, ?_, ha, hforall _ h.nonempty (h.current_ne_nil ha hfull), hforall _ h.fits ?_,
      fun hnil => absurd hnil (List.cons_ne_nil a [])⟩
    · rw [List.flatten_concat, h.contents]
    · exact (List.sum_singleton).symm
    · exact h.size ▸ h.size_le
  · refine ⟨?_, ?_, Nat.not_lt.mp hfull, h.nonempty, h.fits,
      fun hnil => absurd hnil (List.append_ne_nil_of_right_ne_nil _ (List.cons_ne_nil a []))⟩
    · rw [← List.append_assoc, h.contents]
    · rw [List.map_append, List.sum_append, h.size]
      rfl

theorem Filled.foldl {l : List α} (h : Filled weight limit s taken)
    (hl : ∀ a ∈ l, weight a ≤ limit) :
    Filled weight limit (l.foldl (Chunks.push weight limit) s) (taken ++ l) := by
  induction l generalizing s taken with
  | nil => rwa [List.append_nil]
  | cons a l ih =>
    have hrest := ih (h.push (hl a List.mem_cons_self)) fun b hb => hl b (List.mem_cons_of_mem a hb)
    rwa [List.append_assoc] at hrest

theorem Filled.close (h : Filled weight limit s taken) :
    (close s).flatten = taken ∧ ∀ c ∈ close s, c ≠ [] ∧ (c.map weight).sum ≤ limit := by
  unfold Chunks.close
  split_ifs with hnil
  · have htaken := h.contents
    rw [hnil, List.append_nil] at htaken
    exact ⟨htaken, fun c hc => ⟨h.nonempty c hc, h.fits c hc⟩⟩
  · refine ⟨List.flatten_concat.trans h.contents, fun c hc => ?_⟩
    rcases List.mem_append.mp hc with hc | hc
    · exact ⟨h.nonempty c hc, h.fits c hc⟩
    · obtain rfl := List.mem_singleton.mp hc
      exact ⟨hnil, h.size ▸ h.size_le⟩

/-! ## Marks -/

def openMarks {μ : Type*} (first middle : μ) : ℕ → List μ
  | 0 => []
  | n + 1 => first :: List.replicate n middle

theorem openMarks_succ {μ : Type*} (first middle : μ) (n : ℕ) :
    openMarks first middle (n + 1) =
      openMarks first middle n ++ [if n = 0 then first else middle] := by
  cases n with
  | zero => rfl
  | succ n =>
    rw [if_neg (Nat.succ_ne_zero n)]
    show first :: List.replicate (n + 1) middle = first :: (List.replicate n middle ++ [middle])
    rw [List.replicate_succ']

end Chunks
