import Mathlib.Data.List.Basic

/-! Histories as lists of events, oldest first. An event may open a window, which stays open
until another event closes it; what must not happen is said of the time in between. -/

namespace Window
variable {ε : Type*} {opens closes bad : ε → Prop} {h l : List ε}

/-- Some event opened the window, and none has closed it since. -/
def Open (opens closes : ε → Prop) (h : List ε) : Prop :=
  ∃ pre a mid, h = pre ++ a :: mid ∧ opens a ∧ ∀ e ∈ mid, ¬ closes e

/-- No `bad` event comes after one that opens before another one closes. -/
def Never (opens closes bad : ε → Prop) (h : List ε) : Prop :=
  ∀ pre a mid c post, h = pre ++ a :: (mid ++ c :: post) → opens a → bad c → ∃ e ∈ mid, closes e

theorem not_open_nil : ¬ Open opens closes [] := by
  rintro ⟨pre, a, mid, h, -, -⟩
  simp at h

theorem never_nil : Never opens closes bad [] := by
  intro pre a mid c post h
  simp at h

theorem open_append : Open opens closes (h ++ l) ↔
    Open opens closes h ∧ (∀ e ∈ l, ¬ closes e) ∨ Open opens closes l := by
  constructor
  · rintro ⟨pre, a, mid, heq, ha, hmid⟩
    obtain ⟨as, rfl, hl⟩ | ⟨bs, rfl, hl⟩ := List.append_eq_append_iff.mp heq
    · exact Or.inr ⟨as, a, mid, hl, ha, hmid⟩
    · rcases bs with _ | ⟨b, bs⟩
      · exact Or.inr ⟨[], a, mid, hl.symm, ha, hmid⟩
      · obtain ⟨rfl, rfl⟩ := List.cons.inj hl
        refine Or.inl ⟨⟨pre, a, bs, rfl, ha, ?_⟩, ?_⟩
        · exact fun e he => hmid e (List.mem_append_left _ he)
        · exact fun e he => hmid e (List.mem_append_right _ he)
  · rintro (⟨⟨pre, a, mid, rfl, ha, hmid⟩, hl⟩ | ⟨pre, a, mid, rfl, ha, hmid⟩)
    · refine ⟨pre, a, mid ++ l, by simp, ha, fun e he => ?_⟩
      obtain he | he := List.mem_append.mp he
      exacts [hmid e he, hl e he]
    · exact ⟨h ++ pre, a, mid, by simp, ha, hmid⟩

theorem open_singleton {e : ε} : Open opens closes [e] ↔ opens e := by
  constructor
  · rintro ⟨pre, a, mid, heq, ha, -⟩
    rcases pre with _ | ⟨b, pre⟩
    · obtain ⟨rfl, -⟩ := List.cons.inj heq
      exact ha
    · simp at heq
  · exact fun he => ⟨[], e, [], rfl, he, by simp⟩

theorem open_cons {e : ε} : Open opens closes (e :: l) ↔
    opens e ∧ (∀ x ∈ l, ¬ closes x) ∨ Open opens closes l := by
  rw [← List.singleton_append, open_append, open_singleton]

theorem open_concat {e : ε} : Open opens closes (h ++ [e]) ↔
    Open opens closes h ∧ ¬ closes e ∨ opens e := by
  rw [open_append, open_singleton, List.forall_mem_singleton]

/-- Each bad event comes at a time when the window is closed. -/
theorem never_iff : Never opens closes bad h ↔
    ∀ pre c post, h = pre ++ c :: post → bad c → ¬ Open opens closes pre := by
  constructor
  · rintro hh pre c post rfl hc ⟨pre', a, mid, rfl, ha, hmid⟩
    obtain ⟨e, he, hclose⟩ := hh pre' a mid c post (by simp) ha hc
    exact hmid e he hclose
  · intro hh pre a mid c post heq ha hc
    by_contra hnone
    refine hh (pre ++ a :: mid) c post (by simp [heq]) hc ⟨pre, a, mid, rfl, ha, ?_⟩
    exact fun e he hclose => hnone ⟨e, he, hclose⟩

theorem never_append (hh : Never opens closes bad h)
    (hl : ∀ pre c post, l = pre ++ c :: post → bad c → ¬ Open opens closes (h ++ pre)) :
    Never opens closes bad (h ++ l) := by
  refine never_iff.mpr fun pre c post heq hc => ?_
  obtain ⟨as, rfl, has⟩ | ⟨bs, rfl, hbs⟩ := List.append_eq_append_iff.mp heq
  · exact hl as c post has hc
  · rcases bs with _ | ⟨b, bs⟩
    · simpa using hl [] c post (by simpa using hbs.symm) hc
    · obtain ⟨rfl, -⟩ := List.cons.inj hbs
      exact never_iff.mp hh pre c bs rfl hc

theorem never_append_of_forall (hh : Never opens closes bad h) (hl : ∀ e ∈ l, ¬ bad e) :
    Never opens closes bad (h ++ l) :=
  never_append hh fun pre c post heq hc => absurd hc (hl c (by simp [heq]))

end Window
