import Mathlib.Data.List.Nodup
import Mathlib.Data.Set.Basic

/-! Handing things out at most once: of what is asked for, only what has not been handed out
before is, and it is remembered. -/

namespace Once
variable {α : Type*} {seen mid last : Set α} {wanted later out out' : List α}

/-- `wanted` is asked for when `seen` has been handed out, and `out` is handed out. -/
structure Delivers (seen last : Set α) (wanted out : List α) : Prop where
  nodup : out.Nodup
  fresh : ∀ a ∈ out, a ∉ seen
  seen_iff : ∀ a, a ∈ last ↔ a ∈ seen ∨ a ∈ out
  asked : ∀ a ∈ out, a ∈ wanted
  complete : ∀ a ∈ wanted, a ∈ last

theorem Delivers.nil (seen : Set α) : Delivers seen seen [] [] :=
  ⟨List.nodup_nil, nofun, fun a => by simp, nofun, nofun⟩

theorem Delivers.skip {a : α} (ha : a ∈ seen) : Delivers seen seen [a] [] := by
  refine ⟨List.nodup_nil, nofun, fun a => by simp, nofun, fun b hb => ?_⟩
  rwa [List.mem_singleton.mp hb]

theorem Delivers.take {a : α} (ha : a ∉ seen) (hlast : ∀ b, b ∈ last ↔ b ∈ seen ∨ b = a) :
    Delivers seen last [a] [a] := by
  refine ⟨List.nodup_singleton a, fun b hb => ?_, fun b => ?_, fun b hb => hb, fun b hb => ?_⟩
  · rwa [List.mem_singleton.mp hb]
  · rw [hlast, List.mem_singleton]
  · exact (hlast b).mpr (Or.inr (List.mem_singleton.mp hb))

theorem Delivers.append (h : Delivers seen mid wanted out) (h' : Delivers mid last later out') :
    Delivers seen last (wanted ++ later) (out ++ out') := by
  refine ⟨?_, fun a ha => ?_, fun a => ?_, fun a ha => ?_, fun a ha => ?_⟩
  · refine List.nodup_append.mpr ⟨h.nodup, h'.nodup, ?_⟩
    rintro a ha _ ha' rfl
    exact h'.fresh a ha' ((h.seen_iff a).mpr (Or.inr ha))
  · obtain ha | ha := List.mem_append.mp ha
    · exact h.fresh a ha
    · exact fun hseen => h'.fresh a ha ((h.seen_iff a).mpr (Or.inl hseen))
  · rw [h'.seen_iff, h.seen_iff, List.mem_append, or_assoc]
  · obtain ha | ha := List.mem_append.mp ha
    · exact List.mem_append_left _ (h.asked a ha)
    · exact List.mem_append_right _ (h'.asked a ha)
  · obtain ha | ha := List.mem_append.mp ha
    · exact (h'.seen_iff a).mpr (Or.inl (h.complete a ha))
    · exact h'.complete a ha

theorem Delivers.mem_iff (h : Delivers ∅ last wanted out) (a : α) : a ∈ out ↔ a ∈ wanted := by
  constructor
  · exact h.asked a
  · intro ha
    obtain hseen | hout := (h.seen_iff a).mp (h.complete a ha)
    · exact absurd hseen (Set.notMem_empty a)
    · exact hout

end Once
