import Mathlib.Data.List.Nodup
import Mathlib.Data.List.Infix

/-! Names that are used again. A place binds names to owners and hands letters to the owner that
the name has at that moment, in the order in which it was told to; what it was told may lie in its
queue for a while, and meanwhile owners leave. -/

namespace Postbox
variable {ι κ : Type*}

inductive Command (ι κ : Type*)
  | bind (name : ι) (owner : κ)
  | letter (name : ι) (sender : κ)

def Command.binding? : Command ι κ → Option (ι × κ)
  | .bind name owner => some (name, owner)
  | .letter .. => none

def Command.sender? : Command ι κ → Option κ
  | .bind .. => none
  | .letter _ sender => some sender

def bound (table : List (ι × κ)) (commands : List (Command ι κ)) : List (ι × κ) :=
  table ++ commands.filterMap Command.binding?

/-- When its turn comes a name can be bound, and a letter finds nobody or its sender, who is
not entered later. -/
def Sound (table : List (ι × κ)) : List (Command ι κ) → Prop
  | [] => True
  | .bind name owner :: rest => name ∉ table.map Prod.fst ∧ Sound (table ++ [(name, owner)]) rest
  | .letter name sender :: rest => (∀ owner, (name, owner) ∈ table → owner = sender) ∧
      (∀ n, (n, sender) ∉ rest.filterMap Command.binding?) ∧ Sound table rest

variable {table small : List (ι × κ)} {commands : List (Command ι κ)} {name : ι} {owner sender : κ}

theorem bound_bind : bound table (.bind name owner :: commands) =
    bound (table ++ [(name, owner)]) commands := by
  simp [bound, Command.binding?]

theorem bound_letter : bound table (.letter name sender :: commands) = bound table commands := rfl

theorem bound_concat (command : Command ι κ) :
    bound table (commands ++ [command]) = bound table commands ++ command.binding?.toList := by
  rw [bound, bound, List.filterMap_append, List.append_assoc]
  congr 2

theorem Sound.sublist (h : Sound table commands) (hsmall : small.Sublist table) :
    Sound small commands := by
  induction commands generalizing table small with
  | nil => trivial
  | cons command commands ih =>
    cases command with
    | bind name owner =>
      obtain ⟨hfree, hrest⟩ := h
      exact ⟨fun hmem => hfree ((hsmall.map Prod.fst).subset hmem),
        ih hrest (hsmall.append_right [(name, owner)])⟩
    | letter name sender =>
      obtain ⟨honly, hlater, hrest⟩ := h
      exact ⟨fun owner hmem => honly owner (hsmall.subset hmem), hlater, ih hrest hsmall⟩

theorem Sound.bind (h : Sound table commands) (hfree : name ∉ (bound table commands).map Prod.fst)
    (hnew : ∀ command ∈ commands, command.sender? ≠ some owner) :
    Sound table (commands ++ [.bind name owner]) := by
  induction commands generalizing table with
  | nil => exact ⟨by simpa [bound] using hfree, trivial⟩
  | cons command commands ih =>
    have hrest : ∀ c ∈ commands, c.sender? ≠ some owner := fun c hc =>
      hnew c (List.mem_cons_of_mem _ hc)
    cases command with
    | bind n o =>
      rw [bound_bind] at hfree
      exact ⟨h.1, ih h.2 hfree hrest⟩
    | letter n sender =>
      obtain ⟨honly, hlater, htail⟩ := h
      refine ⟨honly, fun n' hmem => ?_, ih htail hfree hrest⟩
      change _ ∈ (commands ++ [Command.bind name owner]).filterMap Command.binding? at hmem
      rw [List.filterMap_append, List.mem_append] at hmem
      obtain hmem | hmem := hmem
      · exact hlater n' hmem
      · have hsame : sender = owner := by
          simp only [List.filterMap_cons, Command.binding?, List.filterMap_nil,
            List.mem_singleton, Prod.mk.injEq] at hmem
          exact hmem.2
        exact hnew _ List.mem_cons_self (congrArg some hsame)

theorem Sound.letter (h : Sound table commands)
    (honly : ∀ owner, (name, owner) ∈ bound table commands → owner = sender) :
    Sound table (commands ++ [.letter name sender]) := by
  induction commands generalizing table with
  | nil =>
    refine ⟨fun owner hmem => honly owner ?_, fun n => List.not_mem_nil, trivial⟩
    exact List.mem_append_left _ hmem
  | cons command commands ih =>
    cases command with
    | bind n o =>
      rw [bound_bind] at honly
      exact ⟨h.1, ih h.2 honly⟩
    | letter n s =>
      obtain ⟨hfound, hlater, htail⟩ := h
      refine ⟨hfound, fun n' hmem => hlater n' ?_, ih htail honly⟩
      simpa [Command.binding?] using hmem

theorem Sound.not_bind (h : Sound table commands) (hname : name ∈ table.map Prod.fst)
    (owner : κ) : .bind name owner ∉ commands := by
  induction commands generalizing table with
  | nil => exact List.not_mem_nil
  | cons command commands ih =>
    intro hmem
    obtain rfl | hrest := List.mem_cons.mp hmem
    · exact h.1 hname
    cases command with
    | bind n o =>
      refine ih h.2 ?_ hrest
      rw [List.map_append, List.mem_append]
      exact .inl hname
    | letter n sender => exact ih h.2.2 hname hrest

/-- A letter whose sender is or will be entered under the name finds the sender. -/
theorem Sound.finds (h : Sound table (.letter name sender :: commands))
    (hthere : (name, sender) ∈ bound table (.letter name sender :: commands)) :
    (name, sender) ∈ table := by
  rw [bound_letter, bound, List.mem_append] at hthere
  exact hthere.resolve_right (h.2.1 name)

theorem lookup_eq_some_iff [BEq ι] [LawfulBEq ι] (hnodup : (table.map Prod.fst).Nodup) :
    table.lookup name = some owner ↔ (name, owner) ∈ table := by
  induction table with
  | nil => simp
  | cons entry table ih =>
    obtain ⟨n, o⟩ := entry
    obtain ⟨hfree, hrest⟩ := List.nodup_cons.mp hnodup
    obtain rfl | hne := eq_or_ne name n
    · rw [List.lookup_cons_self, Option.some_inj, List.mem_cons, Prod.mk.injEq]
      refine ⟨fun heq => .inl ⟨rfl, heq.symm⟩, ?_⟩
      rintro (⟨-, heq⟩ | hmem)
      · exact heq.symm
      · exact absurd (List.mem_map_of_mem hmem) hfree
    · have hkey : (name == n) = false := beq_eq_false_iff_ne.mpr hne
      rw [List.lookup_cons, hkey, List.mem_cons, Prod.mk.injEq]
      exact (ih hrest).trans ⟨.inr, fun h => h.resolve_left fun heq => hne heq.1⟩

end Postbox
