import IceBridge.Army.Roster

/-! The population of an army. The script adds what a new soldier costs to `abt#curPopu`, and
nobody takes it off when he dies. -/

namespace IceBridge.Army
open Text Vacancy

structure Garrison where
  army : BuildedArmy
  slots : List (Option (Int × Int)) := []

namespace Garrison
variable {s t : Garrison}

def step (s : Garrison) : RosterEvent → Option Garrison
  | .finishCreateSoldier type population =>
    let (soldierID, army) := s.army.finishCreateSoldier type population
    some { army, slots := if 0 ≤ soldierID then fill s.slots (type, population) else s.slots }
  | .setSoldierDie soldierID =>
    some {
      army := (s.army.setSoldierDie soldierID).2
      slots := match s.army.place soldierID with
        | none => s.slots
        | some i => vacate s.slots i }

def living (s : Garrison) : Int := total Prod.snd s.slots

/-- The population that is stored is that of the living, and within the limit, so that there is
room for whoever they leave room for. -/
structure Sound (s : Garrison) : Prop where
  curPopu : s.army.curPopu.getD 0 = s.living
  limit : s.army.curPopu.getD 0 ≤ s.army.popu.getD 50
  room : ∀ type population, population ≤ s.army.popu.getD 50 - s.living →
    0 ≤ (s.army.finishCreateSoldier type population).1

/-- A death leaves no soldier behind who has cost anything. -/
def Costless (s : Garrison) : RosterEvent → Prop
  | .finishCreateSoldier _ _ => True
  | .setSoldierDie soldierID => ∀ i type population, s.army.place soldierID = some i →
    s.slots[i]? = some (some (type, population)) → population = 0

structure Start (s : Garrison) : Prop where
  army : s.army.Empty
  curPopu : s.army.curPopu = none
  slots : s.slots = []

def Matches (s : Garrison) : Prop := s.army.places = s.slots.map (Option.map Prod.fst)

theorem step_finishCreateSoldier (s : Garrison) (type population : Int) :
    s.step (.finishCreateSoldier type population) =
      some (if s.army.room < population then s else {
        army := (s.army.finishCreateSoldier type population).2
        slots := fill s.slots (type, population) }) := by
  have heq := s.army.finishCreateSoldier_eq type population
  rw [step]
  split_ifs at heq ⊢ with hroom
  · rw [heq]
    rfl
  · rw [heq]
    exact congrArg some (congrArg (Garrison.mk _) (if_pos (Int.natCast_nonneg _)))

theorem matches_step {e : RosterEvent} (h : s.Matches) (ht : s.step e = some t) : t.Matches := by
  unfold Matches at h ⊢
  cases e with
  | finishCreateSoldier type population =>
    rw [step_finishCreateSoldier] at ht
    obtain rfl := Option.some.inj ht
    split_ifs with hroom
    · exact h
    · rw [BuildedArmy.finishCreateSoldier_eq, if_neg hroom, map_fill, ← h]
  | setSoldierDie soldierID =>
    obtain rfl := Option.some.inj ht
    unfold BuildedArmy.setSoldierDie
    cases s.army.place soldierID with
    | none => exact h
    | some i =>
      dsimp only
      rw [map_vacate, h]

/-- Whether the population is right is a matter of the sum alone. -/
theorem sound_of_curPopu (hcur : s.army.curPopu.getD 0 = s.living)
    (hlimit : s.army.curPopu.getD 0 ≤ s.army.popu.getD 50) : s.Sound := by
  refine ⟨hcur, hlimit, fun type population hroom => ?_⟩
  rw [BuildedArmy.finishCreateSoldier_nonneg_iff, BuildedArmy.room, hcur]
  exact hroom

theorem sound_finishCreateSoldier {type population : Int} (h : s.Sound)
    (ht : s.step (.finishCreateSoldier type population) = some t) : t.Sound := by
  rw [step_finishCreateSoldier] at ht
  obtain rfl := Option.some.inj ht
  have hcur := h.curPopu
  have hlimit := h.limit
  split_ifs with hroom
  · exact h
  · rw [BuildedArmy.finishCreateSoldier_eq, if_neg hroom]
    apply sound_of_curPopu
    · change s.army.curPopu.getD 0 + population = total Prod.snd (fill s.slots (type, population))
      rw [total_fill, hcur]
      rfl
    · change s.army.curPopu.getD 0 + population ≤ s.army.popu.getD 50
      unfold BuildedArmy.room at hroom
      omega

theorem sound_vacate_iff {army : BuildedArmy} {i : ℕ} {x : Option (Int × Int)} (h : s.Sound)
    (hx : s.slots[i]? = some x) (hcur : army.curPopu = s.army.curPopu)
    (hpopu : army.popu = s.army.popu) :
    (⟨army, vacate s.slots i⟩ : Garrison).Sound ↔ weight Prod.snd x = 0 := by
  have hsum := h.curPopu
  have hvacate := total_vacate Prod.snd hx
  constructor
  · intro hsound
    have hsum' := hsound.curPopu
    rw [hcur, hsum] at hsum'
    change total Prod.snd s.slots = total Prod.snd (vacate s.slots i) at hsum'
    omega
  · intro hzero
    apply sound_of_curPopu
    · rw [hcur, hsum]
      change total Prod.snd s.slots = total Prod.snd (vacate s.slots i)
      omega
    · rw [hcur, hpopu]
      exact h.limit

theorem sound_setSoldierDie_iff {soldierID : Text} (hs : s.Matches) (h : s.Sound)
    (ht : s.step (.setSoldierDie soldierID) = some t) :
    t.Sound ↔ s.Costless (.setSoldierDie soldierID) := by
  obtain rfl := Option.some.inj ht
  unfold BuildedArmy.setSoldierDie
  cases hplace : s.army.place soldierID with
  | none =>
    refine iff_of_true h fun i type population hi => ?_
    exact absurd (hplace.symm.trans hi).symm (Option.some_ne_none i)
  | some i =>
    have hlt : i < s.slots.length := by
      have hlt := BuildedArmy.place_lt hplace
      rw [hs, List.length_map] at hlt
      exact hlt
    have hx := List.getElem?_eq_getElem hlt
    refine (sound_vacate_iff h hx ?_ ?_).trans ?_
    · rfl
    · rfl
    constructor
    · intro hzero j type population hj hslot
      obtain rfl := Option.some.inj (hplace.symm.trans hj)
      rw [Option.some.inj (hx.symm.trans hslot)] at hzero
      exact hzero
    · intro hcost
      cases hslot : s.slots[i] with
      | none => rfl
      | some soldier =>
        rw [hslot] at hx
        exact hcost i soldier.1 soldier.2 hplace hx

theorem sound_step_iff {e : RosterEvent} (hs : s.Matches) (h : s.Sound) (ht : s.step e = some t) :
    t.Sound ↔ s.Costless e := by
  cases e with
  | finishCreateSoldier type population =>
    exact iff_of_true (sound_finishCreateSoldier h ht) trivial
  | setSoldierDie soldierID => exact sound_setSoldierDie_iff hs h ht

theorem Start.living (h : s.Start) : s.living = 0 := by
  rw [Garrison.living, h.slots]
  rfl

theorem Start.sound_iff (h : s.Start) : s.Sound ↔ 0 ≤ s.army.popu.getD 50 := by
  have hcur : s.army.curPopu.getD 0 = 0 := by
    rw [h.curPopu]
    rfl
  constructor
  · intro hs
    exact hcur ▸ hs.limit
  · intro hlimit
    apply sound_of_curPopu (hcur.trans h.living.symm)
    rw [hcur]
    exact hlimit

/-- The population stays right exactly as long as nobody dies who has cost any. -/
theorem population_run_iff (h : s.Start) (es : List RosterEvent) : Run.Always step Sound s es ↔
    0 ≤ s.army.popu.getD 50 ∧ Run.EachStep step Costless s es := by
  have hmatches : s.Matches := by
    unfold Matches
    rw [h.army.places, h.slots]
    rfl
  constructor
  · intro hall
    exact ⟨h.sound_iff.mp hall.start, (Run.always_iff_eachStep (fun _ _ _ => matches_step)
      (fun _ _ _ => sound_step_iff) hmatches hall.start es).mp hall⟩
  · rintro ⟨hlimit, hcost⟩
    exact (Run.always_iff_eachStep (fun _ _ _ => matches_step)
      (fun _ _ _ => sound_step_iff) hmatches (h.sound_iff.mpr hlimit) es).mpr hcost

theorem start_default : Start { army := {} } := ⟨⟨rfl, fun _ => rfl⟩, rfl, rfl⟩

theorem population_run_trained :
    Run.Always step Sound { army := {} } [.finishCreateSoldier 1 3] ↔
      0 ≤ (50 : Int) ∧ Run.EachStep step Costless { army := {} } [.finishCreateSoldier 1 3] :=
  population_run_iff start_default _

/-- The only soldier dies, and the population that is stored is still what he has cost. -/
theorem not_sound_died :
    ¬ ∀ s : Garrison, s.Start → ∀ es : List RosterEvent, Run.Always step Sound s es := by
  intro hall
  have hrun := hall { army := {} } start_default
    [.finishCreateSoldier 1 3, .setSoldierDie "0".toList]
  have hsound := (Run.always_iff_prefixes _ _).mp hrun _ (List.prefix_refl _) _ rfl
  exact absurd hsound.curPopu (by decide)

end Garrison

end IceBridge.Army
