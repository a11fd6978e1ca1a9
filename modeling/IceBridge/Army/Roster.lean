import IceBridge.Army.CampQueue
import IceBridge.Lib.Run
import IceBridge.Lib.Vacancy
import Mathlib.Algebra.Ring.Int.Defs

/-! The list `army#uid` over the whole life of a player: soldiers who are trained are put into it
by a script, and those who die in a battle are struck out by the pvp worker. -/

namespace IceBridge.Army
open Text Vacancy

def redisInt (text : Text) : Option Int :=
  if formatInt (atoi text) = text then some (atoi text) else none

/-- The element of a list that `LINDEX` and `LSET` mean: a negative index counts from the end. -/
def listIndex (length : ℕ) (index : Int) : Option ℕ :=
  let i := if index < 0 then index + length else index
  if 0 ≤ i ∧ i < length then some i.toNat else none

theorem listIndex_lt {length i : ℕ} {index : Int} (h : listIndex length index = some i) :
    i < length := by
  unfold listIndex at h
  dsimp only at h
  split_ifs at h with hneg hrange hrange
  all_goals
    obtain rfl := Option.some.inj h
    omega

namespace BuildedArmy
variable {army : BuildedArmy} {type population : Int}

def room (army : BuildedArmy) : Int := army.popu.getD 50 - army.curPopu.getD 0

def place (army : BuildedArmy) (soldierID : Text) : Option ℕ :=
  (redisInt soldierID).bind (listIndex army.places.length)

/-- The counter of the kind that a place held. With `#` in it, a field of this name is counted
down, which nobody reads. -/
def lower (count : Int → Int) : Option Int → Int → Int
  | none => count
  | some type => Function.update count type (count type - 1)

/-- `RedisClient::setSoldierDie`. The answer to `HINCRBY` is a number, which `strWriteExec` takes
for a failure. -/
def setSoldierDie (army : BuildedArmy) (soldierID : Text) : Bool × BuildedArmy :=
  match army.place soldierID with
  | none => (false, army)
  | some i => (false, { army with
      places := vacate army.places i
      count := lower army.count (army.places[i]?.getD none) })

theorem place_lt {soldierID : Text} {i : ℕ} (h : army.place soldierID = some i) :
    i < army.places.length := by
  obtain ⟨index, -, hindex⟩ := Option.bind_eq_some_iff.mp h
  exact listIndex_lt hindex

theorem finishCreateSoldier_eq (army : BuildedArmy) (type population : Int) :
    army.finishCreateSoldier type population =
      if army.room < population then (-1, army)
      else ((first army.places : Int), { army with
        count := Function.update army.count type (army.count type + 1)
        curPopu := some (army.curPopu.getD 0 + population)
        places := fill army.places type }) := by
  have hfirst : army.places.findIdx (fun x => decide (x = none)) = first army.places := by
    unfold first
    congr 1
    funext x
    cases x <;> rfl
  rw [finishCreateSoldier, hfirst]
  rfl

theorem finishCreateSoldier_nonneg_iff :
    0 ≤ (army.finishCreateSoldier type population).1 ↔ population ≤ army.room := by
  rw [finishCreateSoldier_eq]
  split_ifs with h
  · exact iff_of_false (fun hneg : (0 : Int) ≤ -1 => absurd hneg (by decide)) (Int.not_le.mpr h)
  · exact iff_of_true (Int.natCast_nonneg _) (Int.not_lt.mp h)

end BuildedArmy

/-! ## The counters of the kinds -/

inductive RosterEvent
  | finishCreateSoldier (type population : Int)
  | setSoldierDie (soldierID : Text)

namespace BuildedArmy
variable {army t : BuildedArmy}

def step (army : BuildedArmy) : RosterEvent → Option BuildedArmy
  | .finishCreateSoldier type population => some (army.finishCreateSoldier type population).2
  | .setSoldierDie soldierID => some (army.setSoldierDie soldierID).2

def Counts (army : BuildedArmy) : Prop := ∀ k, army.count k = army.places.count (some k)

/-- A soldier there is no room for is refused, and nothing changes. Any other insertion says which
vacant place it has filled, or that it has appended one. A death strikes out its own place. -/
def Recycles (army : BuildedArmy) : RosterEvent → Prop
  | .finishCreateSoldier type population =>
    (army.room < population ∧ army.finishCreateSoldier type population = (-1, army)) ∨
      (population ≤ army.room ∧ ∃ i : ℕ, (army.finishCreateSoldier type population).1 = i ∧
        (army.places[i]? = some none ∨ i = army.places.length) ∧
        (army.finishCreateSoldier type population).2.places[i]? = some (some type) ∧
        ∀ j, j ≠ i → (army.finishCreateSoldier type population).2.places[j]? = army.places[j]?)
  | .setSoldierDie soldierID => ∀ i, army.place soldierID = some i →
    (army.setSoldierDie soldierID).2.places[i]? = some none ∧
      ∀ j, j ≠ i → (army.setSoldierDie soldierID).2.places[j]? = army.places[j]?

structure Empty (army : BuildedArmy) : Prop where
  places : army.places = []
  count : ∀ k, army.count k = 0

theorem Empty.counts (h : army.Empty) : army.Counts := by
  intro k
  rw [h.count, h.places]
  rfl

theorem counts_iff_total : army.Counts ↔ ∀ k,
    army.count k = total (fun b => if b = k then (1 : Int) else 0) army.places := by
  exact forall_congr' fun k => by rw [count_eq_total]

theorem counts_step {e : RosterEvent} (h : army.Counts) (ht : army.step e = some t) : t.Counts := by
  rw [counts_iff_total] at h ⊢
  intro k
  cases e with
  | finishCreateSoldier type population =>
    obtain rfl := Option.some.inj ht
    rw [finishCreateSoldier_eq]
    split_ifs
    · exact h k
    · rw [total_fill, ← h k]
      dsimp only
      rw [Function.update_apply]
      split_ifs with hk hk'
      · rw [hk]
      · exact absurd hk.symm hk'
      · exact absurd ‹type = k›.symm hk
      · exact (add_zero _).symm
  | setSoldierDie soldierID =>
    obtain rfl := Option.some.inj ht
    unfold setSoldierDie
    cases hplace : army.place soldierID with
    | none => exact h k
    | some i =>
      have hlt := place_lt hplace
      have hx := List.getElem?_eq_getElem hlt
      have hvacate := total_vacate (fun b => if b = k then (1 : Int) else 0) hx
      rw [← h k] at hvacate
      dsimp only
      rw [hx, Option.getD_some, eq_sub_of_add_eq hvacate]
      cases army.places[i] with
      | none => exact (sub_zero _).symm
      | some type =>
        change Function.update army.count type (army.count type - 1) k =
          army.count k - if type = k then 1 else 0
        rw [Function.update_apply]
        split_ifs with hk hk'
        · rw [hk]
        · exact absurd hk.symm hk'
        · exact absurd ‹type = k›.symm hk
        · exact (sub_zero _).symm

theorem recycles (army : BuildedArmy) (e : RosterEvent) : army.Recycles e := by
  cases e with
  | setSoldierDie soldierID =>
    intro i hi
    have hlt := place_lt hi
    unfold setSoldierDie
    rw [hi]
    exact ⟨List.getElem?_set_self hlt, fun j hj => List.getElem?_set_ne (Ne.symm hj)⟩
  | finishCreateSoldier type population =>
    dsimp only [Recycles]
    rw [finishCreateSoldier_eq]
    split_ifs with hroom
    · exact .inl ⟨hroom, rfl⟩
    · exact .inr ⟨Int.not_lt.mp hroom, first army.places, rfl, first_vacant _,
        getElem?_fill_first _ _, fun _ => getElem?_fill_of_ne _⟩

/-- Whoever is trained and dies, in any order, each new soldier is put where nobody is, and the
counters stay those of the list. -/
theorem counts_run (h : army.Empty) (es : List RosterEvent) :
    Run.EachEvent step Recycles army es ∧ Run.Always step Counts army es :=
  ⟨Run.eachEvent_of_forall recycles army es,
    Run.always_of_invariant (fun _ _ _ => counts_step) h.counts es⟩

theorem counts_run_twice : Run.EachEvent step Recycles {}
      [.finishCreateSoldier 1 3, .setSoldierDie "0".toList, .setSoldierDie "0".toList] ∧
    Run.Always step Counts {}
      [.finishCreateSoldier 1 3, .setSoldierDie "0".toList, .setSoldierDie "0".toList] :=
  counts_run ⟨rfl, fun _ => rfl⟩ _

end BuildedArmy

end IceBridge.Army
