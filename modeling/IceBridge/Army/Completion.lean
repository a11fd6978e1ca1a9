import IceBridge.Army.Catchup
import IceBridge.Army.Requests
import IceBridge.Army.Soldiers

/-! A camp that is completed at once: what it costs, and what becomes of its soldiers. The diamonds
are taken first, and the queue is cleared in the end, however many soldiers there was room for. -/

namespace IceBridge.Army
open Text Vacancy

structure CompleteAtOnceResponse where
  diamondNum : Int
  whichCamp : Text
  soldiersInfo : List BuiltSoldier

def BuiltSoldier.kind (s : BuiltSoldier) : Soldier := ⟨s.category, s.level⟩

/-! ## The response -/

def buildTotalSecond (arms : Arms) : Int → List Entry → Option Int
  | total, [] => some total
  | total, e :: rest => do
    let a ← arms.find e.soldierType e.soldierLevel
    if FitsInt (e.soldierNum * a.buildTime) ∧ FitsInt (total + e.soldierNum * a.buildTime) then
      buildTotalSecond arms (total + e.soldierNum * a.buildTime) rest
    else none

def Camp.seconds (q : Camp) (now : Int) : Int :=
  ((q.beginBuildTime.map (now - ·)).getD 0).tmod 60

def Camp.diamondNum (sm : SmallMap) (now : Int) (q : Camp) : Option Int := do
  let total ← buildTotalSecond sm.arms 0 q.armysQueue
  if FitsInt (total - q.seconds now) then some (Barracks.diamondToSub total (q.seconds now))
  else none

namespace BuildedArmy

def soldierId (arms : Arms) (type level : Int) (army : BuildedArmy) : Int :=
  match arms.find type level with
  | none => -1
  | some a => (army.finishCreateSoldier type (short a.population)).1

def insertListed (arms : Arms) (type level : Int) :
    ℕ → BuildedArmy → List BuiltSoldier × BuildedArmy
  | 0, army => ([], army)
  | n + 1, army =>
    match army.insertToBuildedArmyQueue arms type level with
    | (true, army') =>
      let rest := insertListed arms type level n army'
      (⟨type, level, formatInt (army.soldierId arms type level), []⟩ :: rest.1, rest.2)
    | (false, army') => ([], army')

def insertQueue (arms : Arms) : List Entry → BuildedArmy → List BuiltSoldier × BuildedArmy
  | [], army => ([], army)
  | e :: rest, army =>
    let first := army.insertListed arms e.soldierType e.soldierLevel e.soldierNum.toNat
    let others := insertQueue arms rest first.2
    (first.1 ++ others.1, others.2)

end BuildedArmy

def Barracks.completeAtOnceResponse (sm : SmallMap) (now : Int) (b : Barracks) (whichCamp : Text) :
    Option CompleteAtOnceResponse := do
  let q ← b.campQueue whichCamp
  let diamondNum ← q.diamondNum sm now
  match Balances.subDiamond (diamondNum % 4294967296) b.asset with
  | (false, _) => some ⟨0, whichCamp, []⟩
  | (true, _) => some ⟨diamondNum, whichCamp, (b.army.insertQueue sm.arms q.armysQueue).1⟩

/-! ## Room for the soldiers -/

def BuildedArmy.occupy (arms : Arms) (room : Int) (s : Soldier) : Option Int :=
  (arms.find s.type s.level).bind fun a =>
    if short a.population ≤ room then some (room - short a.population) else none

def BuildedArmy.occupyAll (arms : Arms) (room : Int) (soldiers : List Soldier) : Option Int :=
  soldiers.foldlM (occupy arms) room

/-- The soldiers of a list have come into an army, each to a place that nobody had. -/
structure Enlisted (before after : BuildedArmy) (listed : List BuiltSoldier) : Prop where
  kept : ∀ (i : ℕ) type, before.places[i]? = some (some type) →
    after.places[i]? = some (some type)
  nodup : (listed.map BuiltSoldier.sid).Nodup
  place : ∀ s ∈ listed, ∃ i : ℕ, s.sid = formatInt i ∧
    after.places[i]? = some (some s.category) ∧ ∀ type, before.places[i]? ≠ some (some type)

namespace Enlisted
variable {army army₁ army₂ : BuildedArmy} {listed listed' : List BuiltSoldier} {type level : Int}

theorem refl (army : BuildedArmy) : Enlisted army army [] :=
  ⟨fun _ _ h => h, List.nodup_nil, fun _ hs => absurd hs List.not_mem_nil⟩

theorem trans (h : Enlisted army army₁ listed) (h' : Enlisted army₁ army₂ listed') :
    Enlisted army army₂ (listed ++ listed') := by
  refine ⟨fun i type hi => h'.kept i type (h.kept i type hi), ?_, ?_⟩
  · rw [List.map_append]
    refine List.nodup_append.mpr ⟨h.nodup, h'.nodup, ?_⟩
    intro a ha b hb hab
    obtain ⟨s, hs, rfl⟩ := List.mem_map.mp ha
    obtain ⟨s', hs', rfl⟩ := List.mem_map.mp hb
    obtain ⟨i, hsid, hi, -⟩ := h.place s hs
    obtain ⟨j, hsid', -, hvacant⟩ := h'.place s' hs'
    -- the place of the first soldier was taken when the second one came
    have hij : (i : Int) = j := formatInt_injective (hsid.symm.trans (hab.trans hsid'))
    obtain rfl : i = j := Int.ofNat.inj hij
    exact hvacant _ hi
  · intro s hs
    rcases List.mem_append.mp hs with hs | hs
    · obtain ⟨i, hsid, hi, hvacant⟩ := h.place s hs
      exact ⟨i, hsid, h'.kept i _ hi, hvacant⟩
    · obtain ⟨i, hsid, hi, hvacant⟩ := h'.place s hs
      exact ⟨i, hsid, hi, fun type htype => hvacant type (h.kept i type htype)⟩

theorem single (level : Int) (hplaces : army₁.places = fill army.places type) :
    Enlisted army army₁ [⟨type, level, formatInt (first army.places : ℕ), []⟩] := by
  refine ⟨fun i type' hi => ?_, List.nodup_singleton _, fun s hs => ?_⟩
  · rw [hplaces, getElem?_fill_of_ne type (ne_first hi)]
    exact hi
  · obtain rfl := List.mem_singleton.mp hs
    refine ⟨first army.places, rfl, ?_, fun type' hi => ne_first hi rfl⟩
    rw [hplaces]
    exact getElem?_fill_first army.places type

theorem of_places (h : army₁.places = army.places) : Enlisted army army₁ [] :=
  ⟨fun _ _ hi => h ▸ hi, List.nodup_nil, fun _ hs => absurd hs List.not_mem_nil⟩

end Enlisted

namespace BuildedArmy
variable {arms : Arms} {type level : Int} {army army' : BuildedArmy}

theorem insert_cases (arms : Arms) (type level : Int) (army : BuildedArmy) :
    (∃ army', army.insertToBuildedArmyQueue arms type level = (true, army') ∧
      army.soldierId arms type level = first army.places ∧
      army'.places = fill army.places type ∧
      occupy arms army.room ⟨type, level⟩ = some army'.room) ∨
    ∃ army', army.insertToBuildedArmyQueue arms type level = (false, army') ∧
      army'.places = army.places ∧ army'.room = army.room ∧
      occupy arms army.room ⟨type, level⟩ = none := by
  unfold insertToBuildedArmyQueue soldierId occupy
  cases arms.find type level with
  | none => exact .inr ⟨_, rfl, rfl, rfl, rfl⟩
  | some a =>
    rw [Option.bind_some]
    dsimp only
    rw [finishCreateSoldier_eq]
    by_cases hroom : army.room < short a.population
    · rw [if_pos hroom, if_neg (Int.not_le.mpr hroom)]
      exact .inr ⟨_, rfl, rfl, rfl, rfl⟩
    · rw [if_neg hroom, if_pos (Int.not_lt.mp hroom)]
      dsimp only
      rw [if_pos (Int.natCast_nonneg _)]
      refine .inl ⟨_, rfl, rfl, rfl, congrArg some ?_⟩
      exact Int.sub_sub _ _ _

theorem occupyAll_append (arms : Arms) (room : Int) (soldiers soldiers' : List Soldier) :
    occupyAll arms room (soldiers ++ soldiers') =
      (occupyAll arms room soldiers).bind fun left => occupyAll arms left soldiers' :=
  List.foldlM_append

/-- Those who are listed are of the kind that was asked for, and are all of them exactly when there
was room for all. -/
structure Inserted (arms : Arms) (army : BuildedArmy) (soldiers : List Soldier)
    (r : List BuiltSoldier × BuildedArmy) : Prop where
  enlisted : Enlisted army r.2 r.1
  length : r.1.length ≤ soldiers.length
  kinds : r.1.length = soldiers.length → r.1.map BuiltSoldier.kind = soldiers
  room : occupyAll arms army.room soldiers =
    if r.1.length = soldiers.length then some r.2.room else none

theorem insertListed_spec (arms : Arms) (type level : Int) (n : ℕ) (army : BuildedArmy) :
    Inserted arms army (List.replicate n ⟨type, level⟩) (army.insertListed arms type level n) := by
  induction n generalizing army with
  | zero => exact ⟨.refl army, Nat.le_refl 0, fun _ => rfl, rfl⟩
  | succ n ih =>
    have hall : occupyAll arms army.room (List.replicate (n + 1) ⟨type, level⟩) =
        (occupy arms army.room ⟨type, level⟩).bind fun left =>
          occupyAll arms left (List.replicate n ⟨type, level⟩) := rfl
    rw [List.replicate_succ] at hall ⊢
    rcases insert_cases arms type level army with ⟨army', hinsert, hid, hplaces, hroom⟩ |
      ⟨army', hinsert, hplaces, -, hroom⟩
    · have hstep : army.insertListed arms type level (n + 1) =
          (⟨type, level, formatInt (army.soldierId arms type level), []⟩ ::
            (army'.insertListed arms type level n).1,
            (army'.insertListed arms type level n).2) := by
        rw [insertListed, hinsert]
      obtain ⟨henlisted, hlength, hkinds, hleft⟩ := ih army'
      rw [hstep, hid]
      refine ⟨(Enlisted.single level hplaces).trans henlisted, Nat.succ_le_succ hlength, ?_, ?_⟩
      · intro h
        rw [List.map_cons, hkinds (Nat.succ.inj h)]
        rfl
      · rw [hall, hroom, Option.bind_some, hleft]
        simp only [List.length_cons, Nat.add_right_cancel_iff]
    · have hstep : army.insertListed arms type level (n + 1) = ([], army') := by
        rw [insertListed, hinsert]
      rw [hstep]
      refine ⟨.of_places hplaces, Nat.zero_le _, fun h => ?_, ?_⟩
      · exact absurd h (Nat.succ_ne_zero _).symm
      · rw [hall, hroom]
        exact (if_neg (Nat.succ_ne_zero _).symm).symm

theorem Inserted.append {soldiers soldiers' : List Soldier} {r r' : List BuiltSoldier × BuildedArmy}
    (h : Inserted arms army soldiers r) (h' : Inserted arms r.2 soldiers' r') :
    Inserted arms army (soldiers ++ soldiers') (r.1 ++ r'.1, r'.2) := by
  have hlength := h.length
  have hlength' := h'.length
  have hboth : (r.1 ++ r'.1).length = (soldiers ++ soldiers').length ↔
      r.1.length = soldiers.length ∧ r'.1.length = soldiers'.length := by
    rw [List.length_append, List.length_append]
    omega
  refine ⟨h.enlisted.trans h'.enlisted, ?_, fun hall => ?_, ?_⟩
  · rw [List.length_append, List.length_append]
    exact Nat.add_le_add hlength hlength'
  · rw [List.map_append, h.kinds (hboth.mp hall).1, h'.kinds (hboth.mp hall).2]
  · rw [occupyAll_append, h.room]
    by_cases hfirst : r.1.length = soldiers.length
    · rw [if_pos hfirst, Option.bind_some, h'.room]
      simp only [hboth, hfirst, true_and]
    · rw [if_neg hfirst, if_neg fun hall => hfirst (hboth.mp hall).1]
      rfl

theorem insertQueue_spec (arms : Arms) (queue : List Entry) (army : BuildedArmy) :
    Inserted arms army (expand (queue.map Entry.toSoldierInfo)) (army.insertQueue arms queue) := by
  induction queue generalizing army with
  | nil => exact ⟨.refl army, Nat.le_refl 0, fun _ => rfl, rfl⟩
  | cons e rest ih => exact (insertListed_spec arms _ _ _ army).append (ih _)

theorem insertListed_army (arms : Arms) (type level : Int) (n : ℕ) (army : BuildedArmy) :
    (army.insertListed arms type level n).2 = Barracks.insertAll arms type level n army := by
  induction n generalizing army with
  | zero => rfl
  | succ n ih =>
    rw [insertListed, Barracks.insertAll]
    rcases army.insertToBuildedArmyQueue arms type level with ⟨_ | _, army'⟩
    · rfl
    · exact ih army'

theorem insertQueue_army (arms : Arms) (queue : List Entry) (army : BuildedArmy) :
    (army.insertQueue arms queue).2 = queue.foldl (fun army e =>
      Barracks.insertAll arms e.soldierType e.soldierLevel e.soldierNum.toNat army) army := by
  induction queue generalizing army with
  | nil => rfl
  | cons e rest ih =>
    rw [List.foldl_cons, ← insertListed_army, ← ih]
    rfl

end BuildedArmy

/-! ## What is paid -/

def trainingTime (arms : Arms) (queue : List Entry) : Int :=
  (queue.map fun e => e.soldierNum * arms.buildTime e.soldierType e.soldierLevel).sum

theorem trainingTime_cons (arms : Arms) (e : Entry) (rest : List Entry) :
    trainingTime arms (e :: rest) =
      e.soldierNum * arms.buildTime e.soldierType e.soldierLevel + trainingTime arms rest := by
  rw [trainingTime, List.map_cons, List.sum_cons]
  rfl

theorem buildTotalSecond_of_some {arms : Arms} {queue : List Entry} {start total : Int}
    (h : buildTotalSecond arms start queue = some total) :
    total = start + trainingTime arms queue := by
  induction queue generalizing start with
  | nil => exact (Option.some.inj h).symm.trans (Int.add_zero start).symm
  | cons e rest ih =>
    obtain ⟨a, ha, h⟩ := Option.bind_eq_some_iff.mp h
    have htime : arms.buildTime e.soldierType e.soldierLevel = a.buildTime := by
      rw [Arms.buildTime, ha]
      rfl
    split_ifs at h
    rw [ih h, trainingTime_cons, htime, Int.add_assoc]

theorem completeCost_of_some {sm : SmallMap} {now diamondNum : Int} {q : Camp}
    (h : q.diamondNum sm now = some diamondNum) :
    Barracks.completeCost sm now q = diamondNum % 4294967296 := by
  obtain ⟨total, htotal, h⟩ := Option.bind_eq_some_iff.mp h
  split_ifs at h
  obtain rfl := Option.some.inj h
  rw [buildTotalSecond_of_some htotal, Int.zero_add]
  rfl

def archery : SmallMap := { table := [[], [⟨⟨0, 0⟩, fun _ => 0⟩, ⟨⟨1, 330⟩, fun _ => 0⟩]] }

def archers (soldierNum : Int) : Camp where
  armysQueue := [⟨⟨1, 1, soldierNum⟩, 0⟩]
  beginBuildTime := some 0
  expiresAt := some 330

namespace Barracks
variable {sm : SmallMap} {now : Int} {b : Barracks} {whichCamp : Text} {q : Camp}

def soldiers (b : Barracks) (whichCamp : Text) : List Soldier :=
  expand ((b.queue whichCamp).map Entry.toSoldierInfo)

def Charges (sm : SmallMap) (now : Int) (b : Barracks) (whichCamp : Text) : Prop :=
  ∃ q diamondNum, b.campQueue whichCamp = some q ∧ q.diamondNum sm now = some diamondNum ∧
    diamondNum % 4294967296 ≤ b.asset .diamond

/-- Whoever was in the queue is in the army and in the response, or still in the queue. -/
def Accounts (sm : SmallMap) (now : Int) (b : Barracks) (whichCamp : Text) : Prop :=
  ∃ res, b.completeAtOnceResponse sm now whichCamp = some res ∧
    Enlisted b.army (b.completeAtOnce sm now whichCamp).army res.soldiersInfo ∧
    (b.soldiers whichCamp).Perm
      (res.soldiersInfo.map BuiltSoldier.kind ++
        (b.completeAtOnce sm now whichCamp).soldiers whichCamp)

theorem completeAtOnce_of_paid (hq : b.campQueue whichCamp = some q)
    (hcost : completeCost sm now q ≤ b.asset .diamond) :
    (b.completeAtOnce sm now whichCamp).army = (b.army.insertQueue sm.arms q.armysQueue).2 ∧
      (b.completeAtOnce sm now whichCamp).soldiers whichCamp = [] := by
  unfold completeAtOnce
  rw [hq]
  dsimp only
  rw [Balances.subDiamond, if_neg (Int.not_lt.mpr hcost)]
  dsimp only
  constructor
  · rw [BuildedArmy.insertQueue_army]
    exact sameRecords_cancelTimer.army
  · rw [soldiers, setCamp_queue, if_pos rfl]
    rfl

theorem completeAtOnceResponse_of_paid {diamondNum : Int} (hq : b.campQueue whichCamp = some q)
    (hnum : q.diamondNum sm now = some diamondNum)
    (hcost : diamondNum % 4294967296 ≤ b.asset .diamond) :
    b.completeAtOnceResponse sm now whichCamp =
      some ⟨diamondNum, whichCamp, (b.army.insertQueue sm.arms q.armysQueue).1⟩ := by
  unfold completeAtOnceResponse
  simp only [hq, hnum, Option.bind_eq_bind, Option.bind_some]
  rw [Balances.subDiamond, if_neg (Int.not_lt.mpr hcost)]

/-- Of those who have been paid for nobody is lost only when there is room for all of them. -/
theorem accounts_iff (h : b.Charges sm now whichCamp) :
    b.Accounts sm now whichCamp ↔
      (BuildedArmy.occupyAll sm.arms b.army.room (b.soldiers whichCamp)).isSome := by
  obtain ⟨q, diamondNum, hq, hnum, hcost⟩ := h
  have hpaid : completeCost sm now q ≤ b.asset .diamond := completeCost_of_some hnum ▸ hcost
  obtain ⟨harmy, hleft⟩ := completeAtOnce_of_paid hq hpaid
  have hres := completeAtOnceResponse_of_paid hq hnum hcost
  obtain ⟨henlisted, -, hkinds, hroom⟩ :=
    BuildedArmy.insertQueue_spec sm.arms q.armysQueue b.army
  have hsoldiers : b.soldiers whichCamp = expand (q.armysQueue.map Entry.toSoldierInfo) := by
    rw [soldiers, queue_of_some hq]
  unfold Accounts
  rw [hleft, hsoldiers, hroom, harmy]
  simp only [List.append_nil]
  constructor
  · rintro ⟨res, hres', -, hperm⟩
    obtain rfl := Option.some.inj (hres.symm.trans hres')
    -- there are as many in the response as there were in the queue
    have hlength := hperm.length_eq
    rw [List.length_map] at hlength
    rw [if_pos hlength.symm]
    rfl
  · intro hsome
    split_ifs at hsome with hlength
    · exact ⟨_, hres, henlisted, (hkinds hlength).symm ▸ List.Perm.refl _⟩
    · exact absurd hsome Bool.false_ne_true

def twoArchers (popu : Int) : Barracks where
  campQueue := Function.update (fun _ => none) "a".toList (some (archers 2))
  army := { popu := some popu }
  asset := fun _ => 10

theorem twoArchers_charges (popu : Int) : (twoArchers popu).Charges archery 0 "a".toList :=
  ⟨archers 2, 3, rfl, rfl, (by decide : (3 : Int) % 4294967296 ≤ 10)⟩

theorem accounts_iff_two : (twoArchers 2).Accounts archery 0 "a".toList ↔
    (BuildedArmy.occupyAll archery.arms (twoArchers 2).army.room
      ((twoArchers 2).soldiers "a".toList)).isSome :=
  accounts_iff (twoArchers_charges 2)

/-- With room for one of the two, the other one has been paid for and is nowhere. -/
theorem not_accounts_crowded : (twoArchers 1).Charges archery 0 "a".toList ∧
    ¬ (twoArchers 1).Accounts archery 0 "a".toList := by
  refine ⟨twoArchers_charges 1, ?_⟩
  rintro ⟨res, hres, -, hperm⟩
  have hone : res = ⟨3, "a".toList, [⟨1, 1, "0".toList, []⟩]⟩ :=
    Option.some.inj (hres.symm.trans rfl)
  rw [hone] at hperm
  exact absurd hperm.length_eq (by decide)

end Barracks

/-! ## The price over time -/

structure AddsUp (arms : Arms) (start : Int) (queue : List Entry) : Prop where
  product : ∀ e ∈ queue, FitsInt (e.soldierNum * arms.buildTime e.soldierType e.soldierLevel)
  sum : ∀ pre, pre <+: queue → FitsInt (start + trainingTime arms pre)

theorem addsUp_cons {arms : Arms} {start : Int} {e : Entry} {rest : List Entry}
    (hstart : FitsInt start) :
    AddsUp arms start (e :: rest) ↔
      FitsInt (e.soldierNum * arms.buildTime e.soldierType e.soldierLevel) ∧
        AddsUp arms (start + e.soldierNum * arms.buildTime e.soldierType e.soldierLevel) rest := by
  constructor
  · rintro ⟨hproduct, hsum⟩
    refine ⟨hproduct e List.mem_cons_self, fun x hx => hproduct x (List.mem_cons_of_mem e hx), ?_⟩
    intro pre hpre
    have hlong := hsum (e :: pre) (List.cons_prefix_cons.mpr ⟨rfl, hpre⟩)
    rw [trainingTime_cons, ← Int.add_assoc] at hlong
    exact hlong
  · rintro ⟨hfirst, hproduct, hsum⟩
    refine ⟨fun x hx => ?_, fun pre hpre => ?_⟩
    · rcases List.mem_cons.mp hx with rfl | hx
      · exact hfirst
      · exact hproduct x hx
    · cases pre with
      | nil => exact (Int.add_zero start).symm ▸ hstart
      | cons x pre =>
        obtain ⟨rfl, hrest⟩ := List.cons_prefix_cons.mp hpre
        rw [trainingTime_cons, ← Int.add_assoc]
        exact hsum pre hrest

theorem buildTotalSecond_iff {arms : Arms} {queue : List Entry} {start total : Int}
    (hkinds : ∀ e ∈ queue, (arms.find e.soldierType e.soldierLevel).isSome)
    (hstart : FitsInt start) :
    buildTotalSecond arms start queue = some total ↔
      AddsUp arms start queue ∧ total = start + trainingTime arms queue := by
  induction queue generalizing start with
  | nil =>
    have hnil : AddsUp arms start [] := by
      refine ⟨fun e he => absurd he List.not_mem_nil, fun pre hpre => ?_⟩
      rw [List.prefix_nil.mp hpre]
      exact (Int.add_zero start).symm ▸ hstart
    rw [and_iff_right hnil]
    exact ⟨fun h => (Option.some.inj h).symm.trans (Int.add_zero start).symm,
      fun h => congrArg some (h.trans (Int.add_zero start)).symm⟩
  | cons e rest ih =>
    obtain ⟨a, ha⟩ := Option.isSome_iff_exists.mp (hkinds e List.mem_cons_self)
    have htime : arms.buildTime e.soldierType e.soldierLevel = a.buildTime := by
      rw [Arms.buildTime, ha]
      rfl
    have hrest := fun x hx => hkinds x (List.mem_cons_of_mem e hx)
    rw [buildTotalSecond, ha, Option.bind_eq_bind, Option.bind_some, addsUp_cons hstart,
      trainingTime_cons, htime, ← Int.add_assoc]
    by_cases hfits : FitsInt (e.soldierNum * a.buildTime) ∧
        FitsInt (start + e.soldierNum * a.buildTime)
    · rw [if_pos hfits, ih hrest hfits.2, and_iff_right hfits.1]
    · rw [if_neg hfits]
      refine iff_of_false (Option.some_ne_none total).symm ?_
      rintro ⟨⟨hproduct, hsum⟩, -⟩
      refine hfits ⟨hproduct, ?_⟩
      exact (Int.add_zero (start + e.soldierNum * a.buildTime)) ▸ hsum.sum [] (List.nil_prefix)

/-- Where the two roundings agree: `time` is what is left when the minutes are forgotten. -/
theorem diamonds_iff {time minutes : Int} (hfits : FitsInt time) (hminutes : 0 ≤ minutes) :
    (time.tdiv 300 + 1) % 4294967296 = (time - minutes) / 300 + 1 ↔
      (0 ≤ time ∨ time = -300) ∧ minutes ≤ time % 300 := by
  obtain ⟨hlow, hhigh⟩ := hfits
  by_cases hneg : 0 ≤ time
  · rw [Int.tdiv_eq_ediv_of_nonneg hneg]
    omega
  · have htdiv : time.tdiv 300 = -(-time / 300) := by
      rw [← Int.tdiv_eq_ediv_of_nonneg (by omega), Int.neg_tdiv, Int.neg_neg]
    rw [htdiv]
    omega

namespace Camp
variable {sm : SmallMap} {q : Camp} {now later begin : Int}

/-- The diamonds that `subDiamond` takes off, as an unsigned number. -/
def price (sm : SmallMap) (now : Int) (q : Camp) : Option Int :=
  (q.diamondNum sm now).map (· % 4294967296)

theorem price_charged {b : Barracks} {whichCamp : Text} {price : Int}
    (hq : b.campQueue whichCamp = some q) (hprice : q.price sm now = some price)
    (hle : price ≤ b.asset .diamond) :
    (b.completeAtOnce sm now whichCamp).asset .diamond = b.asset .diamond - price := by
  obtain ⟨diamondNum, hnum, rfl⟩ := Option.map_eq_some_iff.mp hprice
  unfold Barracks.completeAtOnce
  rw [hq]
  dsimp only
  rw [completeCost_of_some hnum, Balances.subDiamond, if_neg (Int.not_lt.mpr hle)]
  refine (congrFun Barracks.sameRecords_cancelTimer.asset Asset.diamond).trans ?_
  show Function.update b.asset Asset.diamond _ Asset.diamond = _
  exact Function.update_self Asset.diamond _ _

def remaining (sm : SmallMap) (now begin : Int) (q : Camp) : Int :=
  trainingTime sm.arms q.armysQueue - (now - begin)

/-- The whole minutes that have passed do not matter for the number of five minutes that have been
begun, nothing is done yet that would not have to be, and no number overflows. -/
structure Fair (sm : SmallMap) (now begin : Int) (q : Camp) : Prop where
  addsUp : AddsUp sm.arms 0 q.armysQueue
  fits : FitsInt (trainingTime sm.arms q.armysQueue - (now - begin) % 60)
  positive : 0 ≤ trainingTime sm.arms q.armysQueue - (now - begin) % 60 ∨
    trainingTime sm.arms q.armysQueue - (now - begin) % 60 = -300
  minutes : (now - begin) / 60 * 60 ≤
    (trainingTime sm.arms q.armysQueue - (now - begin) % 60) % 300

theorem price_eq_iff (hbegin : q.beginBuildTime = some begin) (hstart : begin ≤ now)
    (hkinds : ∀ e ∈ q.armysQueue, (sm.arms.find e.soldierType e.soldierLevel).isSome) :
    q.price sm now = some (q.remaining sm now begin / 300 + 1) ↔ q.Fair sm now begin := by
  let time := trainingTime sm.arms q.armysQueue - (now - begin) % 60
  let minutes := (now - begin) / 60 * 60
  have hseconds : q.seconds now = (now - begin) % 60 := by
    rw [seconds, hbegin]
    exact Int.tmod_eq_emod_of_nonneg (Int.sub_nonneg_of_le hstart)
  have hremaining : q.remaining sm now begin = time - minutes := by
    have hdiv := Int.emod_add_mul_ediv (now - begin) 60
    show trainingTime sm.arms q.armysQueue - (now - begin) =
      trainingTime sm.arms q.armysQueue - (now - begin) % 60 - (now - begin) / 60 * 60
    omega
  have hminutes : 0 ≤ minutes :=
    Int.mul_nonneg (Int.ediv_nonneg (Int.sub_nonneg_of_le hstart) (by decide)) (by decide)
  have htotal : buildTotalSecond sm.arms 0 q.armysQueue = some (trainingTime sm.arms q.armysQueue) ↔
      AddsUp sm.arms 0 q.armysQueue := by
    rw [buildTotalSecond_iff hkinds (by decide), Int.zero_add, and_iff_left rfl]
  rw [price, diamondNum, hremaining, hseconds]
  constructor
  · intro h
    obtain ⟨diamondNum, hnum, hprice⟩ := Option.map_eq_some_iff.mp h
    obtain ⟨total, hsum, hnum⟩ := Option.bind_eq_some_iff.mp hnum
    obtain ⟨hadds, rfl⟩ := (buildTotalSecond_iff hkinds (by decide)).mp hsum
    rw [Int.zero_add] at hnum
    split_ifs at hnum with hfits
    obtain rfl := Option.some.inj hnum
    obtain ⟨hpositive, hle⟩ := (diamonds_iff hfits hminutes).mp hprice
    exact ⟨hadds, hfits, hpositive, hle⟩
  · rintro ⟨hadds, hfits, hpositive, hle⟩
    rw [htotal.mpr hadds, Option.bind_eq_bind, Option.bind_some, if_pos hfits]
    exact congrArg some ((diamonds_iff hfits hminutes).mpr ⟨hpositive, hle⟩)

theorem price_le_of_fair {price price' : Int} (hbegin : q.beginBuildTime = some begin)
    (hkinds : ∀ e ∈ q.armysQueue, (sm.arms.find e.soldierType e.soldierLevel).isSome)
    (hstart : begin ≤ now) (hlater : now ≤ later) (hfair : q.Fair sm now begin)
    (hfair' : q.Fair sm later begin) (hprice : q.price sm now = some price)
    (hprice' : q.price sm later = some price') : price' ≤ price := by
  have h := (price_eq_iff hbegin hstart hkinds).mpr hfair
  have h' := (price_eq_iff hbegin (Int.le_trans hstart hlater) hkinds).mpr hfair'
  rw [Option.some.inj (hprice.symm.trans h), Option.some.inj (hprice'.symm.trans h')]
  have hremaining : q.remaining sm later begin ≤ q.remaining sm now begin :=
    Int.sub_le_sub_left (Int.sub_le_sub_right hlater begin) _
  exact Int.add_le_add_right (Int.ediv_le_ediv (by decide) hremaining) 1

/-- The price is the true one exactly where it is fair, and there nobody pays more for waiting. -/
theorem price_iff (hbegin : q.beginBuildTime = some begin)
    (hkinds : ∀ e ∈ q.armysQueue, (sm.arms.find e.soldierType e.soldierLevel).isSome)
    (hstart : begin ≤ now) (hlater : now ≤ later) :
    (q.price sm now = some (q.remaining sm now begin / 300 + 1) ↔ q.Fair sm now begin) ∧
      (q.Fair sm now begin → q.Fair sm later begin → ∀ price price',
        q.price sm now = some price → q.price sm later = some price' → price' ≤ price) :=
  ⟨price_eq_iff hbegin hstart hkinds, fun hfair hfair' _ _ =>
    price_le_of_fair hbegin hkinds hstart hlater hfair hfair'⟩

theorem price_iff_archers :
    ((archers 1).price archery 58 = some ((archers 1).remaining archery 58 0 / 300 + 1) ↔
      (archers 1).Fair archery 58 0) ∧
    ((archers 1).Fair archery 58 0 → (archers 1).Fair archery 59 0 → ∀ price price',
      (archers 1).price archery 58 = some price → (archers 1).price archery 59 = some price' →
        price' ≤ price) := by
  refine price_iff rfl (fun e he => ?_) (by decide) (by decide)
  obtain rfl := List.mem_singleton.mp he
  rfl

/-- After a minute the seconds begin again at zero, and what is left of five and a half minutes
costs two diamonds. -/
theorem not_priced_minute : (archers 1).price archery 59 = some 1 ∧
    (archers 1).price archery 60 = some 2 ∧
    (archers 1).price archery 60 ≠ some ((archers 1).remaining archery 60 0 / 300 + 1) :=
  ⟨rfl, rfl, by decide⟩

end Camp

end IceBridge.Army
