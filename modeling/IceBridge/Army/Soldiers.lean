import IceBridge.Army.Roster

/-! How the soldiers in the list `army#uid` are reported. The script writes the kind of a soldier
after `army#`, and three functions read it back from the one character that follows. -/

namespace IceBridge.Army
open Text Vacancy

structure BuiltSoldier where
  category : Int
  level : Int
  sid : Text
  campUuid : Text
  deriving DecidableEq

def slotText : Option Int → Text
  | none => ['#']
  | some type => "army#".toList ++ formatInt type

def substr (text : Text) (pos len : ℕ) : Option Text :=
  if pos ≤ text.length then some ((text.drop pos).take len) else none

def category (slot : Text) : Option Int := (substr slot 5 1).map fun digit => short (atoi digit)

namespace BuildedArmy

def list (army : BuildedArmy) : List Text := army.places.map slotText

def lindex (army : BuildedArmy) (id : Text) : Option Text :=
  (army.place id).bind fun i => army.list[i]?

/-- The loop of `getSoldiersByPlayerID`; `camp` is the hash `army#uid#dfd#camp`. -/
def soldiersFrom (camp : Text → Option Text) : ℕ → List Text → Option (List BuiltSoldier)
  | _, [] => some []
  | index, slot :: rest =>
    if slot = ['#'] then soldiersFrom camp (index + 1) rest
    else do
      let category ← category slot
      let soldiers ← soldiersFrom camp (index + 1) rest
      some (⟨category, 1, formatInt index, (camp (formatInt index)).getD []⟩ :: soldiers)

def getSoldiersByPlayerID (army : BuildedArmy) (camp : Text → Option Text) :
    Option (List BuiltSoldier) :=
  soldiersFrom camp 0 army.list

/-- The loop of `getDefenderSoldiers` over the list `army#uid#dfd`. The callers do not look at the
result, but at the soldiers that have been found. -/
def getDefenderSoldiers (army : BuildedArmy) (camp : Text → Option Text) :
    List Text → Option (Bool × List BuiltSoldier)
  | [] => some (true, [])
  | id :: rest =>
    match army.lindex id with
    | none => some (false, [])
    | some slot =>
      if slot = ['#'] then getDefenderSoldiers army camp rest
      else do
        let category ← category slot
        let (ret, soldiers) ← getDefenderSoldiers army camp rest
        some (ret, ⟨category, 1, id, (camp id).getD []⟩ :: soldiers)

def element (army : BuildedArmy) (index : Int) : Option Text :=
  if index < 0 then none else army.list[index.toNat]?

def soldierInfo (army : BuildedArmy) (id : Text) : Option BuiltSoldier := do
  let slot ← army.element (atoi id)
  let category ← category slot
  some ⟨category, 1, id, []⟩

def soldierInfos (army : BuildedArmy) : List Text → Option (List BuiltSoldier)
  | [] => some []
  | id :: rest => do
    let soldier ← army.soldierInfo id
    let soldiers ← army.soldierInfos rest
    some (soldier :: soldiers)

def getSoldierInfoByIDs (army : BuildedArmy) (input : List Text) :
    Option (Bool × List BuiltSoldier) :=
  if army.list = [] then some (false, []) else (army.soldierInfos input).map fun soldiers =>
    (true, soldiers)

end BuildedArmy

def Reports (soldiers : List BuiltSoldier) (sid : Text) (type : Int) : Prop :=
  (∃ s ∈ soldiers, s.sid = sid) ∧ ∀ s ∈ soldiers, s.sid = sid → s.category = type

/-! ## The kind that is read -/

def readType (type : Int) : Int := short (atoi ((formatInt type).take 1))

theorem slotText_some (type : Int) : slotText (some type) = "army#".toList ++ formatInt type := rfl

theorem category_slotText (type : Int) :
    category (slotText (some type)) = some (readType type) := by
  have hlength : 5 ≤ ("army#".toList ++ formatInt type).length := by
    rw [List.length_append]
    exact Nat.le_add_right 5 _
  rw [category, slotText_some, substr, if_pos hlength]
  rfl

theorem slotText_ne (type : Int) : slotText (some type) ≠ ['#'] := by
  intro h
  have hhead : some 'a' = some '#' := congrArg List.head? h
  exact absurd hhead (by decide)

theorem category_none : category (slotText none) = none := rfl

theorem readType_iff {type : Int} (htype : 1 ≤ type) : readType type = type ↔ type ≤ 9 := by
  obtain ⟨n, rfl⟩ := Int.eq_ofNat_of_zero_le (Int.le_trans (by decide) htype)
  have hread : readType n = atoi ((formatInt n).take 1) := by
    obtain ⟨hlow, hhigh⟩ := atoi_take_one_mem n
    exact short_of_mem (Int.le_trans (by decide) hlow) (Int.le_trans hhigh (by decide))
  rw [hread]
  refine (atoi_take_one_iff n).trans ?_
  omega

/-! ## Who is in the reports -/

namespace BuildedArmy
variable {army : BuildedArmy} {camp : Text → Option Text} {i : ℕ} {type : Int} {id : Text}

theorem soldiersFrom_spec (camp : Text → Option Text) (index : ℕ) (places : List (Option Int)) :
    ∃ soldiers, soldiersFrom camp index (places.map slotText) = some soldiers ∧
      ∀ s, s ∈ soldiers ↔ ∃ j type, places[j]? = some (some type) ∧
        s = ⟨readType type, 1, formatInt (index + j : ℕ),
          (camp (formatInt (index + j : ℕ))).getD []⟩ := by
  induction places generalizing index with
  | nil =>
    refine ⟨[], rfl, fun s => iff_of_false List.not_mem_nil ?_⟩
    rintro ⟨j, type, hj, -⟩
    exact Option.some_ne_none _ hj.symm
  | cons place places ih =>
    obtain ⟨soldiers, hsoldiers, hmem⟩ := ih (index + 1)
    have hshift : ∀ j, index + 1 + j = index + (j + 1) := by omega
    cases place with
    | none =>
      refine ⟨soldiers, hsoldiers, fun s => (hmem s).trans ⟨?_, ?_⟩⟩
      · rintro ⟨j, type, hj, hs⟩
        exact ⟨j + 1, type, hj, hshift j ▸ hs⟩
      · rintro ⟨_ | j, type, hj, hs⟩
        · exact absurd (Option.some.inj hj).symm (Option.some_ne_none type)
        · exact ⟨j, type, hj, (hshift j).symm ▸ hs⟩
    | some first =>
      refine ⟨⟨readType first, 1, formatInt index, (camp (formatInt index)).getD []⟩ :: soldiers,
        ?_, fun s => List.mem_cons.trans ⟨?_, ?_⟩⟩
      · rw [List.map_cons, soldiersFrom, if_neg (slotText_ne first), category_slotText, hsoldiers]
        rfl
      · rintro (rfl | hs)
        · exact ⟨0, first, rfl, rfl⟩
        · obtain ⟨j, type, hj, hs⟩ := (hmem s).mp hs
          exact ⟨j + 1, type, hj, hshift j ▸ hs⟩
      · rintro ⟨_ | j, type, hj, hs⟩
        · obtain rfl := Option.some.inj (Option.some.inj hj)
          exact .inl hs
        · exact .inr ((hmem s).mpr ⟨j, type, hj, (hshift j).symm ▸ hs⟩)

theorem reports_iff {soldiers : List BuiltSoldier} (htype : 1 ≤ type)
    (hread : ∀ s ∈ soldiers, s.sid = id → s.category = readType type) :
    Reports soldiers id type ↔ (∃ s ∈ soldiers, s.sid = id) ∧ type ≤ 9 := by
  constructor
  · rintro ⟨⟨s, hs, hsid⟩, hall⟩
    refine ⟨⟨s, hs, hsid⟩, (readType_iff htype).mp ?_⟩
    exact (hread s hs hsid).symm.trans (hall s hs hsid)
  · rintro ⟨hex, hle⟩
    exact ⟨hex, fun s hs hsid => (hread s hs hsid).trans ((readType_iff htype).mpr hle)⟩

def ReportedToPlayer (army : BuildedArmy) (camp : Text → Option Text) (i : ℕ) (type : Int) : Prop :=
  ∃ soldiers, army.getSoldiersByPlayerID camp = some soldiers ∧ Reports soldiers (formatInt i) type

theorem reportedToPlayer_iff (camp : Text → Option Text) (hi : army.places[i]? = some (some type))
    (htype : 1 ≤ type) : army.ReportedToPlayer camp i type ↔ type ≤ 9 := by
  obtain ⟨soldiers, hsoldiers, hmem⟩ := soldiersFrom_spec camp 0 army.places
  have hread : ∀ s ∈ soldiers, s.sid = formatInt i → s.category = readType type := by
    intro s hs hsid
    obtain ⟨j, type', hj, rfl⟩ := (hmem s).mp hs
    have hji : ((0 + j : ℕ) : Int) = i := formatInt_injective hsid
    obtain rfl : j = i := by omega
    rw [Option.some.inj (Option.some.inj (hi.symm.trans hj))]
  have hex : ∃ s ∈ soldiers, s.sid = formatInt i :=
    ⟨_, (hmem _).mpr ⟨i, type, hi, rfl⟩, congrArg (fun n : ℕ => formatInt n) (Nat.zero_add i)⟩
  have hreports := reports_iff htype hread
  rw [and_iff_right hex] at hreports
  refine Iff.trans ⟨?_, fun h => ⟨soldiers, hsoldiers, h⟩⟩ hreports
  rintro ⟨soldiers', hsoldiers', h⟩
  obtain rfl := Option.some.inj (hsoldiers.symm.trans hsoldiers')
  exact h

/-! ## The soldiers who defend -/

def content (army : BuildedArmy) (id : Text) : Option (Option Int) :=
  (army.place id).bind fun i => army.places[i]?

theorem lindex_eq (army : BuildedArmy) (id : Text) :
    army.lindex id = (army.content id).map slotText := by
  rw [lindex, content, Option.map_bind]
  congr 1
  funext i
  exact List.getElem?_map

theorem getDefenderSoldiers_spec (army : BuildedArmy) (camp : Text → Option Text)
    (ids : List Text) : ∃ ret soldiers, army.getDefenderSoldiers camp ids = some (ret, soldiers) ∧
      ∀ s, s ∈ soldiers ↔ ∃ id ∈ ids.takeWhile fun id => (army.content id).isSome,
        ∃ type, army.content id = some (some type) ∧
          s = ⟨readType type, 1, id, (camp id).getD []⟩ := by
  induction ids with
  | nil =>
    refine ⟨true, [], rfl, fun s => iff_of_false List.not_mem_nil ?_⟩
    rintro ⟨id, hid, -⟩
    exact List.not_mem_nil hid
  | cons id ids ih =>
    obtain ⟨ret, soldiers, hsoldiers, hmem⟩ := ih
    rw [getDefenderSoldiers, lindex_eq]
    cases hcontent : army.content id with
    | none =>
      -- the loop ends here, with what has been found
      refine ⟨false, [], rfl, fun s => iff_of_false List.not_mem_nil ?_⟩
      rintro ⟨id', hid', -⟩
      rw [List.takeWhile_cons_of_neg (by simp [hcontent])] at hid'
      exact List.not_mem_nil hid'
    | some place =>
      rw [List.takeWhile_cons_of_pos (by simp [hcontent])]
      cases place with
      | none =>
        refine ⟨ret, soldiers, hsoldiers, fun s => (hmem s).trans ⟨?_, ?_⟩⟩
        · rintro ⟨id', hid', h⟩
          exact ⟨id', List.mem_cons_of_mem id hid', h⟩
        · rintro ⟨id', hid', type, htype, hs⟩
          rcases List.mem_cons.mp hid' with rfl | hid'
          · have hnone := Option.some.inj (hcontent.symm.trans htype)
            exact absurd hnone.symm (Option.some_ne_none type)
          · exact ⟨id', hid', type, htype, hs⟩
      | some first =>
        refine ⟨ret, ⟨readType first, 1, id, (camp id).getD []⟩ :: soldiers, ?_,
          fun s => List.mem_cons.trans ⟨?_, ?_⟩⟩
        · rw [Option.map_some]
          dsimp only
          rw [if_neg (slotText_ne first), category_slotText, hsoldiers]
          rfl
        · rintro (rfl | hs)
          · exact ⟨id, List.mem_cons_self, first, hcontent, rfl⟩
          · obtain ⟨id', hid', h⟩ := (hmem s).mp hs
            exact ⟨id', List.mem_cons_of_mem id hid', h⟩
        · rintro ⟨id', hid', type, htype, hs⟩
          rcases List.mem_cons.mp hid' with rfl | hid'
          · obtain rfl := Option.some.inj (Option.some.inj (hcontent.symm.trans htype))
            exact .inl hs
          · exact .inr ((hmem s).mpr ⟨id', hid', type, htype, hs⟩)

def ReportedAsDefender (army : BuildedArmy) (camp : Text → Option Text) (ids : List Text)
    (id : Text) (type : Int) : Prop :=
  ∃ ret soldiers, army.getDefenderSoldiers camp ids = some (ret, soldiers) ∧
    Reports soldiers id type

theorem reportedAsDefender_iff (camp : Text → Option Text) {ids : List Text}
    (hid : army.content id = some (some type)) (htype : 1 ≤ type) :
    army.ReportedAsDefender camp ids id type ↔
      id ∈ (ids.takeWhile fun id => (army.content id).isSome) ∧ type ≤ 9 := by
  obtain ⟨ret, soldiers, hsoldiers, hmem⟩ := army.getDefenderSoldiers_spec camp ids
  have hread : ∀ s ∈ soldiers, s.sid = id → s.category = readType type := by
    intro s hs hsid
    obtain ⟨id', -, type', htype', rfl⟩ := (hmem s).mp hs
    obtain rfl : id' = id := hsid
    rw [Option.some.inj (Option.some.inj (hid.symm.trans htype'))]
  have hex : (∃ s ∈ soldiers, s.sid = id) ↔
      id ∈ ids.takeWhile fun id => (army.content id).isSome := by
    constructor
    · rintro ⟨s, hs, rfl⟩
      obtain ⟨id', hid', type', -, rfl⟩ := (hmem s).mp hs
      exact hid'
    · intro hin
      exact ⟨_, (hmem _).mpr ⟨id, hin, type, hid, rfl⟩, rfl⟩
  have hreports := reports_iff htype hread
  rw [hex] at hreports
  refine Iff.trans ⟨?_, fun h => ⟨ret, soldiers, hsoldiers, h⟩⟩ hreports
  rintro ⟨ret', soldiers', hsoldiers', h⟩
  obtain ⟨-, rfl⟩ := Prod.mk.inj (Option.some.inj (hsoldiers.symm.trans hsoldiers'))
  exact h

/-! ## The soldiers who attack -/

def living (army : BuildedArmy) (id : Text) : Option Int :=
  if atoi id < 0 then none else (army.places[(atoi id).toNat]?).join

theorem soldierInfo_eq (army : BuildedArmy) (id : Text) :
    army.soldierInfo id = (army.living id).map fun type => ⟨readType type, 1, id, []⟩ := by
  unfold soldierInfo element living list
  split_ifs
  · rfl
  · rw [List.getElem?_map]
    cases army.places[(atoi id).toNat]? with
    | none => rfl
    | some place =>
      rw [Option.map_some, Option.bind_eq_bind, Option.bind_some]
      cases place with
      | none =>
        rw [category_none]
        rfl
      | some type =>
        rw [category_slotText]
        rfl

theorem soldierInfos_spec (army : BuildedArmy) (input : List Text) :
    (∃ soldiers, army.soldierInfos input = some soldiers ∧ (∀ id ∈ input, (army.living id).isSome) ∧
      ∀ s, s ∈ soldiers ↔ ∃ id ∈ input, ∃ type, army.living id = some type ∧
        s = ⟨readType type, 1, id, []⟩) ∨
    army.soldierInfos input = none ∧ ∃ id ∈ input, army.living id = none := by
  induction input with
  | nil =>
    refine .inl ⟨[], rfl, fun id hid => absurd hid List.not_mem_nil, fun s => ?_⟩
    refine iff_of_false List.not_mem_nil ?_
    rintro ⟨id, hid, -⟩
    exact List.not_mem_nil hid
  | cons id input ih =>
    rw [soldierInfos, soldierInfo_eq]
    cases hliving : army.living id with
    | none => exact .inr ⟨rfl, id, List.mem_cons_self, hliving⟩
    | some first =>
      rcases ih with ⟨soldiers, hsoldiers, hall, hmem⟩ | ⟨hnone, id', hid', hdead⟩
      · refine .inl ⟨⟨readType first, 1, id, []⟩ :: soldiers, ?_, ?_, fun s => ?_⟩
        · rw [hsoldiers]
          rfl
        · intro id' hid'
          rcases List.mem_cons.mp hid' with rfl | hid'
          · exact Option.isSome_of_eq_some hliving
          · exact hall id' hid'
        · refine List.mem_cons.trans ⟨?_, ?_⟩
          · rintro (rfl | hs)
            · exact ⟨id, List.mem_cons_self, first, hliving, rfl⟩
            · obtain ⟨id', hid', h⟩ := (hmem s).mp hs
              exact ⟨id', List.mem_cons_of_mem id hid', h⟩
          · rintro ⟨id', hid', type, htype, hs⟩
            rcases List.mem_cons.mp hid' with rfl | hid'
            · obtain rfl := Option.some.inj (hliving.symm.trans htype)
              exact .inl hs
            · exact .inr ((hmem s).mpr ⟨id', hid', type, htype, hs⟩)
      · refine .inr ⟨?_, id', List.mem_cons_of_mem id hid', hdead⟩
        rw [hnone]
        rfl

def ReportedAsAttacker (army : BuildedArmy) (input : List Text) (id : Text) (type : Int) : Prop :=
  ∃ ret soldiers, army.getSoldierInfoByIDs input = some (ret, soldiers) ∧ Reports soldiers id type

theorem reportedAsAttacker_iff {input : List Text} (hin : id ∈ input)
    (hid : army.living id = some type) (htype : 1 ≤ type) :
    army.ReportedAsAttacker input id type ↔
      (∀ id ∈ input, (army.living id).isSome) ∧ type ≤ 9 := by
  have hlist : army.list ≠ [] := by
    intro hlist
    have hplaces : army.places = [] := List.map_eq_nil_iff.mp hlist
    rw [living, hplaces, List.getElem?_nil] at hid
    split_ifs at hid
    exact Option.some_ne_none type hid.symm
  unfold ReportedAsAttacker
  rw [getSoldierInfoByIDs, if_neg hlist]
  rcases army.soldierInfos_spec input with ⟨soldiers, hsoldiers, hall, hmem⟩ |
    ⟨hnone, id', hid', hdead⟩
  · have hread : ∀ s ∈ soldiers, s.sid = id → s.category = readType type := by
      intro s hs hsid
      obtain ⟨id', -, type', htype', rfl⟩ := (hmem s).mp hs
      obtain rfl : id' = id := hsid
      rw [Option.some.inj (hid.symm.trans htype')]
    have hex : ∃ s ∈ soldiers, s.sid = id := ⟨_, (hmem _).mpr ⟨id, hin, type, hid, rfl⟩, rfl⟩
    have hreports := reports_iff htype hread
    rw [and_iff_right hex] at hreports
    rw [and_iff_right hall, hsoldiers, ← hreports]
    constructor
    · rintro ⟨ret', soldiers', hsoldiers', h⟩
      obtain ⟨-, rfl⟩ := Prod.mk.inj (Option.some.inj hsoldiers')
      exact h
    · exact fun h => ⟨true, soldiers, rfl, h⟩
  · rw [hnone]
    refine iff_of_false ?_ ?_
    · rintro ⟨ret', soldiers', hsoldiers', -⟩
      exact Option.some_ne_none _ hsoldiers'.symm
    · rintro ⟨hall, -⟩
      have hsome := hall id' hid'
      rw [hdead] at hsome
      exact Bool.false_ne_true hsome

/-! ## The three of them -/

/-- Each function that is asked for the soldier at a place reports him under his kind; `dfd` is the
list `army#uid#dfd` and `input` the IDs of an attack. -/
structure Reported (army : BuildedArmy) (camp : Text → Option Text) (dfd input : List Text) (i : ℕ)
    (type : Int) : Prop where
  player : army.ReportedToPlayer camp i type
  defender : ∀ id ∈ dfd, army.place id = some i → army.ReportedAsDefender camp dfd id type
  attacker : ∀ id ∈ input, atoi id = i → army.ReportedAsAttacker input id type

/-- The kind has one digit, no ID before the soldier's in `army#uid#dfd` is unknown, and no dead
soldier attacks together with him. -/
structure Readable (army : BuildedArmy) (dfd input : List Text) (i : ℕ) (type : Int) : Prop where
  digit : type ≤ 9
  known : ∀ id ∈ dfd, army.place id = some i →
    id ∈ dfd.takeWhile fun id => (army.content id).isSome
  alive : (∃ id ∈ input, atoi id = i) → ∀ id ∈ input, (army.living id).isSome

theorem content_of_place (hi : army.places[i]? = some (some type))
    (hplace : army.place id = some i) : army.content id = some (some type) := by
  rw [content, hplace]
  exact hi

theorem living_of_atoi (hi : army.places[i]? = some (some type)) (hid : atoi id = i) :
    army.living id = some type := by
  rw [living, hid, if_neg (Int.not_lt.mpr (Int.natCast_nonneg i)), Int.toNat_natCast, hi]
  rfl

theorem reported_iff {dfd input : List Text} (hi : army.places[i]? = some (some type))
    (htype : 1 ≤ type) :
    army.Reported camp dfd input i type ↔ army.Readable dfd input i type := by
  constructor
  · rintro ⟨hplayer, hdefender, hattacker⟩
    refine ⟨(reportedToPlayer_iff camp hi htype).mp hplayer, ?_, ?_⟩
    · intro id hid hplace
      have hcontent := content_of_place hi hplace
      exact ((reportedAsDefender_iff camp hcontent htype).mp (hdefender id hid hplace)).1
    · rintro ⟨id, hid, hatoi⟩
      have hliving := living_of_atoi hi hatoi
      exact ((reportedAsAttacker_iff hid hliving htype).mp (hattacker id hid hatoi)).1
  · rintro ⟨hdigit, hknown, halive⟩
    refine ⟨(reportedToPlayer_iff camp hi htype).mpr hdigit, ?_, ?_⟩
    · intro id hid hplace
      have hcontent := content_of_place hi hplace
      exact (reportedAsDefender_iff camp hcontent htype).mpr ⟨hknown id hid hplace, hdigit⟩
    · intro id hid hatoi
      have hliving := living_of_atoi hi hatoi
      exact (reportedAsAttacker_iff hid hliving htype).mpr ⟨halive ⟨id, hid, hatoi⟩, hdigit⟩

theorem reported_iff_second : BuildedArmy.Reported { places := [none, some 7] } (fun _ => none)
      ["0".toList, "1".toList] ["1".toList] 1 7 ↔
    BuildedArmy.Readable { places := [none, some 7] } ["0".toList, "1".toList] ["1".toList] 1 7 :=
  reported_iff rfl (by decide)

/-- The first soldier of the twelfth kind is taken for one of the first kind. -/
theorem not_reported_twelfth : ∃ army,
    insertToBuildedArmyQueue (List.replicate 13 [⟨0, 0⟩, ⟨3, 60⟩]) 12 1 {} = (true, army) ∧
      army.places[0]? = some (some 12) ∧ ¬ army.Reported (fun _ => none) [] [] 0 12 := by
  refine ⟨_, rfl, rfl, fun h => ?_⟩
  exact absurd ((reportedToPlayer_iff _ rfl (by decide)).mp h.player) (by decide)

end BuildedArmy

end IceBridge.Army
