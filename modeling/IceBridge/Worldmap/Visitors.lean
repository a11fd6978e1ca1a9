import IceBridge.Lib.Index
import IceBridge.Lib.Once
import IceBridge.Lib.Run
import IceBridge.Lib.Window
import Mathlib.Data.List.Induction

/-! Who looks at the world map (`_world_map_msg.cpp`): a player enters it with his first
`WorldMapNearByRequest` and leaves it with `LeaveWordMapRequest` or `LogoutRequest`. In between
he is sent the areas around the ones he looks at. -/

namespace IceBridge.Worldmap

structure WorlMapNearByResponse (Content : Type*) where
  area : Int
  content : Content

structure Visitors where
  playerLastUpdate : UInt32 → Option Int := fun _ => none
  playerUpdateStutas : UInt32 → Option (Int → Option Bool) := fun _ => none
  allMapPlayerUuid : List UInt32 := []

/-- A message of a player; a request for the areas nearby comes with the time and the contents
of the map at that moment. -/
inductive MapMessage (Content : Type*)
  | worldMapNearBy (player : UInt32) (centerArea now : Int) (content : Int → Content)
  | leaveWordMap (player : UInt32)
  | logout (player : UInt32)

def MapMessage.Enters {Content : Type*} (u : UInt32) : MapMessage Content → Prop
  | .worldMapNearBy player _ _ _ => player = u
  | .leaveWordMap _ | .logout _ => False

def MapMessage.Leaves {Content : Type*} (u : UInt32) : MapMessage Content → Prop
  | .worldMapNearBy _ _ _ _ => False
  | .leaveWordMap player | .logout player => player = u

/-- After these messages `u` looks at the map: he has entered it and not left since. -/
def Visiting {Content : Type*} (u : UInt32) (ms : List (MapMessage Content)) : Prop :=
  Window.Open (MapMessage.Enters u) (MapMessage.Leaves u) ms

namespace Visitors
variable {Content : Type*}

def addInNearBy (content : Int → Content) (uuid : UInt32)
    (r : List (WorlMapNearByResponse Content) × Visitors) (areaNum : Int) :
    List (WorlMapNearByResponse Content) × Visitors :=
  -- area 0 is refused as well, although the map has one
  if 0 < areaNum ∧ areaNum < 6400 then
    match r.2.playerUpdateStutas uuid with
    | none => r
    | some areas =>
      if areas areaNum = none then
        (r.1 ++ [⟨areaNum, content areaNum⟩], { r.2 with
          playerUpdateStutas := Function.update r.2.playerUpdateStutas uuid
            (some (Function.update areas areaNum (some true))) })
      else r
  else r

def enter (v : Visitors) (uuid : UInt32) : Visitors where
  playerUpdateStutas := Function.update v.playerUpdateStutas uuid (some fun _ => none)
  playerLastUpdate := Function.update v.playerLastUpdate uuid (some 0)
  allMapPlayerUuid := v.allMapPlayerUuid ++ [uuid]

def nearByAreas (areaNum : Int) : List Int :=
  -- the column is not asked for: in the first and the last one sums lead to another row
  [areaNum - 1, areaNum, areaNum + 1, areaNum - 81, areaNum - 80, areaNum - 79, areaNum + 79,
    areaNum + 80, areaNum + 81]

def worldMapNearByRequestService (v : Visitors) (content : Int → Content) (now centerArea : Int)
    (uuid : UInt32) : List (WorlMapNearByResponse Content) × Visitors :=
  let v := if v.playerLastUpdate uuid = none then v.enter uuid else v
  let (nearArea, v) := (nearByAreas centerArea).foldl (addInNearBy content uuid) ([], v)
  if nearArea ≠ [] then
    (nearArea, { v with playerLastUpdate := Function.update v.playerLastUpdate uuid (some now) })
  else ([], v)

/-- The loop over `all_map_player_uuid`: the first entry of the player gives way to the last
one. -/
def removeFromList (uuids : List UInt32) (uuid : UInt32) : List UInt32 :=
  match uuids.findIdx? (· == uuid), uuids[uuids.length - 1]? with
  | some i, some last => Index.moveLast uuids i last
  | _, _ => uuids

def leaveWordMapRequestService (v : Visitors) (uuid : UInt32) : Visitors where
  playerLastUpdate := Function.update v.playerLastUpdate uuid none
  allMapPlayerUuid := removeFromList v.allMapPlayerUuid uuid
  playerUpdateStutas := Function.update v.playerUpdateStutas uuid none

/-- Word for word what `LeaveWordMapRequestService` does. -/
def logoutRequestService (v : Visitors) (uuid : UInt32) : Visitors :=
  v.leaveWordMapRequestService uuid

def serve (v : Visitors) : MapMessage Content →
    List (UInt32 × WorlMapNearByResponse Content) × Visitors
  | .worldMapNearBy player centerArea now content =>
    let (nearArea, v) := v.worldMapNearByRequestService content now centerArea player
    (nearArea.map fun a => (player, a), v)
  | .leaveWordMap player => ([], v.leaveWordMapRequestService player)
  | .logout player => ([], v.logoutRequestService player)

def step (v : Visitors) (m : MapMessage Content) : Option Visitors := some (v.serve m).2

def sent : Visitors → List (MapMessage Content) → List (UInt32 × WorlMapNearByResponse Content)
  | _, [] => []
  | v, m :: ms => (v.serve m).1 ++ (v.serve m).2.sent ms

def broadcast {Message : Type*} (v : Visitors) (message : Message) : List (UInt32 × Message) :=
  v.allMapPlayerUuid.map fun uuid => (uuid, message)

/-- The three structures know the same players, the list each of them once. -/
structure InStep (v : Visitors) : Prop where
  nodup : v.allMapPlayerUuid.Nodup
  lastUpdate : ∀ u, u ∈ v.allMapPlayerUuid ↔ v.playerLastUpdate u ≠ none
  updateStutas : ∀ u, u ∈ v.allMapPlayerUuid ↔ v.playerUpdateStutas u ≠ none

/-! ## The list -/

section
variable {uuids : List UInt32} {uuid : UInt32}

theorem removeFromList_of_notMem (h : uuid ∉ uuids) : removeFromList uuids uuid = uuids := by
  have hnone : uuids.findIdx? (· == uuid) = none := by
    rw [List.findIdx?_eq_none_iff]
    intro x hx
    exact beq_eq_false_iff_ne.mpr (ne_of_mem_of_not_mem hx h)
  rw [removeFromList, hnone]

theorem removeFromList_of_mem (h : uuid ∈ uuids) :
    ∃ i last, uuids[i]? = some uuid ∧ uuids[uuids.length - 1]? = some last ∧
      removeFromList uuids uuid = Index.moveLast uuids i last := by
  have hpos : 0 < uuids.length := List.length_pos_of_mem h
  have hlast : uuids.length - 1 < uuids.length := Nat.sub_lt hpos Nat.one_pos
  obtain ⟨i, hi⟩ : ∃ i, uuids.findIdx? (· == uuid) = some i := by
    rw [← Option.isSome_iff_exists, List.findIdx?_isSome, List.any_eq_true]
    exact ⟨uuid, h, beq_self_eq_true uuid⟩
  obtain ⟨hlt, hbeq, -⟩ := List.findIdx?_eq_some_iff_getElem.mp hi
  refine ⟨i, uuids[uuids.length - 1], ?_, List.getElem?_eq_getElem hlast, ?_⟩
  · rw [List.getElem?_eq_getElem hlt, eq_of_beq hbeq]
  · rw [removeFromList, hi, List.getElem?_eq_getElem hlast]

theorem nodup_removeFromList (h : uuids.Nodup) : (removeFromList uuids uuid).Nodup := by
  by_cases hmem : uuid ∈ uuids
  · obtain ⟨i, last, hi, hlast, heq⟩ := removeFromList_of_mem hmem
    rw [heq]
    exact Index.nodup_moveLast h hi hlast
  · rwa [removeFromList_of_notMem hmem]

theorem mem_removeFromList (h : uuids.Nodup) (u : UInt32) :
    u ∈ removeFromList uuids uuid ↔ u ∈ uuids ∧ u ≠ uuid := by
  by_cases hmem : uuid ∈ uuids
  · obtain ⟨i, last, hi, hlast, heq⟩ := removeFromList_of_mem hmem
    rw [heq]
    exact Index.mem_moveLast_iff h hi hlast u
  · rw [removeFromList_of_notMem hmem]
    exact ⟨fun hu => ⟨hu, ne_of_mem_of_not_mem hu hmem⟩, And.left⟩

end

/-! ## Who is on the map -/

variable {v v' : Visitors} {uuid : UInt32}

theorem InStep.enter (h : v.InStep) (hnew : v.playerLastUpdate uuid = none) :
    (v.enter uuid).InStep := by
  have hmem : uuid ∉ v.allMapPlayerUuid := fun hu => (h.lastUpdate uuid).mp hu hnew
  refine ⟨?_, fun u => ?_, fun u => ?_⟩
  · show (v.allMapPlayerUuid ++ [uuid]).Nodup
    refine List.nodup_append.mpr ⟨h.nodup, List.nodup_singleton uuid, ?_⟩
    rintro u hu _ hlast rfl
    exact hmem (List.mem_singleton.mp hlast ▸ hu)
  · show u ∈ v.allMapPlayerUuid ++ [uuid] ↔
      Function.update v.playerLastUpdate uuid (some 0) u ≠ none
    rw [List.mem_append, List.mem_singleton, Function.update_apply]
    split_ifs with hu
    · simp [hu]
    · rw [h.lastUpdate, or_iff_left hu]
  · show u ∈ v.allMapPlayerUuid ++ [uuid] ↔
      Function.update v.playerUpdateStutas uuid (some fun _ => none) u ≠ none
    rw [List.mem_append, List.mem_singleton, Function.update_apply]
    split_ifs with hu
    · simp [hu]
    · rw [h.updateStutas, or_iff_left hu]

theorem InStep.leave (h : v.InStep) (uuid : UInt32) :
    (v.leaveWordMapRequestService uuid).InStep := by
  refine ⟨nodup_removeFromList h.nodup, fun u => ?_, fun u => ?_⟩
  · show u ∈ removeFromList v.allMapPlayerUuid uuid ↔
      Function.update v.playerLastUpdate uuid none u ≠ none
    rw [mem_removeFromList h.nodup, Function.update_apply]
    split_ifs with hu
    · simp [hu]
    · rw [h.lastUpdate, and_iff_left hu]
  · show u ∈ removeFromList v.allMapPlayerUuid uuid ↔
      Function.update v.playerUpdateStutas uuid none u ≠ none
    rw [mem_removeFromList h.nodup, Function.update_apply]
    split_ifs with hu
    · simp [hu]
    · rw [h.updateStutas, and_iff_left hu]

/-! ## What a request for the areas nearby changes -/

def marked (v : Visitors) (uuid : UInt32) : Set Int :=
  {a | ∃ areas, v.playerUpdateStutas uuid = some areas ∧ areas a ≠ none}

structure Marks (uuid : UInt32) (v v' : Visitors) : Prop where
  lastUpdate : v'.playerLastUpdate = v.playerLastUpdate
  list : v'.allMapPlayerUuid = v.allMapPlayerUuid
  known : ∀ u, v'.playerUpdateStutas u ≠ none ↔ v.playerUpdateStutas u ≠ none
  others : ∀ u, u ≠ uuid → v'.playerUpdateStutas u = v.playerUpdateStutas u

theorem Marks.refl (uuid : UInt32) (v : Visitors) : Marks uuid v v :=
  ⟨rfl, rfl, fun _ => Iff.rfl, fun _ _ => rfl⟩

theorem Marks.trans {w : Visitors} (h : Marks uuid v v') (h' : Marks uuid v' w) : Marks uuid v w :=
  ⟨h'.lastUpdate.trans h.lastUpdate, h'.list.trans h.list, fun u => (h'.known u).trans (h.known u),
    fun u hu => (h'.others u hu).trans (h.others u hu)⟩

theorem Marks.inStep (h : Marks uuid v v') (hv : v.InStep) : v'.InStep := by
  refine ⟨h.list ▸ hv.nodup, fun u => ?_, fun u => ?_⟩
  · rw [h.list, h.lastUpdate]
    exact hv.lastUpdate u
  · rw [h.list, h.known]
    exact hv.updateStutas u

def passed (areas : List Int) : List Int := areas.filter fun a => decide (0 < a ∧ a < 6400)

variable {Content : Type*} (content : Int → Content)

theorem addInNearBy_spec (hv : v.playerUpdateStutas uuid ≠ none)
    (res : List (WorlMapNearByResponse Content)) (a : Int) :
    ∃ out v', addInNearBy content uuid (res, v) a = (res ++ out.map fun a => ⟨a, content a⟩, v') ∧
      Marks uuid v v' ∧ Once.Delivers (v.marked uuid) (v'.marked uuid) (passed [a]) out := by
  obtain ⟨areas, hareas⟩ := Option.ne_none_iff_exists'.mp hv
  by_cases hrange : 0 < a ∧ a < 6400
  · have hpassed : passed [a] = [a] := List.filter_cons_of_pos (decide_eq_true hrange)
    by_cases hnew : areas a = none
    · have hadd : addInNearBy content uuid (res, v) a = (res ++ [⟨a, content a⟩], { v with
          playerUpdateStutas := Function.update v.playerUpdateStutas uuid
            (some (Function.update areas a (some true))) }) := by
        rw [addInNearBy, if_pos hrange]
        simp only [hareas, if_pos hnew]
      refine ⟨[a], _, hadd, ⟨rfl, rfl, fun u => ?_, fun u hu => Function.update_of_ne hu _ _⟩, ?_⟩
      · show Function.update v.playerUpdateStutas uuid _ u ≠ none ↔ _
        rw [Function.update_apply]
        split_ifs with hu
        · simp [hu, hareas]
        · rfl
      · rw [hpassed]
        apply Once.Delivers.take
        · rintro ⟨areas', hareas', ha⟩
          obtain rfl := Option.some.inj (hareas.symm.trans hareas')
          exact ha hnew
        · intro b
          simp only [marked, Set.mem_ofPred_eq, Function.update_self, Option.some.injEq,
            exists_eq_left', hareas, Function.update_apply]
          split_ifs with hb
          · simp [hb]
          · simp [hb]
    · have hadd : addInNearBy content uuid (res, v) a = (res, v) := by
        rw [addInNearBy, if_pos hrange]
        simp only [hareas, if_neg hnew]
      refine ⟨[], v, by rw [hadd, List.map_nil, List.append_nil], Marks.refl uuid v, ?_⟩
      rw [hpassed]
      exact Once.Delivers.skip ⟨areas, hareas, hnew⟩
  · have hpassed : passed [a] = [] := List.filter_cons_of_neg (by simpa using hrange)
    have hadd : addInNearBy content uuid (res, v) a = (res, v) := if_neg hrange
    refine ⟨[], v, by rw [hadd, List.map_nil, List.append_nil], Marks.refl uuid v, ?_⟩
    rw [hpassed]
    exact Once.Delivers.nil _

theorem foldl_addInNearBy_spec (hv : v.playerUpdateStutas uuid ≠ none)
    (res : List (WorlMapNearByResponse Content)) (as : List Int) :
    ∃ out v', as.foldl (addInNearBy content uuid) (res, v) =
        (res ++ out.map fun a => ⟨a, content a⟩, v') ∧
      Marks uuid v v' ∧ Once.Delivers (v.marked uuid) (v'.marked uuid) (passed as) out := by
  induction as generalizing v res with
  | nil => exact ⟨[], v, by simp, Marks.refl uuid v, Once.Delivers.nil _⟩
  | cons a as ih =>
    obtain ⟨out, v₁, hadd, hmarks, hdel⟩ := addInNearBy_spec content hv res a
    obtain ⟨out', v₂, hfold, hmarks', hdel'⟩ := ih ((hmarks.known uuid).mpr hv)
      (res ++ out.map fun a => ⟨a, content a⟩)
    refine ⟨out ++ out', v₂, ?_, hmarks.trans hmarks', ?_⟩
    · rw [List.foldl_cons, hadd, hfold, List.append_assoc, ← List.map_append]
    · have happend := hdel.append hdel'
      rwa [passed, passed, ← List.filter_append] at happend

def entered (v : Visitors) (uuid : UInt32) : Visitors :=
  if v.playerLastUpdate uuid = none then v.enter uuid else v

theorem entered_known (hv : v.playerLastUpdate uuid ≠ none → v.playerUpdateStutas uuid ≠ none) :
    (v.entered uuid).playerLastUpdate uuid ≠ none ∧
      (v.entered uuid).playerUpdateStutas uuid ≠ none := by
  unfold entered
  split_ifs with hnew
  · simp [enter]
  · exact ⟨hnew, hv hnew⟩

theorem lastUpdate_entered (v : Visitors) (player u : UInt32) :
    (v.entered player).playerLastUpdate u ≠ none ↔ v.playerLastUpdate u ≠ none ∨ player = u := by
  unfold entered
  split_ifs with hnew
  · change Function.update v.playerLastUpdate player (some 0) u ≠ none ↔ _
    rw [Function.update_apply]
    split_ifs with hu
    · exact iff_of_true (Option.some_ne_none 0) (.inr hu.symm)
    · rw [or_iff_left (Ne.symm hu)]
  · refine ⟨Or.inl, fun h => h.elim id ?_⟩
    rintro rfl
    exact hnew

theorem lastUpdate_leave (v : Visitors) (player u : UInt32) :
    (v.leaveWordMapRequestService player).playerLastUpdate u ≠ none ↔
      v.playerLastUpdate u ≠ none ∧ ¬ player = u ∨ False := by
  change Function.update v.playerLastUpdate player none u ≠ none ↔ _
  rw [Function.update_apply, or_false]
  split_ifs with hu
  · exact iff_of_false (fun h => h rfl) fun h => h.2 hu.symm
  · rw [and_iff_left (Ne.symm hu)]

theorem worldMapNearByRequestService_spec
    (hv : v.playerLastUpdate uuid ≠ none → v.playerUpdateStutas uuid ≠ none) (now c : Int) :
    ∃ out v₁ v', v.worldMapNearByRequestService content now c uuid =
        (out.map fun a => ⟨a, content a⟩, v') ∧
      Marks uuid (v.entered uuid) v₁ ∧
      Once.Delivers ((v.entered uuid).marked uuid) (v₁.marked uuid) (passed (nearByAreas c)) out ∧
      (v' = v₁ ∨ v' =
        { v₁ with playerLastUpdate := Function.update v₁.playerLastUpdate uuid (some now) }) := by
  obtain ⟨out, v₁, hfold, hmarks, hdel⟩ := foldl_addInNearBy_spec content (entered_known hv).2 []
    (nearByAreas c)
  have hservice : v.worldMapNearByRequestService content now c uuid =
      if out.map (fun a => (⟨a, content a⟩ : WorlMapNearByResponse Content)) ≠ [] then
        (out.map fun a => ⟨a, content a⟩,
          { v₁ with playerLastUpdate := Function.update v₁.playerLastUpdate uuid (some now) })
      else ([], v₁) := by
    unfold worldMapNearByRequestService
    rw [entered] at hfold
    dsimp only
    rw [hfold, List.nil_append]
  by_cases hnil : out = []
  · refine ⟨out, v₁, v₁, ?_, hmarks, hdel, Or.inl rfl⟩
    rw [hservice, hnil]
    rfl
  · refine ⟨out, v₁, _, ?_, hmarks, hdel, Or.inr rfl⟩
    rw [hservice, if_pos (by simpa using hnil)]

/-! ## Broadcasts -/

variable {content}

theorem InStep.serve (h : v.InStep) (m : MapMessage Content) : (v.serve m).2.InStep := by
  cases m with
  | worldMapNearBy player c now content =>
    have hv : v.playerLastUpdate player ≠ none → v.playerUpdateStutas player ≠ none := fun hu =>
      (h.updateStutas player).mp ((h.lastUpdate player).mpr hu)
    have henter : (v.entered player).InStep := by
      unfold entered
      split_ifs with hnew
      · exact h.enter hnew
      · exact h
    obtain ⟨out, v₁, v', hservice, hmarks, -, hlast⟩ :=
      worldMapNearByRequestService_spec content hv now c
    have hstep := hmarks.inStep henter
    have hserve : (v.serve (.worldMapNearBy player c now content)).2 = v' :=
      congrArg Prod.snd hservice
    rw [hserve]
    obtain rfl | rfl := hlast
    · exact hstep
    · refine ⟨hstep.nodup, fun u => ?_, hstep.updateStutas⟩
      show u ∈ v₁.allMapPlayerUuid ↔ Function.update v₁.playerLastUpdate player (some now) u ≠ none
      rw [Function.update_apply, hstep.lastUpdate]
      split_ifs with hu
      · rw [hu, hmarks.lastUpdate]
        exact iff_of_true (entered_known hv).1 (Option.some_ne_none now)
      · rfl
  | leaveWordMap player => exact h.leave player
  | logout player => exact h.leave player

theorem lastUpdate_serve (h : v.InStep) (m : MapMessage Content) (u : UInt32) :
    (v.serve m).2.playerLastUpdate u ≠ none ↔
      v.playerLastUpdate u ≠ none ∧ ¬ m.Leaves u ∨ m.Enters u := by
  cases m with
  | worldMapNearBy player c now content =>
    have hv : v.playerLastUpdate player ≠ none → v.playerUpdateStutas player ≠ none := fun hu =>
      (h.updateStutas player).mp ((h.lastUpdate player).mpr hu)
    obtain ⟨out, v₁, v', hservice, hmarks, -, hlast⟩ :=
      worldMapNearByRequestService_spec content hv now c
    have hserve : (v.serve (.worldMapNearBy player c now content)).2 = v' :=
      congrArg Prod.snd hservice
    have hmarked : v₁.playerLastUpdate u ≠ none ↔ v.playerLastUpdate u ≠ none ∨ player = u := by
      rw [hmarks.lastUpdate, lastUpdate_entered]
    rw [hserve]
    change _ ↔ v.playerLastUpdate u ≠ none ∧ ¬ False ∨ player = u
    rw [not_false_iff, and_true, ← hmarked]
    obtain rfl | rfl := hlast
    · rfl
    · change Function.update v₁.playerLastUpdate player (some now) u ≠ none ↔ _
      rw [Function.update_apply]
      split_ifs with hu
      · exact iff_of_true (Option.some_ne_none now) (hmarked.mpr (.inr hu.symm))
      · rfl
  | leaveWordMap player => exact lastUpdate_leave v player u
  | logout player => exact lastUpdate_leave v player u

/-- The worker knows the players who are on the map after the messages it has had. -/
structure Hosts (ms : List (MapMessage Content)) (v : Visitors) : Prop where
  inStep : v.InStep
  known : ∀ u, v.playerLastUpdate u ≠ none ↔ Visiting u ms

theorem Hosts.serve {ms : List (MapMessage Content)} (h : v.Hosts ms) (m : MapMessage Content) :
    (v.serve m).2.Hosts (ms ++ [m]) where
  inStep := h.inStep.serve m
  known u := by
    rw [lastUpdate_serve h.inStep, h.known]
    exact Window.open_concat.symm

theorem exec_hosts (ms : List (MapMessage Content)) :
    ∃ v, Run.exec step {} ms = some v ∧ v.Hosts ms := by
  induction ms using List.reverseRecOn with
  | nil =>
    refine ⟨{}, rfl, ⟨List.nodup_nil, fun u => by simp, fun u => by simp⟩, fun u => ?_⟩
    exact iff_of_false (fun h => h rfl) Window.not_open_nil
  | append_singleton ms m ih =>
    obtain ⟨v, hv, hhosts⟩ := ih
    exact ⟨_, Run.exec_concat hv rfl, hhosts.serve m⟩

theorem filter_broadcast {Message : Type*} (h : v.InStep) (message : Message) (u : UInt32) :
    (v.broadcast message).filter (fun sent => sent.1 = u) =
      if v.playerLastUpdate u ≠ none then [(u, message)] else [] := by
  have hfilter : v.allMapPlayerUuid.filter (fun w => decide (w = u)) =
      List.replicate (v.allMapPlayerUuid.count u) u := List.filter_eq u
  have hmap : (v.broadcast message).filter (fun sent => sent.1 = u) =
      (v.allMapPlayerUuid.filter fun w => decide (w = u)).map fun w => (w, message) :=
    List.filter_map
  rw [hmap, hfilter]
  split_ifs with hu
  · rw [List.count_eq_one_of_mem h.nodup ((h.lastUpdate u).mpr hu)]
    rfl
  · rw [List.count_eq_zero_of_not_mem fun hmem => hu ((h.lastUpdate u).mp hmem)]
    rfl

end Visitors

end IceBridge.Worldmap
