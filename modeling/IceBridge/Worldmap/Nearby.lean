import IceBridge.Worldmap.Visitors

/-! The areas a player is sent while he looks around. The map has eighty areas to a row, and the
neighbours of an area are found by adding to its number. -/

namespace IceBridge.Worldmap

structure Near (c a : Int) : Prop where
  onMap : 0 ≤ a ∧ a < 6400
  row : a / 80 ≤ c / 80 + 1 ∧ c / 80 ≤ a / 80 + 1
  column : a % 80 ≤ c % 80 + 1 ∧ c % 80 ≤ a % 80 + 1

theorem near_iff {c a : Int} : Near c a ↔ (0 ≤ a ∧ a < 6400) ∧
    (a / 80 ≤ c / 80 + 1 ∧ c / 80 ≤ a / 80 + 1) ∧ a % 80 ≤ c % 80 + 1 ∧ c % 80 ≤ a % 80 + 1 :=
  ⟨fun h => ⟨h.onMap, h.row, h.column⟩, fun h => ⟨h.1, h.2.1, h.2.2⟩⟩

instance (c a : Int) : Decidable (Near c a) := decidable_of_iff _ near_iff.symm

/-- What `areas` has to be after looks at `centers`: what is near one of them, each once. -/
structure SentNearby (centers areas : List Int) : Prop where
  nodup : areas.Nodup
  mem_iff : ∀ a, a ∈ areas ↔ ∃ c ∈ centers, Near c a

/-- The areas on the other side of the map that sums with a center in the first or the last
column lead to. -/
def acrossBorder (c : Int) : List Int :=
  if c % 80 = 0 then [c - 81, c - 1, c + 79]
  else if c % 80 = 79 then [c - 79, c + 1, c + 81]
  else []

/-- No center is near area 0, which is never sent, and what the sums reach on the other side of
the map is near some center all the same. -/
structure BordersCovered (centers : List Int) : Prop where
  corner : ∀ c ∈ centers, c ∉ [0, 1, 80, 81]
  across : ∀ c ∈ centers, ∀ a ∈ acrossBorder c, 0 < a → a < 6400 → ∃ c' ∈ centers, Near c' a

def MapMessage.leaver {Content : Type*} : MapMessage Content → Option UInt32
  | .worldMapNearBy .. => none
  | .leaveWordMap player => some player
  | .logout player => some player

def MapMessage.centerOf {Content : Type*} (uuid : UInt32) : MapMessage Content → Option Int
  | .worldMapNearBy player centerArea _ _ => if player = uuid then some centerArea else none
  | .leaveWordMap _ => none
  | .logout _ => none

def areasTo {Content : Type*} (uuid : UInt32)
    (sent : List (UInt32 × WorlMapNearByResponse Content)) : List Int :=
  (sent.filter fun s => s.1 = uuid).map fun s => s.2.area

/-! ## The sums -/

theorem mem_passed {as : List Int} {a : Int} :
    a ∈ Visitors.passed as ↔ a ∈ as ∧ 0 < a ∧ a < 6400 := by
  rw [Visitors.passed, List.mem_filter, decide_eq_true_eq]

theorem mem_nearByAreas {c a : Int} : a ∈ Visitors.nearByAreas c ↔
    (c - 81 ≤ a ∧ a ≤ c - 79) ∨ (c - 1 ≤ a ∧ a ≤ c + 1) ∨ (c + 79 ≤ a ∧ a ≤ c + 81) := by
  simp only [Visitors.nearByAreas, List.mem_cons, List.not_mem_nil, or_false]
  omega

theorem near_zero_iff {c : Int} (hc : 0 ≤ c ∧ c < 6400) : Near c 0 ↔ c ∈ [0, 1, 80, 81] := by
  rw [near_iff]
  simp only [List.mem_cons, List.not_mem_nil, or_false]
  omega

theorem mem_acrossBorder {c a : Int} : a ∈ acrossBorder c ↔
    (c % 80 = 0 ∧ (a = c - 81 ∨ a = c - 1 ∨ a = c + 79)) ∨
      (c % 80 = 79 ∧ (a = c - 79 ∨ a = c + 1 ∨ a = c + 81)) := by
  unfold acrossBorder
  split_ifs with hfirst hlast
  · simp [hfirst]
  · simp [hlast]
  · simp [hfirst, hlast]

/-- The sums lead to the areas nearby, and from a center at the border across it. -/
theorem mem_passed_nearByAreas {c : Int} (a : Int) :
    a ∈ Visitors.passed (Visitors.nearByAreas c) ↔
      (Near c a ∧ a ≠ 0) ∨ (a ∈ acrossBorder c ∧ 0 < a ∧ a < 6400) := by
  rw [mem_passed, mem_nearByAreas, near_iff, mem_acrossBorder]
  constructor
  · omega
  · omega

theorem bordersCovered_of_inner {centers : List Int}
    (h : ∀ c ∈ centers, 0 < c % 80 ∧ c % 80 < 79 ∧ c ≠ 1 ∧ c ≠ 81) : BordersCovered centers := by
  refine ⟨fun c hc hcorner => ?_, fun c hc a ha => ?_⟩
  · have hinner := h c hc
    simp only [List.mem_cons, List.not_mem_nil, or_false] at hcorner
    omega
  · have hinner := h c hc
    rw [mem_acrossBorder] at ha
    omega

/-! ## A visit -/

namespace Visitors
variable {Content : Type*} {v : Visitors} {uuid player : UInt32}

def seen (v : Visitors) (uuid : UInt32) : Set Int :=
  {a | v.playerLastUpdate uuid ≠ none ∧ a ∈ v.marked uuid}

theorem seen_congr {v' : Visitors} (hlast : v'.playerLastUpdate uuid = v.playerLastUpdate uuid)
    (hstutas : v'.playerUpdateStutas uuid = v.playerUpdateStutas uuid) :
    v'.seen uuid = v.seen uuid := by
  ext a
  simp only [seen, marked, Set.mem_ofPred_eq, hlast, hstutas]

theorem areasTo_self (areas : List Int) (content : Int → Content) :
    areasTo uuid (areas.map fun a => (uuid, ⟨a, content a⟩)) = areas := by
  have hall : (areas.map fun a => (uuid, (⟨a, content a⟩ : WorlMapNearByResponse Content))).filter
      (fun s => s.1 = uuid) = areas.map fun a => (uuid, ⟨a, content a⟩) := by
    simp [List.filter_eq_self]
  rw [areasTo, hall, List.map_map]
  exact List.map_id areas

theorem areasTo_of_ne (hne : player ≠ uuid) (sent : List (WorlMapNearByResponse Content)) :
    areasTo uuid (sent.map fun a => (player, a)) = [] := by
  simp [areasTo, hne]

theorem marked_entered : (v.entered uuid).marked uuid = v.seen uuid := by
  ext a
  unfold entered
  split_ifs with hnew
  · simp [marked, seen, enter, hnew]
  · simp [seen, hnew]

theorem worldMapNearBy_delivers (h : v.InStep) (content : Int → Content) (now c : Int) :
    Once.Delivers (v.seen uuid) ((v.serve (.worldMapNearBy uuid c now content)).2.seen uuid)
      (passed (nearByAreas c)) (areasTo uuid (v.serve (.worldMapNearBy uuid c now content)).1) := by
  have hv : v.playerLastUpdate uuid ≠ none → v.playerUpdateStutas uuid ≠ none := fun hu =>
    (h.updateStutas uuid).mp ((h.lastUpdate uuid).mpr hu)
  obtain ⟨out, v₁, v', hservice, hmarks, hdel, hlast⟩ :=
    worldMapNearByRequestService_spec content hv now c
  have hserve : v.serve (.worldMapNearBy uuid c now content) =
      (out.map fun a => (uuid, ⟨a, content a⟩), v') := by
    simp only [serve, hservice, List.map_map, Function.comp_def]
  have hknown : v'.playerLastUpdate uuid ≠ none := by
    obtain rfl | rfl := hlast
    · rw [hmarks.lastUpdate]
      exact (entered_known hv).1
    · simp
  have hmarked : v'.seen uuid = v₁.marked uuid := by
    ext a
    have hstutas : v'.playerUpdateStutas = v₁.playerUpdateStutas := by
      obtain rfl | rfl := hlast <;> rfl
    simp only [seen, marked, Set.mem_ofPred_eq, hstutas, and_iff_right hknown]
  rw [marked_entered] at hdel
  rw [hserve, areasTo_self, hmarked]
  exact hdel

theorem seen_serve_of_other (h : v.InStep) {m : MapMessage Content}
    (hleave : m.leaver ≠ some uuid) (hcenter : m.centerOf uuid = none) :
    (v.serve m).2.seen uuid = v.seen uuid ∧ areasTo uuid (v.serve m).1 = [] := by
  cases m with
  | worldMapNearBy player c now content =>
    have hne : player ≠ uuid := by
      rintro rfl
      simp [MapMessage.centerOf] at hcenter
    have hv : v.playerLastUpdate player ≠ none → v.playerUpdateStutas player ≠ none := fun hu =>
      (h.updateStutas player).mp ((h.lastUpdate player).mpr hu)
    obtain ⟨out, v₁, v', hservice, hmarks, -, hlast⟩ :=
      worldMapNearByRequestService_spec content hv now c
    have hserve : v.serve (.worldMapNearBy player c now content) =
        ((out.map fun a => (⟨a, content a⟩ : WorlMapNearByResponse Content)).map
          fun a => (player, a), v') := by
      simp only [serve, hservice]
    have henter : (v.entered player).seen uuid = v.seen uuid := by
      unfold entered
      split_ifs
      · exact seen_congr (Function.update_of_ne hne.symm _ _) (Function.update_of_ne hne.symm _ _)
      · rfl
    have hmark : v₁.seen uuid = (v.entered player).seen uuid :=
      seen_congr (congrFun hmarks.lastUpdate uuid) (hmarks.others uuid hne.symm)
    have hset : v'.seen uuid = v₁.seen uuid := by
      obtain rfl | rfl := hlast
      · rfl
      · exact seen_congr (Function.update_of_ne hne.symm _ _) rfl
    rw [hserve]
    exact ⟨hset.trans (hmark.trans henter), areasTo_of_ne hne _⟩
  | leaveWordMap player =>
    have hne : uuid ≠ player := fun heq => hleave (congrArg some heq.symm)
    exact ⟨seen_congr (Function.update_of_ne hne _ _) (Function.update_of_ne hne _ _), rfl⟩
  | logout player =>
    have hne : uuid ≠ player := fun heq => hleave (congrArg some heq.symm)
    exact ⟨seen_congr (Function.update_of_ne hne _ _) (Function.update_of_ne hne _ _), rfl⟩

theorem sent_delivers (h : v.InStep) (ms : List (MapMessage Content))
    (hstay : ∀ m ∈ ms, m.leaver ≠ some uuid) :
    ∃ last, Once.Delivers (v.seen uuid) last
      (passed ((ms.filterMap (MapMessage.centerOf uuid)).flatMap nearByAreas))
      (areasTo uuid (v.sent ms)) := by
  induction ms generalizing v with
  | nil => exact ⟨_, Once.Delivers.nil _⟩
  | cons m ms ih =>
    obtain ⟨last, hrest⟩ := ih (h.serve m) fun d hd => hstay d (List.mem_cons_of_mem m hd)
    have hsent : areasTo uuid (v.sent (m :: ms)) =
        areasTo uuid (v.serve m).1 ++ areasTo uuid ((v.serve m).2.sent ms) := by
      rw [sent, areasTo, List.filter_append, List.map_append]
      rfl
    rw [hsent]
    refine ⟨last, ?_⟩
    cases hc : m.centerOf uuid with
    | none =>
      obtain ⟨hseen, hnone⟩ := seen_serve_of_other h (hstay m List.mem_cons_self) hc
      rw [List.filterMap_cons_none hc, hnone, List.nil_append, ← hseen]
      exact hrest
    | some c =>
      obtain ⟨now, content, rfl⟩ : ∃ now content, m = .worldMapNearBy uuid c now content := by
        cases m with
        | worldMapNearBy player center now content =>
          rw [MapMessage.centerOf] at hc
          split_ifs at hc with hp
          obtain rfl := Option.some.inj hc
          exact ⟨now, content, by rw [hp]⟩
        | leaveWordMap player => cases hc
        | logout player => cases hc
      have happend := (worldMapNearBy_delivers h content now c).append hrest
      rw [passed, passed, ← List.filter_append] at happend
      rwa [List.filterMap_cons_some hc, List.flatMap_cons]

/-- Whatever came before, a player who comes onto the map and looks at areas of it is sent just
what is near them, each area once, exactly when none of his looks is near area 0 and what the
sums bring up across the borders is near one of his looks as well. -/
theorem sentNearby_iff {before : List (MapMessage Content)}
    (hrun : Run.exec step {} before = some v) (hnew : v.playerLastUpdate uuid = none)
    (ms : List (MapMessage Content)) (hstay : ∀ m ∈ ms, m.leaver ≠ some uuid)
    (hcenters : ∀ c ∈ ms.filterMap (MapMessage.centerOf uuid), 0 ≤ c ∧ c < 6400) :
    SentNearby (ms.filterMap (MapMessage.centerOf uuid)) (areasTo uuid (v.sent ms)) ↔
      BordersCovered (ms.filterMap (MapMessage.centerOf uuid)) := by
  have hv : v.InStep := Run.exec_invariant (I := InStep)
    (fun v m w hv hm => Option.some.inj hm ▸ hv.serve m)
    ⟨List.nodup_nil, fun u => by simp, fun u => by simp⟩ hrun
  have hempty : v.seen uuid = ∅ := by
    ext a
    simp [seen, hnew]
  obtain ⟨last, hdel⟩ := sent_delivers hv ms hstay
  rw [hempty] at hdel
  set centers := ms.filterMap (MapMessage.centerOf uuid)
  have hmem : ∀ a, a ∈ areasTo uuid (v.sent ms) ↔
      ∃ c ∈ centers, (Near c a ∧ a ≠ 0) ∨ (a ∈ acrossBorder c ∧ 0 < a ∧ a < 6400) := by
    intro a
    rw [hdel.mem_iff, mem_passed, List.mem_flatMap]
    constructor
    · rintro ⟨⟨c, hc, ha⟩, hrange⟩
      exact ⟨c, hc, (mem_passed_nearByAreas a).mp (mem_passed.mpr ⟨ha, hrange⟩)⟩
    · rintro ⟨c, hc, ha⟩
      obtain ⟨hsum, hrange⟩ := mem_passed.mp ((mem_passed_nearByAreas a).mpr ha)
      exact ⟨⟨c, hc, hsum⟩, hrange⟩
  constructor
  · intro h
    refine ⟨fun c hc hcorner => ?_, fun c hc a ha hpos hlt => ?_⟩
    · have hsent := (h.mem_iff 0).mpr ⟨c, hc, (near_zero_iff (hcenters c hc)).mpr hcorner⟩
      obtain ⟨c', -, hzero | hzero⟩ := (hmem 0).mp hsent
      · exact hzero.2 rfl
      · exact lt_irrefl 0 hzero.2.1
    · exact (h.mem_iff a).mp ((hmem a).mpr ⟨c, hc, Or.inr ⟨ha, hpos, hlt⟩⟩)
  · intro h
    refine ⟨hdel.nodup, fun a => (hmem a).trans ⟨?_, ?_⟩⟩
    · rintro ⟨c, hc, hnear | ⟨ha, hpos, hlt⟩⟩
      · exact ⟨c, hc, hnear.1⟩
      · exact h.across c hc a ha hpos hlt
    · rintro ⟨c, hc, hnear⟩
      refine ⟨c, hc, Or.inl ⟨hnear, ?_⟩⟩
      rintro rfl
      exact h.corner c hc ((near_zero_iff (hcenters c hc)).mp hnear)

def twoLooks : List (MapMessage Unit) :=
  [.worldMapNearBy 7 3240 0 fun _ => (), .worldMapNearBy 7 3241 0 fun _ => ()]

theorem sentNearby_twoLooks :
    SentNearby [3240, 3241] (areasTo 7 (({} : Visitors).sent twoLooks)) := by
  have hstay : ∀ m ∈ twoLooks, m.leaver ≠ some 7 := by
    intro m hm
    simp only [twoLooks, List.mem_cons, List.not_mem_nil, or_false] at hm
    obtain rfl | rfl := hm <;> exact nofun
  have hcenters : ∀ c ∈ twoLooks.filterMap (MapMessage.centerOf 7), 0 ≤ c ∧ c < 6400 := by decide
  have hcovered : BordersCovered (twoLooks.filterMap (MapMessage.centerOf 7)) :=
    bordersCovered_of_inner (by decide)
  exact (@sentNearby_iff Unit {} 7 [] rfl rfl twoLooks hstay hcenters).mpr hcovered

/-- A look at area 160, the first of its row, brings up area 159, the last of the row above; and
after a look at area 1, area 0 has not been sent. -/
theorem not_sentNearby_border :
    ¬ SentNearby [160] (areasTo 7 (({} : Visitors).sent [.worldMapNearBy 7 160 0 fun _ => ()])) ∧
      ¬ SentNearby [1] (areasTo 7 (({} : Visitors).sent [.worldMapNearBy 7 1 0 fun _ => ()])) := by
  constructor
  · intro h
    obtain ⟨c, hc, hnear⟩ := (h.mem_iff 159).mp (by decide)
    rw [List.mem_singleton.mp hc] at hnear
    exact absurd hnear (by decide)
  · intro h
    have hsent := (h.mem_iff 0).mpr ⟨1, List.mem_singleton_self 1, by decide⟩
    exact absurd hsent (by decide)

end Visitors

end IceBridge.Worldmap
