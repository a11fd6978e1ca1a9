import IceBridge.Lib.Grid
import IceBridge.Lib.Run
import Mathlib.Data.List.Nodup

/-! What grows on the map. Each pass looks through a hundred areas of eight by eight cells, gives
some of the cells an entry, and marks them, so that they are not found again. The map is read by
row and column, and marked by column and row. -/

namespace IceBridge.Worldmap

structure Coord where
  x : ℕ
  y : ℕ
  deriving DecidableEq

namespace Coord

def key (c : Coord) : ℕ := c.x * 65536 + c.y

def swap (c : Coord) : Coord := ⟨c.y, c.x⟩

/-- The area of eight by eight cells, of which there are 80 in a row. -/
def area (c : Coord) : ℕ := c.y / 8 * 80 + c.x / 8

end Coord

structure NearBy (α : Type) where
  area : ℕ := 0
  entries : ℕ → Option α := fun _ => none

structure Areas where
  resource : ℕ → NearBy UInt8 := fun _ => {}
  monster : ℕ → NearBy Unit := fun _ => {}
  lastUpdate : ℕ → Int := fun _ => 0

namespace Areas

def setResource (area : ℕ) (f : NearBy UInt8 → NearBy UInt8) (t : Areas) : Areas :=
  { t with resource := Function.update t.resource area (f (t.resource area)) }

def setMonster (area : ℕ) (f : NearBy Unit → NearBy Unit) (t : Areas) : Areas :=
  { t with monster := Function.update t.monster area (f (t.monster area)) }

def setUpdate (area : ℕ) (curTime : Int) (t : Areas) : Areas :=
  { t with lastUpdate := Function.update t.lastUpdate area curTime }

end Areas

def NearBy.setArea {α : Type} (area : ℕ) (n : NearBy α) : NearBy α := { n with area }

def NearBy.insert {α : Type} (key : ℕ) (a : α) (n : NearBy α) : NearBy α :=
  { n with entries := Function.update n.entries key (some a) }

/-- `world_position` by row and column, the areas, and a log of the cells that have been given an
entry. -/
structure WildMap where
  worldPosition : Grid ℕ ℕ UInt8
  areas : Areas := {}
  added : List Coord := []

def checkRemainCoord (worldPosition : Grid ℕ ℕ UInt8) (checktype : UInt8) (bigAreaNum k : ℕ) :
    List Coord :=
  let areaX := (bigAreaNum * 100 + k) % 80
  let areaY := (bigAreaNum * 100 + k) / 80
  (List.range' (areaY * 8) 8).flatMap fun j =>
    ((List.range' (areaX * 8) 8).filter fun i => worldPosition j i = checktype).map fun i => ⟨i, j⟩

namespace WildMap

def grow (insert : Coord → Areas → Areas) (m : WildMap) (c : Coord) : WildMap where
  worldPosition := m.worldPosition.set c.x c.y 0xff
  areas := insert c m.areas
  added := m.added ++ [c]

def updateArea (start : Areas → Areas) (insert : Coord → Areas → Areas) (grows : Coord → Bool)
    (area : ℕ) (coords : List Coord) (curTime : Int) (m : WildMap) : WildMap :=
  let m := { m with areas := start m.areas }
  let m := coords.foldl (fun m c => if grows c then m.grow insert c else m) m
  if coords.any grows then { m with areas := m.areas.setUpdate area curTime } else m

def update (start : ℕ → Areas → Areas) (insert : ℕ → Coord → Areas → Areas) (grows : Coord → Bool)
    (i : ℕ) (resourceCoord : ℕ → List Coord) (curTime : Int) (m : WildMap) : WildMap :=
  (List.range 100).foldl (fun m coordIndex =>
    let area := i * 100 + coordIndex
    m.updateArea (start area) (insert area) grows area (resourceCoord coordIndex) curTime) m

def updateType (resourceType : UInt8) (grows : Coord → Bool) (i : ℕ)
    (resourceCoord : ℕ → List Coord) (curTime : Int) (m : WildMap) : WildMap :=
  m.update (fun area => Areas.setResource area (NearBy.setArea area))
    (fun area c => Areas.setResource area (NearBy.insert c.key resourceType))
    grows i resourceCoord curTime

def updateWood (random : Coord → ℕ) : ℕ → (ℕ → List Coord) → Int → WildMap → WildMap :=
  updateType 3 fun c => random c % 2 = 0

def updateStone (random : Coord → ℕ) : ℕ → (ℕ → List Coord) → Int → WildMap → WildMap :=
  updateType 4 fun c => random c % 2 = 0

def updateIron : ℕ → (ℕ → List Coord) → Int → WildMap → WildMap := updateType 5 fun _ => true

def updateMonstor (i : ℕ) (resourceCoord : ℕ → List Coord) (curTime : Int) (m : WildMap) :
    WildMap :=
  m.update (fun area => Areas.setMonster area (NearBy.setArea area))
    (fun area c => Areas.setMonster area (NearBy.insert c.key ()))
    (fun _ => true) i resourceCoord curTime

end WildMap

/-! ## A pass -/

inductive Growth
  | wood (random : Coord → ℕ)
  | stone (random : Coord → ℕ)
  | iron
  | monstor

namespace Growth

def checktype : Growth → UInt8
  | wood _ => 3
  | stone _ => 4
  | iron => 5
  | monstor => 2

def grows : Growth → Coord → Bool
  | wood random, c => random c % 2 = 0
  | stone random, c => random c % 2 = 0
  | iron, _ => true
  | monstor, _ => true

def update : Growth → ℕ → (ℕ → List Coord) → Int → WildMap → WildMap
  | wood random => WildMap.updateWood random
  | stone random => WildMap.updateStone random
  | iron => WildMap.updateIron
  | monstor => WildMap.updateMonstor

end Growth

/-- A call of `check_remain_coord` with the call that follows it in `update_resource`. -/
structure Season where
  growth : Growth
  i : Fin 64
  curTime : Int

def updateResource (i : Fin 64) (wood stone : Coord → ℕ) (updateTime : Int) : List Season :=
  [⟨.wood wood, i, updateTime⟩, ⟨.stone stone, i, updateTime⟩, ⟨.iron, i, updateTime⟩,
    ⟨.monstor, i, updateTime⟩]

namespace WildMap

def after (m : WildMap) (e : Season) : WildMap :=
  e.growth.update e.i (checkRemainCoord m.worldPosition e.growth.checktype e.i) e.curTime m

def step (m : WildMap) (e : Season) : Option WildMap := some (m.after e)

/-- The cells that are marked are those that have got an entry, and no other one has changed. -/
def Marks (m : WildMap) (e : Season) : Prop :=
  ∃ cells, (m.after e).added = m.added ++ cells ∧ ∀ row column,
    (m.after e).worldPosition row column =
      if ⟨column, row⟩ ∈ cells then 0xff else m.worldPosition row column

structure Due (m : WildMap) (e : Season) (c : Coord) : Prop where
  onMap : c.x < 640
  area : c.area / 100 = e.i
  type : m.worldPosition c.y c.x = e.growth.checktype
  grows : e.growth.grows c = true

def Symmetric (m : WildMap) (e : Season) : Prop := ∀ c, m.Due e c → m.Due e c.swap

/-! ## Which cells are due -/

theorem mem_checkRemainCoord {worldPosition : Grid ℕ ℕ UInt8} {checktype : UInt8} {i k : ℕ}
    {c : Coord} : c ∈ checkRemainCoord worldPosition checktype i k ↔
      c.x / 8 = (i * 100 + k) % 80 ∧ c.y / 8 = (i * 100 + k) / 80 ∧
        worldPosition c.y c.x = checktype := by
  have hrange : ∀ a n, a ∈ List.range' (n * 8) 8 ↔ a / 8 = n := by
    intro a n
    rw [List.mem_range'_1]
    omega
  unfold checkRemainCoord
  simp only [List.mem_flatMap, List.mem_map, List.mem_filter, hrange]
  constructor
  · rintro ⟨row, hrow, column, ⟨hcolumn, htype⟩, rfl⟩
    exact ⟨hcolumn, hrow, of_decide_eq_true htype⟩
  · rintro ⟨hcolumn, hrow, htype⟩
    exact ⟨c.y, hrow, c.x, ⟨hcolumn, decide_eq_true htype⟩, rfl⟩

theorem nodup_checkRemainCoord (worldPosition : Grid ℕ ℕ UInt8) (checktype : UInt8) (i k : ℕ) :
    (checkRemainCoord worldPosition checktype i k).Nodup := by
  unfold checkRemainCoord
  have hrange : ∀ n, (List.range' (n * 8) 8).Nodup := fun n => List.nodup_range'
  refine List.nodup_flatMap.mpr ⟨fun row _ => ?_, ?_⟩
  · refine ((hrange _).filter _).map ?_
    exact fun a b hab => congrArg Coord.x hab
  · refine (hrange _).imp fun {row row'} hne c hc hc' => ?_
    obtain ⟨column, -, rfl⟩ := List.mem_map.mp hc
    obtain ⟨column', -, heq⟩ := List.mem_map.mp hc'
    exact hne (congrArg Coord.y heq).symm

def dueCells (m : WildMap) (e : Season) : List Coord :=
  (List.range 100).flatMap fun k =>
    (checkRemainCoord m.worldPosition e.growth.checktype e.i k).filter e.growth.grows

theorem area_of_mem {worldPosition : Grid ℕ ℕ UInt8} {checktype : UInt8} {i k : ℕ} {c : Coord}
    (hc : c ∈ checkRemainCoord worldPosition checktype i k) : c.area = i * 100 + k := by
  obtain ⟨hx, hy, -⟩ := mem_checkRemainCoord.mp hc
  rw [Coord.area, hx, hy, Nat.mul_comm]
  exact Nat.div_add_mod (i * 100 + k) 80

theorem mem_dueCells {m : WildMap} {e : Season} {c : Coord} : c ∈ m.dueCells e ↔ m.Due e c := by
  unfold dueCells
  simp only [List.mem_flatMap, List.mem_range, List.mem_filter]
  constructor
  · rintro ⟨k, hk, hc, hgrows⟩
    have harea := area_of_mem hc
    obtain ⟨hx, -, htype⟩ := mem_checkRemainCoord.mp hc
    refine ⟨?_, ?_, htype, hgrows⟩
    · omega
    · rw [harea]
      omega
  · rintro ⟨hx, harea, htype, hgrows⟩
    refine ⟨c.area % 100, Nat.mod_lt _ (by decide), ?_, hgrows⟩
    refine mem_checkRemainCoord.mpr ⟨?_, ?_, htype⟩
    all_goals
      rw [← harea, Nat.div_add_mod']
      unfold Coord.area
      omega

theorem nodup_dueCells (m : WildMap) (e : Season) : (m.dueCells e).Nodup := by
  refine List.nodup_flatMap.mpr ⟨fun k _ => ?_, ?_⟩
  · exact (nodup_checkRemainCoord _ _ _ _).filter _
  · refine List.nodup_range.imp fun {k k'} hne c hc hc' => hne ?_
    have harea := area_of_mem (List.mem_filter.mp hc).1
    rw [area_of_mem (List.mem_filter.mp hc').1] at harea
    exact (Nat.add_left_cancel harea).symm

/-! ## What a pass does -/

structure Grown (m t : WildMap) (cells : List Coord) : Prop where
  worldPosition : t.worldPosition = m.worldPosition.mark (cells.map fun c => (c.x, c.y)) 0xff
  added : t.added = m.added ++ cells

theorem Grown.refl (m : WildMap) (areas : Areas) : Grown m { m with areas } [] :=
  ⟨rfl, (List.append_nil _).symm⟩

theorem Grown.trans {m t u : WildMap} {cells cells' : List Coord} (h : Grown m t cells)
    (h' : Grown t u cells') : Grown m u (cells ++ cells') := by
  constructor
  · rw [h'.worldPosition, h.worldPosition, List.map_append, Grid.mark_append]
  · rw [h'.added, h.added, List.append_assoc]

theorem grown_foldl (insert : Coord → Areas → Areas) (grows : Coord → Bool) (coords : List Coord)
    (m : WildMap) :
    Grown m (coords.foldl (fun m c => if grows c then m.grow insert c else m) m)
      (coords.filter grows) := by
  induction coords generalizing m with
  | nil => exact .refl m m.areas
  | cons c coords ih =>
    rw [List.foldl_cons, List.filter_cons]
    split_ifs
    · have hone : Grown m (m.grow insert c) [c] := ⟨rfl, rfl⟩
      exact hone.trans (ih _)
    · exact ih m

theorem grown_updateArea (start : Areas → Areas) (insert : Coord → Areas → Areas)
    (grows : Coord → Bool) (area : ℕ) (coords : List Coord) (curTime : Int) (m : WildMap) :
    Grown m (m.updateArea start insert grows area coords curTime) (coords.filter grows) := by
  have hstart := Grown.refl m (start m.areas)
  have hcells := hstart.trans (grown_foldl insert grows coords { m with areas := start m.areas })
  unfold updateArea
  dsimp only
  split_ifs
  · exact ⟨hcells.worldPosition, hcells.added⟩
  · exact hcells

theorem grown_update (start : ℕ → Areas → Areas) (insert : ℕ → Coord → Areas → Areas)
    (grows : Coord → Bool) (i : ℕ) (resourceCoord : ℕ → List Coord) (curTime : Int) (m : WildMap) :
    Grown m (m.update start insert grows i resourceCoord curTime)
      ((List.range 100).flatMap fun k => (resourceCoord k).filter grows) := by
  unfold update
  induction List.range 100 generalizing m with
  | nil => exact .refl m m.areas
  | cons k ks ih =>
    rw [List.foldl_cons, List.flatMap_cons]
    exact (grown_updateArea _ _ grows _ _ curTime m).trans (ih _)

theorem growth_update_eq (growth : Growth) : ∃ start insert, ∀ i resourceCoord curTime m,
    growth.update i resourceCoord curTime m =
      WildMap.update start insert growth.grows i resourceCoord curTime m := by
  cases growth with
  | wood random => exact ⟨_, _, fun i resourceCoord curTime m => by
      rw [Growth.update, updateWood, updateType]; rfl⟩
  | stone random => exact ⟨_, _, fun i resourceCoord curTime m => by
      rw [Growth.update, updateStone, updateType]; rfl⟩
  | iron => exact ⟨_, _, fun i resourceCoord curTime m => by
      rw [Growth.update, updateIron, updateType]; rfl⟩
  | monstor => exact ⟨_, _, fun i resourceCoord curTime m => by
      rw [Growth.update, updateMonstor]; rfl⟩

theorem grown_after (m : WildMap) (e : Season) : Grown m (m.after e) (m.dueCells e) := by
  obtain ⟨start, insert, hupdate⟩ := growth_update_eq e.growth
  rw [after, hupdate]
  exact grown_update _ _ _ _ _ _ m

def place (c : Coord) : ℕ × ℕ := (c.y, c.x)

theorem mem_map_place {cells : List Coord} {row column : ℕ} :
    (row, column) ∈ cells.map place ↔ ⟨column, row⟩ ∈ cells := by
  refine List.mem_map.trans ⟨?_, fun hmem => ⟨⟨column, row⟩, hmem, rfl⟩⟩
  rintro ⟨⟨x, y⟩, hc, heq⟩
  obtain ⟨rfl, rfl⟩ := Prod.mk.inj heq
  exact hc

theorem Due.unmarked {m : WildMap} {e : Season} {c : Coord} (h : m.Due e c) :
    m.worldPosition c.y c.x ≠ 0xff := by
  rw [h.type]
  cases e.growth with
  | wood random => exact (by decide : (3 : UInt8) ≠ 0xff)
  | stone random => exact (by decide : (4 : UInt8) ≠ 0xff)
  | iron => exact (by decide : (5 : UInt8) ≠ 0xff)
  | monstor => exact (by decide : (2 : UInt8) ≠ 0xff)

theorem marks_iff_mark (m : WildMap) (e : Season) :
    m.Marks e ↔
      (m.after e).worldPosition = m.worldPosition.mark ((m.dueCells e).map place) 0xff := by
  have hadded := (grown_after m e).added
  constructor
  · rintro ⟨cells, hcells, hmark⟩
    obtain rfl : cells = m.dueCells e := List.append_cancel_left (hcells.symm.trans hadded)
    funext row column
    rw [hmark, Grid.mark_apply]
    simp only [mem_map_place]
  · intro hmark
    refine ⟨m.dueCells e, hadded, fun row column => ?_⟩
    rw [hmark, Grid.mark_apply]
    simp only [mem_map_place]

theorem marks_iff (m : WildMap) (e : Season) : m.Marks e ↔ m.Symmetric e := by
  have hswap : ((m.dueCells e).map fun c => (c.x, c.y)) =
      ((m.dueCells e).map place).map Prod.swap := by
    rw [List.map_map]
    rfl
  have hunmarked : ∀ p ∈ (m.dueCells e).map place, m.worldPosition p.1 p.2 ≠ 0xff := by
    rintro ⟨row, column⟩ hp
    exact (mem_dueCells.mp (mem_map_place.mp hp)).unmarked
  rw [marks_iff_mark, (grown_after m e).worldPosition, hswap, Grid.mark_swap_iff hunmarked]
  constructor
  · intro hclosed c hc
    have hmem := hclosed (place c) (List.mem_map_of_mem (mem_dueCells.mpr hc))
    exact mem_dueCells.mp (mem_map_place.mp hmem)
  · rintro hsymmetric ⟨row, column⟩ hp
    have hdue := hsymmetric _ (mem_dueCells.mp (mem_map_place.mp hp))
    exact mem_map_place.mpr (mem_dueCells.mpr hdue)

/-! ## Pass after pass -/

structure Marked (m : WildMap) : Prop where
  nodup : m.added.Nodup
  marked : ∀ c ∈ m.added, m.worldPosition c.y c.x = 0xff

theorem Marked.after {m : WildMap} {e : Season} (h : m.Marked) (hmarks : m.Marks e) :
    (m.after e).Marked := by
  have hadded := (grown_after m e).added
  have hworld := (marks_iff_mark m e).mp hmarks
  constructor
  · rw [hadded]
    refine List.nodup_append.mpr ⟨h.nodup, nodup_dueCells m e, ?_⟩
    rintro c hc d hd rfl
    exact (mem_dueCells.mp hd).unmarked (h.marked c hc)
  · intro c hc
    rw [hadded] at hc
    rw [hworld, Grid.mark_apply]
    rcases List.mem_append.mp hc with hc | hc
    · rw [h.marked c hc, ite_self]
    · exact if_pos (mem_map_place.mpr hc)

/-- The passes mark what they have filled, and no cell is filled twice, exactly when they find
nothing but cells that come with their mirror images. -/
theorem marks_run_iff {m : WildMap} (h : m.added = []) (es : List Season) :
    Run.EachEvent step Marks m es ∧ Run.Always step (fun m => m.added.Nodup) m es ↔
      Run.EachEvent step Symmetric m es := by
  have hcongr : Run.EachEvent step Marks m es ↔ Run.EachEvent step Symmetric m es :=
    Run.eachEvent_congr (I := fun _ => True) (fun _ _ _ _ _ => trivial)
      (fun m e _ => marks_iff m e) trivial es
  have hstart : m.Marked := by
    refine ⟨h ▸ List.nodup_nil, fun c hc => ?_⟩
    rw [h] at hc
    exact absurd hc List.not_mem_nil
  rw [← hcongr]
  refine ⟨And.left, fun hmarks => ⟨hmarks, ?_⟩⟩
  have hrun := Run.always_of_eachEvent (I := Marked)
    (fun m e hm he => ⟨m.after e, rfl, hm.after he⟩) hstart hmarks
  exact hrun.2.mono fun _ hm => hm.nodup

theorem marks_run_iff_pass :
    Run.EachEvent step Marks ⟨fun _ _ => 3, {}, []⟩ (updateResource 0 (fun _ => 0) (fun _ => 1) 7) ∧
        Run.Always step (fun m => m.added.Nodup) ⟨fun _ _ => 3, {}, []⟩
          (updateResource 0 (fun _ => 0) (fun _ => 1) 7) ↔
      Run.EachEvent step Symmetric ⟨fun _ _ => 3, {}, []⟩
        (updateResource 0 (fun _ => 0) (fun _ => 1) 7) :=
  marks_run_iff rfl _

def grove : WildMap where
  worldPosition row column := if row = 1 ∧ column = 0 then 3 else 0

def spring : Season := ⟨.wood fun _ => 0, 0, 7⟩

theorem grove_due {c : Coord} : grove.Due spring c ↔ c = ⟨0, 1⟩ := by
  constructor
  · rintro ⟨-, -, htype, -⟩
    by_contra hne
    have hcell : ¬ (c.y = 1 ∧ c.x = 0) := by
      rintro ⟨hy, hx⟩
      exact hne (by rw [← hx, ← hy])
    have hzero : grove.worldPosition c.y c.x = 0 := if_neg hcell
    exact absurd (hzero.symm.trans htype) (by decide : (0 : UInt8) ≠ 3)
  · rintro rfl
    exact ⟨by decide, by decide, rfl, rfl⟩

/-- The wood is not marked, but a cell where there is none, and it grows again in the next pass. -/
theorem not_marks_grove :
    ¬ grove.Marks spring ∧ ¬ ((grove.after spring).after spring).added.Nodup := by
  have hfirst : (⟨0, 1⟩ : Coord) ∈ grove.dueCells spring := mem_dueCells.mpr (grove_due.mpr rfl)
  constructor
  · rw [marks_iff]
    intro hsymmetric
    have hmirror := grove_due.mp (hsymmetric _ (grove_due.mpr rfl))
    exact absurd (congrArg Coord.x hmirror) (by decide)
  · obtain ⟨hworld, hadded⟩ := grown_after grove spring
    have hsecond : (⟨0, 1⟩ : Coord) ∈ (grove.after spring).dueCells spring := by
      refine mem_dueCells.mpr ⟨by decide, by decide, ?_, rfl⟩
      have hnot : (1, 0) ∉ (grove.dueCells spring).map fun c => (c.x, c.y) := by
        intro hmem
        obtain ⟨c, hc, heq⟩ := List.mem_map.mp hmem
        rw [grove_due.mp (mem_dueCells.mp hc)] at heq
        exact absurd (congrArg Prod.fst heq) (by decide)
      rw [hworld, Grid.mark_apply, if_neg hnot]
      rfl
    rw [(grown_after (grove.after spring) spring).added, hadded]
    intro hnodup
    exact (List.nodup_append.mp hnodup).2.2 _ (List.mem_append_right _ hfirst) _ hsecond rfl

end WildMap

end IceBridge.Worldmap
