import IceBridge.Lib.Inverse
import IceBridge.Worldmap.Free
import Mathlib.Data.List.TakeWhile
import Mathlib.Data.List.Perm.Subperm

/-! The cities of the players: the hash `worldmap` by cell, and the coordinates by player. The
old city of a player who moves is looked up under a field that nobody writes, and stays. -/

namespace IceBridge.Worldmap

theorem toShort_of_nonneg {n : Int} (h : 0 ≤ n) (hlt : n < 640) : toShort n = n := by
  unfold toShort
  rw [Int.bmod_def]
  split_ifs <;> omega

theorem cell_key {c : Cell} (h : OnMap c) : cell (key c) = c := by
  obtain ⟨x, y⟩ := c
  obtain ⟨hx, hx', hy, hy'⟩ := h
  have hdiv : key (x, y) / 65536 = x := by
    simp only [key] at *
    omega
  have hmod : key (x, y) % 65536 = y := by
    simp only [key] at *
    omega
  rw [cell, hdiv, hmod, toShort_of_nonneg hx hx', toShort_of_nonneg hy hy']

namespace Redis
variable {r : Redis} {u : UInt32} {c : Cell}

def Inverse (r : Redis) : Prop := ∀ u c, r.worldmap.lookup c = some u ↔
  r.user u "coord#x" = some c.1 ∧ r.user u "coord#y" = some c.2

def HasCity (r : Redis) (u : UInt32) : Prop :=
  ∃ c : Cell, r.user u "coord#x" = some c.1 ∧ r.user u "coord#y" = some c.2

theorem addNewPlayer_of_coords (h : r.coords u = none) :
    (r.addNewPlayer c u).worldmap = r.worldmap.insert c u := by
  simp [addNewPlayer, h]

theorem addNewPlayer_user (v : UInt32) (field : String) :
    (r.addNewPlayer c u).user v field =
      if v = u then
        if field = "coord#y" then some c.2
        else if field = "coord#x" then some c.1 else r.user u field
      else r.user v field := by
  by_cases hv : v = u
  · subst hv
    simp [addNewPlayer, Function.update_apply]
  · simp [addNewPlayer, hv]

def city (r : Redis) (u : UInt32) : Option Cell :=
  (r.user u "coord#x").bind fun x => (r.user u "coord#y").map fun y => (x, y)

theorem city_eq_some_iff : r.city u = some c ↔
    r.user u "coord#x" = some c.1 ∧ r.user u "coord#y" = some c.2 := by
  unfold city
  rw [Option.bind_eq_some_iff]
  constructor
  · rintro ⟨x, hx, hc⟩
    obtain ⟨y, hy, rfl⟩ := Option.map_eq_some_iff.mp hc
    exact ⟨hx, hy⟩
  · rintro ⟨hx, hy⟩
    exact ⟨c.1, hx, Option.map_eq_some_iff.mpr ⟨c.2, hy, rfl⟩⟩

theorem inverse_iff : r.Inverse ↔ Table.Inverse r.city r.worldmap.lookup := by
  refine forall₂_congr fun u c => ?_
  rw [city_eq_some_iff]
  exact iff_comm

theorem not_hasCity_iff : ¬ r.HasCity u ↔ r.city u = none := by
  rw [Option.eq_none_iff_forall_ne_some, HasCity, not_exists]
  exact forall_congr' fun c => not_congr city_eq_some_iff.symm

theorem addNewPlayer_city :
    (r.addNewPlayer c u).city = Function.update r.city u (some c) := by
  funext v
  by_cases hv : v = u
  · subst hv
    rw [Function.update_self, city_eq_some_iff]
    simp [addNewPlayer_user]
  · rw [Function.update_of_ne hv]
    simp [city, addNewPlayer_user, hv]

theorem addNewPlayer_lookup (h : r.coords u = none) :
    (r.addNewPlayer c u).worldmap.lookup = Function.update r.worldmap.lookup c (some u) := by
  funext d
  rw [addNewPlayer_of_coords h]
  by_cases hd : d = c
  · subst hd
    rw [AList.lookup_insert, Function.update_self]
  · rw [AList.lookup_insert_ne hd, Function.update_of_ne hd]

theorem inverse_addNewPlayer_iff (h : r.Inverse) (hcoords : r.coords u = none)
    (hc : r.worldmap.lookup c = none) : (r.addNewPlayer c u).Inverse ↔ ¬ r.HasCity u := by
  rw [inverse_iff, addNewPlayer_city, addNewPlayer_lookup hcoords, not_hasCity_iff]
  exact Table.Inverse.update_iff (inverse_iff.mp h) hc

/-- What redis has before the worker starts: the cities are on the map, and the field that the
worker reads has never been written. -/
structure Consistent (r : Redis) : Prop where
  inverse : r.Inverse
  onMap : ∀ c ∈ r.worldmap, OnMap c
  unwritten : ∀ u, r.user u "coodrd#y" = none

end Redis

inductive CityEvent
  | randomNewMap (uuid random : UInt32)
  | randomMoveCity (uuid random : UInt32)
  | settleMoveCity (c : Cell) (uuid : UInt32)

namespace WorldMap

def cityStep (w : WorldMap) : CityEvent → Option WorldMap
  | .randomNewMap uuid random => some (w.randomNewMap uuid random).1
  | .randomMoveCity uuid random => some (w.randomMoveCity uuid random).1
  | .settleMoveCity c uuid => (w.settleMoveCity c uuid).map Prod.fst

def FirstCity (w : WorldMap) : CityEvent → Prop
  | .randomNewMap uuid _ | .randomMoveCity uuid _ => w.mapKey ≠ [] → ¬ w.redis.HasCity uuid
  | .settleMoveCity .. => True

structure Ready (w : WorldMap) : Prop where
  inverse : w.redis.Inverse
  unwritten : ∀ u, w.redis.user u "coodrd#y" = none
  free : ∀ k ∈ w.mapKey, w.redis.worldmap.lookup (cell k) = none
  once : (w.mapKey.map cell).Nodup

variable {w t : WorldMap} {u random : UInt32}

theorem Ready.coords (h : w.Ready) (u : UInt32) : w.redis.coords u = none := by
  unfold Redis.coords
  rw [h.unwritten u]
  split
  · next heq => exact absurd heq (by simp)
  · rfl

theorem Ready.returned (h : w.Ready) (u : UInt32) : w.returned u = w := by
  simp [WorldMap.returned, Redis.getPlayerWorldinfo, h.coords u]

theorem draw_redis {i : ℕ} {k : Int} (h : w.draw i = some (k, t)) : t.redis = w.redis := by
  unfold draw at h
  obtain ⟨_, -, h⟩ := Option.bind_eq_some_iff.mp h
  obtain ⟨_, -, h⟩ := Option.bind_eq_some_iff.mp h
  split_ifs at h
  · obtain ⟨-, rfl⟩ := Prod.mk.inj (Option.some.inj h)
    rfl
  · obtain ⟨-, rfl⟩ := Prod.mk.inj (Option.some.inj h)
    rfl

theorem Ready.draw (h : w.Ready) {i : ℕ} {k : Int} (hd : w.draw i = some (k, t)) :
    k ∈ w.mapKey ∧ (t.mapKey.map cell).Nodup ∧
      ∀ d ∈ t.mapKey.map cell, d ∈ w.mapKey.map cell ∧ d ≠ cell k := by
  obtain ⟨last, hk, hlast, hkeys, -⟩ := Ledger.draw_eq_some hd
  refine ⟨List.mem_of_getElem? hk, ?_⟩
  by_cases hone : w.mapKey.length = 1
  · rw [hkeys, if_pos hone]
    exact ⟨List.nodup_nil, fun d hd => absurd hd List.not_mem_nil⟩
  · have hcellk : (w.mapKey.map cell)[i]? = some (cell k) := by simp [hk]
    have hcelllast : (w.mapKey.map cell)[(w.mapKey.map cell).length - 1]? = some (cell last) := by
      simp [hlast]
    rw [hkeys, if_neg hone, Index.map_moveLast]
    exact ⟨Index.nodup_moveLast h.once hcellk hcelllast,
      fun d hd => (Index.mem_moveLast_iff h.once hcellk hcelllast d).mp hd⟩

theorem ready_range (h : w.Ready) (ht : (w.getRangePosition u random).1 = t) :
    (t.redis.Inverse ↔ (w.mapKey ≠ [] → ¬ w.redis.HasCity u)) ∧ (t.redis.Inverse → t.Ready) := by
  unfold getRangePosition at ht
  cases hd : w.drawn u random with
  | none =>
    have hempty := Ledger.drawn_eq_none hd
    rw [h.returned] at hempty
    simp only [hd, h.returned] at ht
    subst ht
    exact ⟨iff_of_true h.inverse fun hne => absurd hempty hne, fun _ => h⟩
  | some d =>
    obtain ⟨k, w'⟩ := d
    simp only [hd] at ht
    subst ht
    -- no old cell is given back, as `coodrd#y` is never found
    rw [drawn, h.returned] at hd
    obtain ⟨hk, honce, hleft⟩ := h.draw hd
    have hredis := draw_redis hd
    have hne : w.mapKey ≠ [] := List.ne_nil_of_mem hk
    have hiff := Redis.inverse_addNewPlayer_iff h.inverse (h.coords u) (h.free k hk)
    simp only [hredis]
    refine ⟨hiff.trans ⟨fun hcity _ => hcity, fun hcity => hcity hne⟩, fun hinverse => ?_⟩
    refine ⟨hinverse, fun v => ?_, fun k' hk' => ?_, honce⟩
    · show (w.redis.addNewPlayer (cell k) u).user v "coodrd#y" = none
      rw [Redis.addNewPlayer_user]
      by_cases hv : v = u
      · simp [hv, h.unwritten u]
      · simp [hv, h.unwritten v]
    · obtain ⟨hold, hother⟩ := hleft (cell k') (List.mem_map_of_mem hk')
      obtain ⟨k'', hk'', heq⟩ := List.mem_map.mp hold
      show (w.redis.addNewPlayer (cell k) u).worldmap.lookup (cell k') = none
      rw [Redis.addNewPlayer_of_coords (h.coords u), AList.lookup_insert_ne hother, ← heq]
      exact h.free k'' hk''

theorem ready_cityStep (h : w.Ready) {e : CityEvent} (ht : w.cityStep e = some t) :
    (t.redis.Inverse ↔ w.FirstCity e) ∧ (t.redis.Inverse → t.Ready) := by
  cases e with
  | randomNewMap uuid random =>
    obtain rfl := Option.some.inj ht
    exact ready_range h rfl
  | randomMoveCity uuid random =>
    obtain rfl := Option.some.inj ht
    exact ready_range h rfl
  | settleMoveCity c uuid =>
    -- without the old coordinates the request is refused
    have hplayer : w.redis.getPlayerWorldinfo uuid = none := by
      simp [Redis.getPlayerWorldinfo, h.coords uuid]
    have hnothing : w.cityStep (.settleMoveCity c uuid) = some w := by
      simp [cityStep, settleMoveCity, getSettlePosition, hplayer]
    obtain rfl := Option.some.inj (hnothing.symm.trans ht)
    exact ⟨iff_of_true h.inverse trivial, fun _ => h⟩

theorem Ready.always_iff (h : w.Ready) (es : List CityEvent) :
    Run.Always cityStep (fun w => w.redis.Inverse) w es ↔ Run.EachStep cityStep FirstCity w es := by
  refine Run.always_iff_eachStep_of_kept (J := Ready) (fun w hw => hw.inverse) ?_ ?_ h es
  · intro w e t hw ht hfirst
    obtain ⟨hiff, hready⟩ := ready_cityStep hw ht
    exact hready (hiff.mpr hfirst)
  · intro w e t hw ht hnot hinverse
    exact hnot ((ready_cityStep hw ht).1.mp hinverse)

theorem addAll_mapKey (w : WorldMap) (cs : List Cell) :
    (cs.foldl addNewPositionToMap w).mapKey = w.mapKey ++ cs.map key ∧
      (cs.foldl addNewPositionToMap w).redis = w.redis := by
  induction cs generalizing w with
  | nil => simp
  | cons c cs ih =>
    obtain ⟨hkeys, hredis⟩ := ih (w.addNewPositionToMap c)
    rw [List.foldl_cons, hkeys, hredis]
    simp [addNewPositionToMap]

theorem start_mapKey (redis : Redis) : (start redis).mapKey = (freeCells redis).map key := by
  have hkeys := (addAll_mapKey { redis } (freeCells redis)).1
  rwa [← start, List.nil_append] at hkeys

theorem start_redis (redis : Redis) : (start redis).redis = redis := by
  have hredis := (addAll_mapKey { redis } (freeCells redis)).2
  rwa [← start] at hredis

theorem lookup_freeCell {redis : Redis} (h : redis.Consistent) {c : Cell}
    (hc : c ∈ freeCells redis) : redis.worldmap.lookup c = none := by
  obtain ⟨i, -, hc⟩ := List.mem_flatMap.mp hc
  obtain ⟨j, -, hc⟩ := List.mem_filterMap.mp hc
  simp only [Option.ite_none_right_eq_some, Option.some.injEq] at hc
  obtain ⟨hsix, rfl⟩ := hc
  have hread : redis.worldmap.keys.takeWhile (fun c => decide (OnMap c)) = redis.worldmap.keys := by
    rw [List.takeWhile_eq_self_iff]
    intro d hd
    simpa using h.onMap d (AList.mem_keys.mpr hd)
  rw [AList.lookup_eq_none, AList.mem_keys]
  intro hmem
  rw [worldPosition, hread, if_pos hmem] at hsix
  exact absurd hsix (by decide)

theorem ready_start {redis : Redis} (h : redis.Consistent) : (start redis).Ready := by
  have hcells : (start redis).mapKey.map cell = freeCells redis := by
    rw [start_mapKey, List.map_map]
    exact (List.map_congr_left fun c hc => cell_key (Ledger.onMap_of_mem_freeCells hc)).trans
      (List.map_id _)
  refine ⟨?_, ?_, fun k hk => ?_, ?_⟩
  · rw [start_redis]
    exact h.inverse
  · rw [start_redis]
    exact h.unwritten
  · rw [start_redis]
    exact lookup_freeCell h (hcells ▸ List.mem_map_of_mem hk)
  · rw [hcells]
    exact Ledger.nodup_freeCells redis

/-- On any run of placements and moves the cells and the coordinates stay inverse exactly when
nobody is given a cell who has a city already. -/
theorem inverse_run_iff {redis : Redis} (h : redis.Consistent) (es : List CityEvent) :
    Run.Always cityStep (fun w => w.redis.Inverse) (start redis) es ↔
      Run.EachStep cityStep FirstCity (start redis) es :=
  (ready_start h).always_iff es

theorem consistent_empty : Redis.Consistent {} where
  inverse u c := by simp
  onMap c hc := absurd hc (AList.notMem_empty c)
  unwritten _ := rfl

theorem consistent_one : Redis.Consistent (Redis.addNewPlayer {} (8, 0) 3) where
  inverse := by
    refine (Redis.inverse_addNewPlayer_iff consistent_empty.inverse rfl rfl).mpr ?_
    rintro ⟨c, hc, -⟩
    cases hc
  onMap c hc := by
    rw [Redis.addNewPlayer_of_coords rfl, AList.mem_insert] at hc
    obtain rfl := hc.resolve_right (AList.notMem_empty c)
    decide
  unwritten u := by
    rw [Redis.addNewPlayer_user]
    split_ifs <;> first | rfl | contradiction

theorem inverse_run_moves :
    Run.Always cityStep (fun w => w.redis.Inverse) (start (Redis.addNewPlayer {} (8, 0) 3))
        [.randomNewMap 7 0, .randomMoveCity 8 3, .randomMoveCity 7 5] ↔
      Run.EachStep cityStep FirstCity (start (Redis.addNewPlayer {} (8, 0) 3))
        [.randomNewMap 7 0, .randomMoveCity 8 3, .randomMoveCity 7 5] :=
  inverse_run_iff consistent_one _

theorem getRangePosition_of_ready (h : w.Ready) (hne : w.mapKey ≠ []) :
    (w.getRangePosition u random).1.mapKey.length + 1 = w.mapKey.length ∧
      (w.getRangePosition u random).1.redis.HasCity u := by
  unfold getRangePosition
  cases hd : w.drawn u random with
  | none =>
    have hempty := Ledger.drawn_eq_none hd
    rw [h.returned] at hempty
    exact absurd hempty hne
  | some d =>
    obtain ⟨k, w'⟩ := d
    rw [drawn, h.returned] at hd
    obtain ⟨last, -, -, hkeys, -⟩ := Ledger.draw_eq_some hd
    have hpos := List.length_pos_of_ne_nil hne
    constructor
    · show w'.mapKey.length + 1 = w.mapKey.length
      rw [hkeys]
      split_ifs with hone
      · exact hone.symm
      · simp only [Index.moveLast, List.length_dropLast, List.length_set]
        omega
    · refine ⟨cell k, ?_, ?_⟩ <;> simp [Redis.addNewPlayer_user]

theorem Ready.not_firstCity_twice (h : w.Ready) (hlen : 2 ≤ w.mapKey.length) :
    ¬ Run.EachStep cityStep FirstCity w [.randomNewMap u random, .randomMoveCity u random] := by
  intro hfirst
  have hne : w.mapKey ≠ [] := List.ne_nil_of_length_pos (by omega)
  obtain ⟨hless, hcity⟩ : (w.randomNewMap u random).1.mapKey.length + 1 = _ ∧
      (w.randomNewMap u random).1.redis.HasCity u := getRangePosition_of_ready h hne
  have hsecond : FirstCity (w.randomNewMap u random).1 (.randomMoveCity u random) :=
    ((hfirst _ rfl).2 _ rfl).1
  refine hsecond (fun hempty => ?_) hcity
  rw [hempty] at hless
  simp only [List.length_nil] at hless
  omega

/-- The first city of a player who moves is still on the map. -/
theorem not_inverse_moved :
    ¬ ∀ redis : Redis, redis.Consistent → ∀ es,
      Run.Always cityStep (fun w => w.redis.Inverse) (start redis) es := by
  intro hall
  have hready := ready_start consistent_empty
  have hfirst := (hready.always_iff _).mp (hall {} consistent_empty
    [.randomNewMap 7 0, .randomMoveCity 7 0])
  have hlen : 2 ≤ (start {}).mapKey.length := by
    rw [start_mapKey, List.length_map]
    have hsub : [((8 : Int), (0 : Int)), (15, 0)] ⊆ freeCells {} := by
      intro c hc
      refine List.mem_flatMap.mpr ⟨0, by simp, List.mem_filterMap.mpr ⟨c.1.toNat, ?_⟩⟩
      rcases List.mem_pair.mp hc with rfl | rfl <;> exact ⟨by simp, by decide⟩
    have hnodup : [((8 : Int), (0 : Int)), (15, 0)].Nodup := by decide
    exact (List.subperm_of_subset hnodup hsub).length_le
  exact hready.not_firstCity_twice hlen hfirst

end WorldMap

end IceBridge.Worldmap
