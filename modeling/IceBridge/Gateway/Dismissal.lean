import IceBridge.Gateway.Wardrobe

/-! A hero who is dismissed. Those behind him move up, in the memory and in redis. -/

namespace IceBridge.Gateway

def renumbered (heroes : List Hero) : List Hero :=
  heroes.mapIdx fun i h => { h with heroSn := (i : Int) + 1 }

namespace LoginWorker
variable {s : LoginWorker} {heroes : List Hero} {h : Hero} {i : ℕ}

/-- The heroes are in `my_hero` from the first position on, are numbered by their positions, and
are stored as they are. -/
structure Roster (s : LoginWorker) (heroes : List Hero) : Prop where
  length : heroes.length ≤ 6
  myHero : ∀ i, s.player.myHero i = heroes[i]?
  heroSn : ∀ (i : ℕ) h, heroes[i]? = some h → h.heroSn = i + 1
  stored : ∀ h ∈ heroes, s.record.hero.find h.heroUuid = some h

structure Dismissed (s t : LoginWorker) (heroes : List Hero) (i : ℕ) (h : Hero) : Prop where
  roster : t.Roster (renumbered (heroes.eraseIdx i))
  deleted : t.record.hero.find h.heroUuid = none
  slots : ∀ v, t.player.heroEquip v = if v = h.heroUuid then [] else s.player.heroEquip v
  others : ∀ v, v ∉ heroes.map Hero.heroUuid → t.record.hero.find v = s.record.hero.find v

theorem Roster.index_eq {j : ℕ} {g : Hero} (hs : s.Roster heroes) (hg : heroes[i]? = some g)
    (hh : heroes[j]? = some h) (huuid : g.heroUuid = h.heroUuid) : i = j := by
  have hfound := hs.stored g (List.mem_of_getElem? hg)
  rw [huuid, hs.stored h (List.mem_of_getElem? hh)] at hfound
  obtain rfl := Option.some.inj hfound
  have hi := hs.heroSn i h hg
  have hj := hs.heroSn j h hh
  omega

theorem Roster.nodup (hs : s.Roster heroes) : (heroes.map Hero.heroUuid).Nodup := by
  refine List.nodup_iff_injective_getElem.mpr fun i j hij => Fin.ext ?_
  have hi : (i : ℕ) < heroes.length := by simpa using i.isLt
  have hj : (j : ℕ) < heroes.length := by simpa using j.isLt
  refine hs.index_eq (List.getElem?_eq_getElem hi) (List.getElem?_eq_getElem hj) ?_
  simpa using hij

/-! ## Renumbering -/

theorem getElem?_renumbered_eraseIdx (heroes : List Hero) (i k : ℕ) :
    (renumbered (heroes.eraseIdx i))[k]? =
      (if k < i then heroes[k]? else heroes[k + 1]?).map fun h : Hero =>
        { h with heroSn := (k : Int) + 1 } := by
  rw [renumbered, List.getElem?_mapIdx, List.getElem?_eraseIdx]

theorem map_heroUuid_renumbered (heroes : List Hero) :
    (renumbered heroes).map Hero.heroUuid = heroes.map Hero.heroUuid := by
  refine List.ext_getElem? fun i => ?_
  rw [renumbered, List.getElem?_map, List.getElem?_mapIdx, List.getElem?_map, Option.map_map]
  rfl

theorem moveHero_eq_foldl {myHero : ℕ → Option Hero} {l : List Hero} {n : ℕ} (r : Records)
    (hl : ∀ k, myHero (i + k) = l[k]?) (hlength : l.length ≤ n) :
    moveHero myHero (List.range' i n) r = l.foldl Records.setHeroSn r := by
  induction l generalizing i n r with
  | nil =>
    cases n with
    | zero => rfl
    | succ n =>
      rw [List.range'_succ, moveHero, show myHero i = none from hl 0]
      rfl
  | cons h l ih =>
    obtain ⟨n, rfl⟩ : ∃ m, n = m + 1 := ⟨n - 1, by simp at hlength; omega⟩
    rw [List.range'_succ, moveHero, show myHero i = some h from hl 0]
    refine ih (r.setHeroSn h) (fun k => ?_) (by simpa using hlength)
    rw [Nat.add_assoc, Nat.add_comm 1 k]
    exact hl (k + 1)

theorem find_foldl_setHeroSn_of_notMem {l : List Hero} {v : String} (r : Records)
    (hv : v ∉ l.map Hero.heroUuid) :
    (l.foldl Records.setHeroSn r).hero.find v = r.hero.find v := by
  induction l generalizing r with
  | nil => rfl
  | cons g l ih =>
    rw [List.map_cons, List.mem_cons, not_or] at hv
    rw [List.foldl_cons, ih _ hv.2, Records.setHeroSn, Keyspace.find_set,
      Function.update_of_ne hv.1]

theorem find_foldl_setHeroSn {l : List Hero} {old : Hero} (r : Records)
    (hnodup : (l.map Hero.heroUuid).Nodup) (hmem : h ∈ l)
    (hold : r.hero.find h.heroUuid = some old) :
    (l.foldl Records.setHeroSn r).hero.find h.heroUuid =
      some { old with heroSn := h.heroSn } := by
  induction l generalizing r with
  | nil => exact absurd hmem List.not_mem_nil
  | cons g l ih =>
    rw [List.map_cons, List.nodup_cons] at hnodup
    rw [List.foldl_cons]
    rcases List.mem_cons.mp hmem with rfl | hmem
    · rw [find_foldl_setHeroSn_of_notMem _ hnodup.1, Records.setHeroSn, Keyspace.find_set,
        Function.update_self, hold]
      rfl
    · refine ih _ hnodup.2 hmem ?_
      have hne : h.heroUuid ≠ g.heroUuid := by
        intro huuid
        exact hnodup.1 (huuid ▸ List.mem_map_of_mem hmem)
      rw [Records.setHeroSn, Keyspace.find_set, Function.update_of_ne hne, hold]

/-! ## The dismissal -/

theorem Roster.myHero_eq (hs : s.Roster heroes) (i k : ℕ) :
    (if k < i ∨ 5 < k then s.player.myHero k
      else if k = 5 then none
      else (s.player.myHero (k + 1)).map fun h : Hero => { h with heroSn := (k : Int) + 1 }) =
    (renumbered (heroes.eraseIdx i))[k]? := by
  have hlength := hs.length
  rw [getElem?_renumbered_eraseIdx, hs.myHero, hs.myHero]
  by_cases hk : k < i
  · rw [if_pos (.inl hk), if_pos hk]
    cases hg : heroes[k]? with
    | none => rfl
    | some g =>
      rw [← hs.heroSn k g hg]
      rfl
  · rw [if_neg hk]
    by_cases hlast : 5 ≤ k
    · rw [List.getElem?_eq_none (l := heroes) (i := k + 1) (by omega)]
      split_ifs with hbehind
      · exact List.getElem?_eq_none (by omega)
      · rfl
      · omega
    · rw [if_neg (by omega), if_neg (by omega)]

def dropRecords (heroes : List Hero) (i : ℕ) (h : Hero) (r : Records) : Records :=
  ((renumbered (heroes.eraseIdx i)).drop i).foldl Records.setHeroSn (r.delHero h.heroUuid)

theorem length_renumbered (heroes : List Hero) : (renumbered heroes).length = heroes.length :=
  List.length_mapIdx

theorem moveHero_renumbered (hlt : i < heroes.length) (hlength : heroes.length ≤ 6)
    (h : Hero) (r : Records) :
    (if ((i : Int) + 1) < 6 then
        moveHero (fun k => (renumbered (heroes.eraseIdx i))[k]?) ((List.range 6).drop i)
          (r.delHero h.heroUuid)
      else r.delHero h.heroUuid) = dropRecords heroes i h r := by
  have hleft : (renumbered (heroes.eraseIdx i)).length = heroes.length - 1 := by
    rw [length_renumbered, List.length_eraseIdx_of_lt hlt]
  unfold dropRecords
  split_ifs with hlast
  · rw [List.range_eq_range', List.drop_range', Nat.zero_add, Nat.mul_one]
    refine moveHero_eq_foldl _ (fun k => List.getElem?_drop.symm) ?_
    rw [List.length_drop, hleft]
    omega
  · rw [List.drop_eq_nil_of_le (by omega)]
    rfl

theorem Roster.dropHero_eq (hs : s.Roster heroes) (hh : heroes[i]? = some h)
    (hempty : s.player.heroEquip h.heroUuid = []) :
    s.dropHero ((i : Int) + 1) = some {
      worker := (s.setPlayer { s.player with
        myHero := fun k => (renumbered (heroes.eraseIdx i))[k]?
        heroEquip := Function.update s.player.heroEquip h.heroUuid [] }).setRecord
          (dropRecords heroes i h s.record)
      results := [0, -2] } := by
  have hlt : i < heroes.length := (List.getElem?_eq_some_iff.mp hh).1
  have hlength := hs.length
  have hindex : ((i : Int) + 1 - 1).toNat = i := by omega
  unfold dropHero
  rw [if_neg (by omega), if_neg (by omega)]
  dsimp only
  rw [hindex, hs.myHero, hh]
  dsimp only
  rw [if_neg (by rw [hempty]; exact not_not.mpr rfl), ← moveHero_renumbered hlt hlength h s.record]
  simp only [hs.myHero_eq i]

theorem mem_renumbered {g : Hero} {k : ℕ} (hg : (renumbered (heroes.eraseIdx i))[k]? = some g) :
    ∃ old, g = { old with heroSn := (k : Int) + 1 } ∧
      (k < i ∧ heroes[k]? = some old ∨ i ≤ k ∧ heroes[k + 1]? = some old) := by
  rw [getElem?_renumbered_eraseIdx, Option.map_eq_some_iff] at hg
  obtain ⟨old, hold, rfl⟩ := hg
  refine ⟨old, rfl, ?_⟩
  split_ifs at hold with hk
  · exact .inl ⟨hk, hold⟩
  · exact .inr ⟨not_lt.mp hk, hold⟩

theorem Roster.nodup_renumbered (hs : s.Roster heroes) :
    ((renumbered (heroes.eraseIdx i)).map Hero.heroUuid).Nodup := by
  rw [map_heroUuid_renumbered]
  exact hs.nodup.sublist ((List.eraseIdx_sublist heroes i).map Hero.heroUuid)

theorem Roster.notMem_renumbered (hs : s.Roster heroes) (hh : heroes[i]? = some h) :
    h.heroUuid ∉ (renumbered (heroes.eraseIdx i)).map Hero.heroUuid := by
  rw [map_heroUuid_renumbered, List.mem_map]
  rintro ⟨g, hg, huuid⟩
  obtain ⟨j, hne, hj⟩ := List.mem_eraseIdx_iff_getElem?.mp hg
  exact hne (hs.index_eq hj hh huuid)

theorem notMem_drop {v : String} {l : List Hero} (hv : v ∉ l.map Hero.heroUuid) :
    v ∉ (l.drop i).map Hero.heroUuid :=
  fun hmem => hv ((List.drop_sublist i l).map Hero.heroUuid |>.subset hmem)

theorem Roster.stored_dropRecords (hs : s.Roster heroes) (hh : heroes[i]? = some h) {g : Hero}
    (hg : g ∈ renumbered (heroes.eraseIdx i)) :
    (dropRecords heroes i h s.record).hero.find g.heroUuid = some g := by
  obtain ⟨k, hk⟩ := List.mem_iff_getElem?.mp hg
  obtain ⟨old, rfl, hold⟩ := mem_renumbered hk
  have hdeleted : ∀ j, j ≠ i → heroes[j]? = some old →
      (s.record.delHero h.heroUuid).hero.find old.heroUuid = some old := by
    intro j hne hj
    rw [Records.delHero, Keyspace.find_del,
      Function.update_of_ne fun huuid => hne (hs.index_eq hj hh huuid)]
    exact hs.stored old (List.mem_of_getElem? hj)
  unfold dropRecords
  rcases hold with ⟨hbefore, hold⟩ | ⟨hbehind, hold⟩
  · -- before `i` nothing is written
    have hsn : { old with heroSn := (k : Int) + 1 } = old := by rw [← hs.heroSn k old hold]
    rw [hsn] at hk ⊢
    rw [find_foldl_setHeroSn_of_notMem]
    · exact hdeleted k hbefore.ne hold
    · intro hmem
      obtain ⟨g, hg, huuid⟩ := List.mem_map.mp hmem
      obtain ⟨j, hj⟩ := List.mem_iff_getElem?.mp hg
      rw [List.getElem?_drop] at hj
      obtain ⟨old', rfl, ⟨hlt, -⟩ | ⟨-, hold'⟩⟩ := mem_renumbered hj
      · omega
      · have hsame := hs.index_eq hold' hold huuid
        omega
  · refine find_foldl_setHeroSn _ ?_ ?_ (hdeleted (k + 1) (by omega) hold)
    · exact hs.nodup_renumbered.sublist ((List.drop_sublist i _).map Hero.heroUuid)
    · refine List.mem_of_getElem? (i := k - i) ?_
      rw [List.getElem?_drop, Nat.add_sub_cancel' hbehind, hk]

theorem Roster.dismissed (hs : s.Roster heroes) (hh : heroes[i]? = some h)
    (hempty : s.player.heroEquip h.heroUuid = []) :
    ∃ reply, s.dropHero ((i : Int) + 1) = some reply ∧ Dismissed s reply.worker heroes i h := by
  have hlength := hs.length
  refine ⟨_, hs.dropHero_eq hh hempty, ⟨?_, fun k => ?_, ?_, ?_⟩, ?_, ?_, ?_⟩
  · rw [length_renumbered]
    exact (List.eraseIdx_sublist heroes i).length_le.trans hlength
  · rw [player_setRecord, player_setPlayer]
  · intro k g hg
    obtain ⟨old, rfl, -⟩ := mem_renumbered hg
    rfl
  · intro g hg
    rw [record_setRecord]
    exact hs.stored_dropRecords hh hg
  · rw [record_setRecord, dropRecords,
      find_foldl_setHeroSn_of_notMem _ (notMem_drop (hs.notMem_renumbered hh)), Records.delHero,
      Keyspace.find_del, Function.update_self]
  · intro v
    rw [player_setRecord, player_setPlayer]
    exact Function.update_apply _ _ _ _
  · intro v hv
    have hsub : (heroes.eraseIdx i).map Hero.heroUuid ⊆ heroes.map Hero.heroUuid :=
      ((List.eraseIdx_sublist heroes i).map Hero.heroUuid).subset
    have hother : v ∉ (renumbered (heroes.eraseIdx i)).map Hero.heroUuid := by
      rw [map_heroUuid_renumbered]
      exact fun hmem => hv (hsub hmem)
    have hne : v ≠ h.heroUuid := by
      rintro rfl
      exact hv (List.mem_map_of_mem (List.mem_of_getElem? hh))
    rw [record_setRecord, dropRecords, find_foldl_setHeroSn_of_notMem _ (notMem_drop hother),
      Records.delHero, Keyspace.find_del, Function.update_of_ne hne]

theorem dropHero_refused (hs : s.Roster heroes) (hh : heroes[i]? = some h)
    (hslots : s.player.heroEquip h.heroUuid ≠ []) :
    s.dropHero ((i : Int) + 1) = some (s.refuse (-2)) := by
  have hlt : i < heroes.length := (List.getElem?_eq_some_iff.mp hh).1
  have hlength := hs.length
  have hindex : ((i : Int) + 1 - 1).toNat = i := by omega
  unfold dropHero
  rw [if_neg (by omega), if_neg (by omega)]
  dsimp only
  rw [hindex, hs.myHero, hh]
  exact if_pos fun hzero => hslots (List.length_eq_zero_iff.mp hzero)

/-- The request is carried out if the hero wears nothing, and changes nothing otherwise. -/
def DropsUnworn (s : LoginWorker) (heroes : List Hero) (i : ℕ) (h : Hero) : Prop :=
  ∃ reply, s.dropHero ((i : Int) + 1) = some reply ∧
    (NothingWorn (s.player.heroEquip h.heroUuid) → Dismissed s reply.worker heroes i h) ∧
    (¬ NothingWorn (s.player.heroEquip h.heroUuid) → reply.worker = s)

/-- A hero with slots is never let go, whether there is something in them or not. -/
theorem dropsUnworn_iff (hs : s.Roster heroes) (hh : heroes[i]? = some h) :
    s.DropsUnworn heroes i h ↔ s.player.heroEquip h.heroUuid = [] ∨
      ¬ NothingWorn (s.player.heroEquip h.heroUuid) := by
  by_cases hslots : s.player.heroEquip h.heroUuid = []
  · have hunworn : NothingWorn (s.player.heroEquip h.heroUuid) := by
      rw [hslots]
      exact fun _ he => absurd he List.not_mem_nil
    obtain ⟨reply, hreply, hdismissed⟩ := hs.dismissed hh hslots
    exact iff_of_true ⟨reply, hreply, fun _ => hdismissed, fun hworn => absurd hunworn hworn⟩
      (.inl hslots)
  · have hrefused := dropHero_refused hs hh hslots
    rw [or_iff_right hslots]
    constructor
    · rintro ⟨reply, hreply, hdismissed, -⟩ hunworn
      obtain rfl := Option.some.inj (hrefused.symm.trans hreply)
      have hdeleted : s.record.hero.find h.heroUuid = none := (hdismissed hunworn).deleted
      rw [hs.stored h (List.mem_of_getElem? hh)] at hdeleted
      exact Option.some_ne_none h hdeleted
    · exact fun hworn => ⟨_, hrefused, fun hunworn => absurd hunworn hworn, fun _ => rfl⟩

def twoHeroes (slots : List Equip) : LoginWorker :=
  let heroes : List Hero := [⟨"a", 6, 1, 0⟩, ⟨"b", 6, 2, 0⟩]
  { world := { player := fun _ => { myHero := fun i => heroes[i]?, heroEquip := fun _ => slots } }
    records := fun _ => { hero := heroes.foldl (fun r h => r.set h.heroUuid h) .empty } }

theorem roster_twoHeroes (slots : List Equip) :
    (twoHeroes slots).Roster [⟨"a", 6, 1, 0⟩, ⟨"b", 6, 2, 0⟩] := by
  refine ⟨by decide, fun _ => rfl, fun i h hh => ?_, fun h hh => ?_⟩
  · match i with
    | 0 => exact Option.some.inj hh ▸ rfl
    | 1 => exact Option.some.inj hh ▸ rfl
    | _ + 2 => exact absurd hh (by simp)
  · rcases List.mem_pair.mp hh with rfl | rfl <;> rfl

theorem dropsUnworn_no_slots :
    (twoHeroes []).DropsUnworn [⟨"a", 6, 1, 0⟩, ⟨"b", 6, 2, 0⟩] 0 ⟨"a", 6, 1, 0⟩ :=
  (dropsUnworn_iff (roster_twoHeroes []) rfl).mpr (.inl rfl)

/-- A hero whose six slots are empty stays. -/
theorem not_dropsUnworn_emptySlots :
    ¬ ∀ (s : LoginWorker) (heroes : List Hero) (i : ℕ) (h : Hero), s.Roster heroes →
      heroes[i]? = some h → s.DropsUnworn heroes i h := by
  intro hall
  obtain ⟨reply, hreply, hdismissed, -⟩ :=
    hall _ _ 0 ⟨"a", 6, 1, 0⟩ (roster_twoHeroes emptySlots) rfl
  have hunworn : NothingWorn emptySlots := by
    intro e he
    rw [List.eq_of_mem_replicate he]
    decide
  obtain rfl : (twoHeroes emptySlots).refuse (-2) = reply := Option.some.inj hreply
  exact absurd (hdismissed hunworn).deleted (by decide)

end LoginWorker

end IceBridge.Gateway
