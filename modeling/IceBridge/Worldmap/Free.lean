import IceBridge.Worldmap.Positions

/-! The free positions and who has been given the others. A position is its key. -/

namespace IceBridge.Worldmap

inductive MapEvent
  | addNewPositionToMap (c : Cell)
  | getRangePosition (uuid random : UInt32)
  | getSettlePosition (c : Cell) (uuid : UInt32)

/-- The map, and for each position the player it was handed out to and not returned by. -/
structure Ledger where
  map : WorldMap
  holder : Int → Option UInt32 := fun _ => none

namespace Ledger

def givenBack (s : Ledger) (uuid : UInt32) : Int → Option UInt32 :=
  match s.map.redis.getPlayerWorldinfo uuid with
  | some old => Function.update s.holder (key old) none
  | none => s.holder

def step (s : Ledger) : MapEvent → Option Ledger
  | .addNewPositionToMap c =>
    if key c ∈ s.map.mapKey then none
    else some
      { map := s.map.addNewPositionToMap c, holder := Function.update s.holder (key c) none }
  | .getRangePosition uuid random =>
    let holder := s.givenBack uuid
    some {
      map := (s.map.getRangePosition uuid random).1
      holder :=
        match s.map.drawn uuid random with
        | some (k, _) => Function.update holder k (some uuid)
        | none => holder }
  | .getSettlePosition c uuid => do
    let (map, ok) ← s.map.getSettlePosition c uuid
    some {
      map
      holder :=
        if ok = some true then Function.update (s.givenBack uuid) (key c) (some uuid)
        else s.holder }

structure Sound (s : Ledger) : Prop where
  inverse : Index.Indexes s.map.mapKey s.map.remainingPosition
  unheld : ∀ k ∈ s.map.mapKey, s.holder k = none

/-- The old position that is given back is not free already, and the element drawn is not the
last one, except where it is the only one. -/
def Allowed (s : Ledger) : MapEvent → Prop
  | .addNewPositionToMap _ => True
  | .getRangePosition uuid random =>
    (∀ old, s.map.redis.getPlayerWorldinfo uuid = some old → key old ∉ s.map.mapKey) ∧
    let n := (s.map.returned uuid).mapKey.length
    random.toNat % n + 1 = n → n = 1
  | .getSettlePosition c uuid =>
    ∀ old, s.map.redis.getPlayerWorldinfo uuid = some old → key c ∈ s.map.mapKey →
      key old ∉ s.map.mapKey

variable {s t : Ledger} {u : UInt32}

theorem Sound.push (h : s.Sound) {c : Cell} (hc : key c ∉ s.map.mapKey) :
    Sound { map := s.map.addNewPositionToMap c
            holder := Function.update s.holder (key c) none } := by
  refine ⟨h.inverse.push hc, fun k hk => ?_⟩
  rcases List.mem_append.mp hk with hk | hk
  · have hne : k ≠ key c := fun heq => hc (heq ▸ hk)
    exact (Function.update_of_ne hne _ _).trans (h.unheld k hk)
  · obtain rfl := List.mem_singleton.mp hk
    exact Function.update_self ..

theorem draw_eq_some {w t : WorldMap} {i : ℕ} {k : Int} (h : w.draw i = some (k, t)) :
    ∃ last, w.mapKey[i]? = some k ∧ w.mapKey[w.mapKey.length - 1]? = some last ∧
      t.mapKey = (if w.mapKey.length = 1 then [] else Index.moveLast w.mapKey i last) ∧
      t.remainingPosition =
        if w.mapKey.length = 1 then Function.update w.remainingPosition k none
        else Function.update (Function.update w.remainingPosition k none) last (some i) := by
  unfold WorldMap.draw at h
  obtain ⟨k', hk, h⟩ := Option.bind_eq_some_iff.mp h
  obtain ⟨last, hlast, h⟩ := Option.bind_eq_some_iff.mp h
  split at h
  · next hone =>
    obtain ⟨rfl, rfl⟩ := Prod.mk.inj (Option.some.inj h)
    exact ⟨last, hk, hlast, by simp [hone], by simp [hone]⟩
  · next hone =>
    obtain ⟨rfl, rfl⟩ := Prod.mk.inj (Option.some.inj h)
    exact ⟨last, hk, hlast, by simp [hone], by simp [hone]⟩

theorem sound_draw_iff (h : s.Sound) {w : WorldMap} {i : ℕ} {k : Int}
    (hd : s.map.draw i = some (k, w)) (redis : Redis) :
    Sound { map := { w with redis }, holder := Function.update s.holder k (some u) } ↔
      (i + 1 = s.map.mapKey.length → s.map.mapKey.length = 1) := by
  obtain ⟨last, hk, hlast, hkeys, hpos⟩ := draw_eq_some hd
  have hi : i < s.map.mapKey.length := (List.getElem?_eq_some_iff.mp hk).1
  by_cases hone : s.map.mapKey.length = 1
  · rw [if_pos hone] at hkeys hpos
    refine iff_of_true ⟨?_, ?_⟩ fun _ => hone
    · intro x j
      have hzero : i = 0 := by omega
      subst hzero
      have hx := h.inverse x 0
      show w.remainingPosition x = some j ↔ w.mapKey[j]? = some x
      rw [hkeys, hpos]
      refine iff_of_false (fun hj => ?_) (by simp)
      by_cases hxk : x = k
      · simp [hxk] at hj
      · rw [Function.update_of_ne hxk, h.inverse] at hj
        have hj0 : j < s.map.mapKey.length := (List.getElem?_eq_some_iff.mp hj).1
        obtain rfl : j = 0 := by omega
        exact hxk (Option.some.inj (hj.symm.trans hk))
    · intro x hx
      have hnil : x ∈ w.mapKey := hx
      simp [hkeys] at hnil
  · -- the entry of the last position is written after that of `k` has gone
    rw [if_neg hone] at hkeys hpos
    have hremove := Index.indexes_remove_before_iff h.inverse hk hlast
    constructor
    · intro ht hend
      have hinverse : Index.Indexes w.mapKey w.remainingPosition := ht.inverse
      rw [hkeys, hpos] at hinverse
      exact absurd hend (hremove.mp hinverse)
    · intro hend
      have hne : i + 1 ≠ s.map.mapKey.length := fun heq => hone (hend heq)
      refine ⟨?_, fun x hx => ?_⟩
      · show Index.Indexes w.mapKey w.remainingPosition
        rw [hkeys, hpos]
        exact hremove.mpr hne
      · have hmem : x ∈ w.mapKey := hx
        rw [hkeys] at hmem
        obtain ⟨hold, hxk⟩ := (h.inverse.mem_moveLast hk hlast x).mp hmem
        exact (Function.update_of_ne hxk _ _).trans (h.unheld x hold)

theorem not_sound_draw {c : Cell} (hc : key c ∈ s.map.mapKey) {w : WorldMap}
    {i : ℕ} {k : Int} (hd : (s.map.addNewPositionToMap c).draw i = some (k, w)) (redis : Redis)
    (holder : Int → Option UInt32) :
    ¬ Sound { map := { w with redis }, holder := Function.update holder k (some u) } := by
  intro ht
  have hinverse : Index.Indexes w.mapKey w.remainingPosition := ht.inverse
  have hunheld : ∀ x ∈ w.mapKey, Function.update holder k (some u) x = none := ht.unheld
  obtain ⟨last, hk, hlast, hkeys, hpos⟩ := draw_eq_some hd
  obtain ⟨i0, hi0⟩ := List.mem_iff_getElem?.mp hc
  have hi0lt : i0 < s.map.mapKey.length := (List.getElem?_eq_some_iff.mp hi0).1
  have hlen : (s.map.addNewPositionToMap c).mapKey.length = s.map.mapKey.length + 1 := by
    simp [WorldMap.addNewPositionToMap]
  have hne : ¬ (s.map.addNewPositionToMap c).mapKey.length = 1 := by omega
  obtain rfl : key c = last := by
    simpa [WorldMap.addNewPositionToMap] using hlast
  rw [if_neg hne] at hkeys hpos
  have hentry : w.mapKey[i]? = some (key c) := by
    rw [← hinverse, hpos, Function.update_self]
  have hstands : i + 1 < (s.map.addNewPositionToMap c).mapKey.length := by
    by_contra hend
    rw [hkeys, Index.getElem?_moveLast, if_neg hend] at hentry
    exact absurd hentry (by simp)
  have hold : (s.map.addNewPositionToMap c).mapKey[i0]? = some (key c) := by
    exact (List.getElem?_append_left hi0lt).trans hi0
  -- the position is listed twice; one draw takes at most one of the two
  by_cases heq : i0 = i
  · subst heq
    obtain rfl := Option.some.inj (hk.symm.trans hold)
    have hheld := hunheld (key c) (List.mem_of_getElem? hentry)
    simp at hheld
  · have hentry0 : w.mapKey[i0]? = some (key c) := by
      rw [hkeys, Index.getElem?_moveLast, if_pos (by omega), if_neg heq, hold]
    have hsame := ((hinverse _ _).mpr hentry0).symm.trans ((hinverse _ _).mpr hentry)
    exact heq (Option.some.inj hsame)

theorem drawn_eq_none {w : WorldMap} {random : UInt32} (h : w.drawn u random = none) :
    (w.returned u).mapKey = [] := by
  by_contra hne
  have hpos := List.length_pos_of_ne_nil hne
  have hlt := Nat.mod_lt random.toNat hpos
  have hlt' : (w.returned u).mapKey.length - 1 < (w.returned u).mapKey.length := by omega
  unfold WorldMap.drawn WorldMap.draw at h
  rw [List.getElem?_eq_getElem hlt, List.getElem?_eq_getElem hlt'] at h
  simp only [Option.bind_eq_bind, Option.bind_some] at h
  split_ifs at h

theorem sound_range_iff (h : s.Sound) {random : UInt32}
    (ht : s.step (.getRangePosition u random) = some t) :
    t.Sound ↔ s.Allowed (.getRangePosition u random) := by
  obtain rfl := Option.some.inj ht
  cases hold : s.map.redis.getPlayerWorldinfo u with
  | none =>
    have hreturned : s.map.returned u = s.map := by simp [WorldMap.returned, hold]
    have hgiven : s.givenBack u = s.holder := by simp [givenBack, hold]
    cases hd : s.map.drawn u random with
    | none =>
      have hempty := drawn_eq_none hd
      simp only [WorldMap.getRangePosition, hd, hreturned, hgiven]
      refine iff_of_true h ⟨by simp [hold], ?_⟩
      simp [hempty]
    | some d =>
      obtain ⟨k, w⟩ := d
      have hdraw := hd
      rw [WorldMap.drawn, hreturned] at hdraw
      have hiff := sound_draw_iff (u := u) h hdraw (w.redis.addNewPlayer (cell k) u)
      simp only [WorldMap.getRangePosition, hd, hgiven, hiff, Allowed, hold, hreturned]
      simp
  | some old =>
    have hreturned : s.map.returned u = s.map.addNewPositionToMap old := by
      simp [WorldMap.returned, hold]
    have hgiven : s.givenBack u = Function.update s.holder (key old) none := by
      simp [givenBack, hold]
    cases hd : s.map.drawn u random with
    | none =>
      have hempty := drawn_eq_none hd
      simp [hreturned, WorldMap.addNewPositionToMap] at hempty
    | some d =>
      obtain ⟨k, w⟩ := d
      have hdraw := hd
      rw [WorldMap.drawn, hreturned] at hdraw
      by_cases hfree : key old ∈ s.map.mapKey
      · have hnot := not_sound_draw (u := u) hfree hdraw
          (w.redis.addNewPlayer (cell k) u) (s.givenBack u)
        simp only [WorldMap.getRangePosition, hd]
        exact iff_of_false hnot fun hallowed => hallowed.1 old hold hfree
      · have hiff := sound_draw_iff (u := u) (h.push hfree) hdraw
          (w.redis.addNewPlayer (cell k) u)
        simp only [WorldMap.getRangePosition, hd, hgiven, hiff, Allowed, hold, hreturned]
        simp [hfree]

theorem sound_settle_iff (h : s.Sound) {c : Cell}
    (ht : s.step (.getSettlePosition c u) = some t) :
    t.Sound ↔ s.Allowed (.getSettlePosition c u) := by
  obtain ⟨⟨map, ok⟩, hsettle, ht⟩ := Option.bind_eq_some_iff.mp ht
  obtain rfl := Option.some.inj ht
  unfold WorldMap.getSettlePosition at hsettle
  split at hsettle
  · next hold =>
    obtain ⟨rfl, rfl⟩ := Prod.mk.inj (Option.some.inj hsettle)
    exact iff_of_true (by simpa using h) (by simp [Allowed, hold])
  next old hold =>
  have hmem := h.inverse.isSome_iff (key c)
  split at hsettle
  · next hpos =>
    obtain ⟨rfl, rfl⟩ := Prod.mk.inj (Option.some.inj hsettle)
    have hnot : key c ∉ s.map.mapKey := by simpa [hpos] using hmem
    exact iff_of_true (by simpa using h) fun _ _ hfree => absurd hfree hnot
  next index hpos =>
  obtain ⟨last, hlast, hsettle⟩ := Option.bind_eq_some_iff.mp hsettle
  split at hsettle
  · next hlt =>
    -- the settled position is taken out first, and the old one appended
    obtain ⟨rfl, rfl⟩ := Prod.mk.inj (Option.some.inj hsettle)
    have hk := (h.inverse (key c) index).mp hpos
    have hfree : key c ∈ s.map.mapKey := List.mem_of_getElem? hk
    have hremove := h.inverse.remove hk hlast
    have hmoved := h.inverse.mem_moveLast hk hlast
    have hgiven : s.givenBack u = Function.update s.holder (key old) none := by
      simp [givenBack, hold]
    simp only [if_true, hgiven]
    constructor
    · intro hsound old' hold' _ hin
      obtain rfl := Option.some.inj (hold.symm.trans hold')
      have hnew : key old ∉ Index.moveLast s.map.mapKey index last :=
        (Index.indexes_push_iff hremove (key old)).mp hsound.inverse
      have heq : key old = key c := by
        by_contra hne
        exact hnew ((hmoved (key old)).mpr ⟨hin, hne⟩)
      have hheld := hsound.unheld (key old) (List.mem_append_right _ (List.mem_singleton_self _))
      rw [heq] at hheld
      exact absurd ((Function.update_self ..).symm.trans hheld) (by simp)
    · intro hallowed
      have hin := hallowed old hold hfree
      have hnew : key old ∉ Index.moveLast s.map.mapKey index last :=
        fun hmem => hin ((hmoved (key old)).mp hmem).1
      refine ⟨hremove.push hnew, fun k hk => ?_⟩
      have hne : key old ≠ key c := fun heq => hin (heq ▸ hfree)
      rcases List.mem_append.mp hk with hk | hk
      · obtain ⟨hkold, hkc⟩ := (hmoved k).mp hk
        refine (Function.update_of_ne hkc _ _).trans ?_
        have hkne : k ≠ key old := fun heq => hin (heq ▸ hkold)
        rw [Function.update_of_ne hkne]
        exact h.unheld k hkold
      · obtain rfl := List.mem_singleton.mp hk
        refine (Function.update_of_ne hne _ _).trans ?_
        exact Function.update_self ..
  · exact absurd hsettle (by simp)

theorem sound_step_iff {e : MapEvent} (h : s.Sound) (ht : s.step e = some t) :
    t.Sound ↔ s.Allowed e := by
  cases e with
  | addNewPositionToMap c =>
    simp only [step] at ht
    split_ifs at ht with hc
    obtain rfl := Option.some.inj ht
    exact iff_of_true (h.push hc) trivial
  | getRangePosition u random => exact sound_range_iff h ht
  | getSettlePosition c u => exact sound_settle_iff h ht

theorem sound_empty (redis : Redis) : Sound { map := { redis } } :=
  ⟨Index.indexes_nil, fun _ hk => absurd hk List.not_mem_nil⟩

theorem always_sound (redis : Redis) {es : List MapEvent}
    (h : Run.EachStep step Allowed { map := { redis } } es) :
    Run.Always step Sound { map := { redis } } es :=
  Run.always_of_eachStep (fun _ _ _ hs hC ht => (sound_step_iff hs ht).mpr hC) (sound_empty redis) h

/-- On any run from the empty map, whatever redis has, `map_key` and `remaining_position` are
inverse and nobody holds a free position exactly when every step is one of the allowed. -/
theorem sound_run_iff (redis : Redis) (es : List MapEvent) :
    Run.Always step Sound { map := { redis } } es ↔
      Run.EachStep step Allowed { map := { redis } } es := by
  exact Run.always_iff_eachStep (I := fun _ => True) (fun _ _ _ _ _ => trivial)
    (fun s e t _ hs ht => sound_step_iff hs ht) trivial (sound_empty redis) es

theorem key_injective {c d : Cell} (hc : OnMap c) (hd : OnMap d) (h : key c = key d) : c = d := by
  obtain ⟨x, y⟩ := c
  obtain ⟨x', y'⟩ := d
  simp only [OnMap, key] at hc hd h
  rw [Prod.mk.injEq]
  omega

theorem onMap_of_mem_freeCells {r : Redis} {c : Cell} (h : c ∈ WorldMap.freeCells r) :
    OnMap c := by
  obtain ⟨i, hi, h⟩ := List.mem_flatMap.mp h
  obtain ⟨j, hj, h⟩ := List.mem_filterMap.mp h
  rw [List.mem_range] at hi hj
  split_ifs at h
  obtain rfl := Option.some.inj h
  simp only [OnMap]
  omega

theorem nodup_freeCells (r : Redis) : (WorldMap.freeCells r).Nodup := by
  refine List.nodup_flatMap.mpr ⟨fun i _ => ?_, ?_⟩
  · refine List.Nodup.filterMap (fun j j' c hj hj' => ?_) List.nodup_range
    simp only [Option.mem_def, Option.ite_none_right_eq_some, Option.some.injEq] at hj hj'
    have heq := congrArg Prod.fst (hj.2.trans hj'.2.symm)
    exact Int.ofNat_inj.mp heq
  · refine List.nodup_range.imp fun {i i'} hne c hc hc' => hne ?_
    obtain ⟨j, -, hj⟩ := List.mem_filterMap.mp hc
    obtain ⟨j', -, hj'⟩ := List.mem_filterMap.mp hc'
    simp only [Option.ite_none_right_eq_some, Option.some.injEq] at hj hj'
    have heq := congrArg Prod.snd (hj.2.trans hj'.2.symm)
    exact Int.ofNat_inj.mp heq

theorem exec_addAll (w : WorldMap) (cs : List Cell) (hcs : ∀ c ∈ cs, OnMap c)
    (hnodup : cs.Nodup) (hnew : ∀ c ∈ cs, key c ∉ w.mapKey) :
    Run.exec step { map := w } (cs.map .addNewPositionToMap) =
      some { map := cs.foldl WorldMap.addNewPositionToMap w } := by
  induction cs generalizing w with
  | nil => rfl
  | cons c cs ih =>
    obtain ⟨hc, hrest⟩ := List.nodup_cons.mp hnodup
    have hempty : Function.update (fun _ => none) (key c) none = fun _ : Int => (none : Option UInt32) :=
      Function.update_eq_self _ _
    simp only [List.map_cons, Run.exec, step, if_neg (hnew c List.mem_cons_self),
      Option.bind_some, List.foldl_cons, hempty]
    refine ih _ (fun d hd => hcs d (List.mem_cons_of_mem _ hd)) hrest fun d hd hmem => ?_
    rcases List.mem_append.mp hmem with hmem | hmem
    · exact hnew d (List.mem_cons_of_mem _ hd) hmem
    · have heq := key_injective (hcs d (List.mem_cons_of_mem _ hd)) (hcs c List.mem_cons_self)
        (List.mem_singleton.mp hmem)
      exact hc (heq ▸ hd)

theorem sound_addAll (redis : Redis) {cs : List Cell} (hcs : ∀ c ∈ cs, OnMap c)
    (hnodup : cs.Nodup) : Sound { map := cs.foldl WorldMap.addNewPositionToMap { redis } } := by
  have hexec := exec_addAll { redis } cs hcs hnodup fun c _ => List.not_mem_nil
  have hallowed : ∀ s : Ledger, Run.EachStep step Allowed s (cs.map .addNewPositionToMap) := by
    clear hexec hcs hnodup
    intro s
    induction cs generalizing s with
    | nil => trivial
    | cons c cs ih => exact fun t _ => ⟨trivial, ih t⟩
  have halways := always_sound redis (hallowed _)
  exact (Run.always_iff_prefixes _ _).mp halways _ (List.prefix_refl _) _ hexec

theorem sound_start (redis : Redis) : Sound { map := WorldMap.start redis } :=
  sound_addAll redis (fun _ hc => onMap_of_mem_freeCells hc) (nodup_freeCells redis)

/-- With two free cells the one drawn is the last. -/
theorem not_inverse_last :
    ¬ ∀ (redis : Redis) (es : List MapEvent), Run.Always step
      (fun s => Index.Indexes s.map.mapKey s.map.remainingPosition) { map := { redis } } es := by
  intro hall
  have hrun := hall {} [.addNewPositionToMap (0, 0), .addNewPositionToMap (1, 0),
    .getRangePosition 7 1]
  have hstale := ((hrun.2 _ rfl).2 _ rfl).2 _ rfl (key (1, 0)) 1
  revert hstale
  decide

end Ledger

end IceBridge.Worldmap
