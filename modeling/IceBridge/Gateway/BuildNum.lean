import IceBridge.Gateway.Construction
import IceBridge.Lib.Tally

/-! The number of buildings of each type, which is stored apart from the buildings: it is set for
the buildings of a new player and counted up when one is created. -/

namespace IceBridge.Gateway

structure NewBuild where
  bigType : Int
  buildType : Int
  buildLevel : Int := 1
  numType : Int := buildType

def newBuilds : List NewBuild :=
  [{ bigType := 0, buildType := 1, buildLevel := 3 },
   { bigType := 0, buildType := 4 },
   { bigType := 1, buildType := 19 },
   { bigType := 0, buildType := 7 },
   { bigType := 3, buildType := 12 },
   { bigType := 4, buildType := 16 },
   -- the number that is set is that of another type
   { bigType := 3, buildType := 14, numType := 11 },
   { bigType := 0, buildType := 6 },
   { bigType := 2, buildType := 8 },
   { bigType := 1, buildType := 17 },
   { bigType := 0, buildType := 3 },
   { bigType := 3, buildType := 13 },
   { bigType := 2, buildType := 9 },
   { bigType := 2, buildType := 10 },
   { bigType := 2, buildType := 11 },
   { bigType := 3, buildType := 15 },
   { bigType := 1, buildType := 18 },
   { bigType := 0, buildType := 2 }]

def NewBuild.build (b : NewBuild) (now : Int) : Build :=
  { bigType := b.bigType, status := 0, ctime := now, time := 0, buildType := b.buildType,
    buildLevel := b.buildLevel, curHp := 1000, curResource := 0 }

namespace Store

def addNew (now : Int) (s : Store) (x : NewBuild × String) : Store :=
  { s with
    buildNum := Function.update s.buildNum x.1.numType 1
    build := Function.update s.build x.2 (some (x.1.build now)) }

/-- The first of the serial numbers `sns`, which come from `createRandom`, is the city hall's. -/
def initNewPlayer (sns : List String) (now : Int) : Store :=
  (newBuilds.zip sns).foldl (addNew now)
    { asset := fun a => if a = .diamond then 20000 else 50000000, cityHallUuid := sns.headD "" }

end Store

/-! ## Types and numbers -/

def Player.types (p : Player) (sn : String) : Option Int := (p.myBuild sn).map Build.buildType

def Store.types (s : Store) (sn : String) : Option Int := (s.build sn).map Build.buildType

theorem Player.enTimer_buildNum (p : Player) (sn : String) (now : Int) :
    (p.enTimer sn now).buildNum = p.buildNum := by
  unfold Player.enTimer
  split <;> rfl

theorem Player.deleteTimer_buildNum (p : Player) (sn : String) :
    (p.deleteTimer sn).buildNum = p.buildNum := by
  unfold Player.deleteTimer
  split <;> rfl

theorem map_buildType_update (f : String → Option Build) (sn : String) (b : Build) :
    (fun v => (Function.update f sn (some b) v).map Build.buildType) =
      Function.update (fun v => (f v).map Build.buildType) sn (some b.buildType) := by
  funext v
  rw [Function.update_apply, Function.update_apply]
  split_ifs
  · rfl
  · rfl

namespace Estate
variable {cfg : Config} {e u t : Estate} {sn : String} {now : Int}

structure SameTypes (e : Estate) : Prop where
  types : e.player.types = e.store.types
  buildNum : e.player.buildNum = e.store.buildNum

structure Keeps (e t : Estate) : Prop where
  same : t.SameTypes
  types : t.store.types = e.store.types
  buildNum : t.store.buildNum = e.store.buildNum

theorem Keeps.refl (he : e.SameTypes) : e.Keeps e := ⟨he, rfl, rfl⟩

theorem Keeps.trans (h : e.Keeps u) (h' : u.Keeps t) : e.Keeps t :=
  ⟨h'.same, h'.types.trans h.types, h'.buildNum.trans h.buildNum⟩

theorem Keeps.trans_same (h : e.Keeps u) (hplayer : t.player.myBuild = u.player.myBuild)
    (hnum : t.player.buildNum = u.player.buildNum) (hstore : t.store = u.store) : e.Keeps t := by
  have htypes : t.player.types = u.player.types := by
    unfold Player.types
    rw [hplayer]
  refine ⟨⟨?_, ?_⟩, ?_, ?_⟩
  · rw [htypes, hstore, h.same.types]
  · rw [hnum, hstore, h.same.buildNum]
  · rw [hstore, h.types]
  · rw [hstore, h.buildNum]

theorem types_setMyBuild {p : Player} {b b' : Build} (hb : p.myBuild sn = some b)
    (htype : b'.buildType = b.buildType) : (p.setMyBuild sn b').types = p.types := by
  have hold : p.types sn = some b'.buildType := by
    rw [Player.types, hb, Option.map_some, htype]
  exact (map_buildType_update p.myBuild sn b').trans (Function.update_eq_self_iff.mpr hold.symm)

theorem keeps_setMyBuild {b b' : Build} (he : e.SameTypes) (hb : e.player.myBuild sn = some b)
    (htype : b'.buildType = b.buildType) :
    e.Keeps { e with player := e.player.setMyBuild sn b' } := by
  refine ⟨⟨?_, he.buildNum⟩, rfl, rfl⟩
  exact (types_setMyBuild hb htype).trans he.types

theorem keeps_setBuild {b : Build} (he : e.SameTypes) (hb : e.player.myBuild sn = some b) :
    e.Keeps (e.setBuild sn b) := by
  have hstored : (e.setBuild sn b).store.types = e.store.types := by
    have hold : e.store.types sn = some b.buildType := by
      rw [← he.types, Player.types, hb, Option.map_some]
    exact (map_buildType_update e.store.build sn b).trans
      (Function.update_eq_self_iff.mpr hold.symm)
  exact ⟨⟨he.types.trans hstored.symm, he.buildNum⟩, hstored, rfl⟩

theorem finished_buildType {b b' : Build} (h : finished cfg b now = some b') :
    b'.buildType = b.buildType := by
  obtain ⟨level, -, h⟩ := Option.bind_eq_some_iff.mp h
  obtain rfl := Option.some.inj h
  rfl

theorem keeps_buildTimerHandle (he : e.SameTypes) (ht : e.buildTimerHandle cfg sn now = some t) :
    e.Keeps t := by
  unfold buildTimerHandle at ht
  split at ht
  · exact Option.some.inj ht ▸ Keeps.refl he
  · next b hb =>
    obtain ⟨b', hfinished, ht⟩ := Option.bind_eq_some_iff.mp ht
    obtain rfl := Option.some.inj ht
    have hset := keeps_setMyBuild he hb (finished_buildType hfinished)
    have hdeleted := hset.trans_same (t := { e with player :=
      { (e.player.setMyBuild sn b').deleteTimer sn with
        building := ((e.player.setMyBuild sn b').deleteTimer sn).building.filter (· ≠ sn) } })
      (Player.deleteTimer_myBuild _ _) (Player.deleteTimer_buildNum _ _) rfl
    apply hdeleted.trans
    apply keeps_setBuild hdeleted.same
    exact (congrFun (Player.deleteTimer_myBuild _ _) sn).trans (Function.update_self _ _ _)

theorem keeps_tick (he : e.SameTypes) (ht : tick cfg now e sn = some t) : e.Keeps t := by
  unfold tick at ht
  split at ht
  · exact Option.some.inj ht ▸ Keeps.refl he
  next b hb =>
  split at ht
  · dsimp only at ht
    set b' : Build := { b with time := b.time - 1100 }
    have htype : b'.buildType = b.buildType := rfl
    have hset := keeps_setMyBuild he hb htype
    split_ifs at ht
    · exact hset.trans (keeps_buildTimerHandle hset.same ht)
    · obtain rfl := Option.some.inj ht
      exact hset.trans_same (Player.enTimer_myBuild _ _ _) (Player.enTimer_buildNum _ _ _) rfl
    · exact Option.some.inj ht ▸ hset
  · exact Option.some.inj ht ▸ Keeps.refl he

theorem keeps_resume (he : e.SameTypes) (ht : resume cfg now e sn = some t) : e.Keeps t := by
  unfold resume at ht
  split at ht
  · exact Option.some.inj ht ▸ Keeps.refl he
  next b hb =>
  split at ht
  · dsimp only at ht
    set b' : Build := { b with time := b.time - (now - b.ctime), ctime := now }
    have htype : b'.buildType = b.buildType := rfl
    have hset := keeps_setMyBuild he hb htype
    have hstored := hset.trans (keeps_setBuild hset.same (Function.update_self _ _ _))
    split_ifs at ht
    · exact hset.trans (keeps_buildTimerHandle hset.same ht)
    · obtain rfl := Option.some.inj ht
      exact hstored.trans_same (Player.enTimer_myBuild _ _ _) (Player.enTimer_buildNum _ _ _) rfl
    · exact Option.some.inj ht ▸ hstored
  · exact Option.some.inj ht ▸ Keeps.refl he

theorem keeps_heartCheck (he : e.SameTypes) (ht : e.heartCheck cfg now = some t) : e.Keeps t :=
  Run.foldlM_preserves (I := fun u _ => e.Keeps u)
    (fun _ _ _ _ h ht => h.trans (keeps_tick h.same ht)) (Keeps.refl he) ht

theorem types_getBuildMap : (e.getBuildMap now).player.types = e.store.types := by
  funext sn
  unfold getBuildMap Player.types Store.types
  dsimp only
  rw [Option.map_map]
  congr 1
  funext b
  unfold Function.comp loaded
  dsimp only
  split_ifs
  · rfl
  · rfl

theorem keeps_login (ht : e.login cfg now = some t) : t.SameTypes ∧
    t.store.types = e.store.types ∧ t.store.buildNum = e.store.buildNum := by
  obtain ⟨hsame, htypes, hnum⟩ := Run.foldlM_preserves (I := fun u _ => Keeps _ u)
    (fun _ _ _ _ h ht => h.trans (keeps_resume h.same ht))
    (Keeps.refl ⟨types_getBuildMap, rfl⟩) ht
  exact ⟨hsame, htypes, hnum⟩

theorem keeps_timeout {id : ℕ} (he : e.SameTypes) (ht : e.timeout cfg id now = some t) :
    e.Keeps t := by
  obtain ⟨timer, -, ht⟩ := Option.bind_eq_some_iff.mp ht
  have hfired := (Keeps.refl he).trans_same (t := { e with player := { e.player with
    timers := e.player.timers.filter fun timer => timer.id ≠ id } }) rfl rfl rfl
  exact hfired.trans (keeps_buildTimerHandle hfired.same ht)

theorem keeps_buildStatusList (he : e.player.buildNum = e.store.buildNum) (sns : List String) :
    (e.buildStatusList sns now).estate.SameTypes ∧
      (e.buildStatusList sns now).estate.store.types = e.store.types ∧
      (e.buildStatusList sns now).estate.store.buildNum = e.store.buildNum := by
  have hloaded : (e.getBuildMap now).SameTypes := ⟨types_getBuildMap, he⟩
  have hkeeps : (e.getBuildMap now).Keeps (e.buildStatusList sns now).estate := by
    refine List.foldlRecOn (motive := (e.getBuildMap now).Keeps) sns _ (Keeps.refl hloaded) ?_
    intro u hu v _
    split
    · exact hu
    · next b hb => exact hu.trans (keeps_setBuild hu.same hb)
  exact ⟨hkeeps.same, hkeeps.types, hkeeps.buildNum⟩

theorem startBuild_player_buildNum (b : Build) :
    (e.startBuild sn b now).player.buildNum = e.player.buildNum := by
  unfold startBuild
  split_ifs
  · exact Player.enTimer_buildNum _ _ _
  · rfl

theorem types_of_writes {b : Build} (h : e.Writes t sn b) (he : e.SameTypes)
    (hnum : t.player.buildNum = t.store.buildNum) : t.SameTypes ∧
    t.store.types = Function.update e.store.types sn (some b.buildType) := by
  have hplayer : t.player.types = Function.update e.player.types sn (some b.buildType) := by
    unfold Player.types
    rw [h.myBuild]
    exact map_buildType_update _ _ _
  have hstore : t.store.types = Function.update e.store.types sn (some b.buildType) := by
    unfold Store.types
    rw [h.build]
    exact map_buildType_update _ _ _
  exact ⟨⟨by rw [hplayer, hstore, he.types], hnum⟩, hstore⟩

theorem keeps_of_writes {b old : Build} (h : e.Writes t sn b) (he : e.SameTypes)
    (hold : e.player.myBuild sn = some old) (htype : b.buildType = old.buildType)
    (hplayer : t.player.buildNum = e.player.buildNum)
    (hstore : t.store.buildNum = e.store.buildNum) : e.Keeps t := by
  have hnum : t.player.buildNum = t.store.buildNum := by
    rw [hplayer, hstore, he.buildNum]
  obtain ⟨hsame, htypes⟩ := types_of_writes h he hnum
  have hstored : e.store.types sn = some b.buildType := by
    rw [← he.types, Player.types, hold, Option.map_some, htype]
  refine ⟨hsame, ?_, hstore⟩
  rw [htypes, Function.update_eq_self_iff, hstored]

theorem keeps_buildUpgrade {r : Answer} (he : e.SameTypes)
    (hr : e.buildUpgrade cfg sn now = some r) : e.Keeps r.estate := by
  unfold buildUpgrade at hr
  dsimp only at hr
  split at hr
  · next hall b hhall hb =>
    obtain ⟨limit, hlimit, hr⟩ := Option.bind_eq_some_iff.mp hr
    split_ifs at hr with hlevel
    · obtain ⟨res, hres, hr⟩ := Option.bind_eq_some_iff.mp hr
      split_ifs at hr with hneed
      · obtain rfl := Option.some.inj hr
        set b' : Build := { b with status := 1, ctime := now, time := res.buildTime }
        have hpaid : e.SameWorks ({ e with player := e.player.addAsset fun a =>
            if a = Asset.diamond then 0 else -res.need a } : Estate).setMaterial := ⟨rfl, rfl⟩
        have horders : e.Orders (startBuild _ sn b' now) sn b' now :=
          ⟨_, hpaid, ⟨rfl, rfl⟩, rfl, rfl⟩
        exact keeps_of_writes horders.writes he hb rfl (startBuild_player_buildNum _) rfl
      · exact Option.some.inj hr ▸ Keeps.refl he
    · exact Option.some.inj hr ▸ Keeps.refl he
  · exact Option.some.inj hr ▸ Keeps.refl he

theorem buildTimerHandle_buildNum (ht : e.buildTimerHandle cfg sn now = some t) :
    t.player.buildNum = e.player.buildNum ∧ t.store.buildNum = e.store.buildNum := by
  unfold buildTimerHandle at ht
  split at ht
  · obtain rfl := Option.some.inj ht
    exact ⟨rfl, rfl⟩
  · obtain ⟨b, -, ht⟩ := Option.bind_eq_some_iff.mp ht
    obtain rfl := Option.some.inj ht
    exact ⟨Player.deleteTimer_buildNum _ _, rfl⟩

theorem fastFinish_buildNum {r : Answer} (hr : e.fastFinish cfg sn now = some r) :
    r.estate.player.buildNum = e.player.buildNum ∧ r.estate.store.buildNum = e.store.buildNum := by
  unfold fastFinish at hr
  dsimp only at hr
  split at hr
  · exact Option.some.inj hr ▸ ⟨rfl, rfl⟩
  split_ifs at hr with hcost htimer hlist
  · obtain ⟨u, hu, hr⟩ := Option.bind_eq_some_iff.mp hr
    obtain rfl := Option.some.inj hr
    obtain ⟨hplayer, hstore⟩ := buildTimerHandle_buildNum hu
    exact ⟨hplayer, hstore⟩
  · obtain ⟨b, -, hr⟩ := Option.bind_eq_some_iff.mp hr
    exact Option.some.inj hr ▸ ⟨rfl, rfl⟩
  · exact Option.some.inj hr ▸ ⟨rfl, rfl⟩
  · exact Option.some.inj hr ▸ ⟨rfl, rfl⟩

theorem keeps_fastFinish {r : Answer} (he : e.SameTypes)
    (hr : e.fastFinish cfg sn now = some r) : e.Keeps r.estate := by
  rcases fastFinish_cases hr with ⟨-, hsame⟩ | ⟨-, -, b, b', hb, hfinished, hwrites⟩
  · rw [hsame]
    exact Keeps.refl he
  · obtain ⟨hplayer, hstore⟩ := fastFinish_buildNum hr
    exact keeps_of_writes hwrites he hb (finished_buildType hfinished) hplayer hstore

structure Counted (e t : Estate) (type : Int) (sn : String) : Prop where
  same : t.SameTypes
  types : t.store.types = Function.update e.store.types sn (some type)
  buildNum : t.store.buildNum = Function.update e.store.buildNum type (e.store.buildNum type + 1)

theorem counted_of_writes {b : Build} {type : Int} (h : e.Writes t sn b) (he : e.SameTypes)
    (htype : b.buildType = type)
    (hplayer : t.player.buildNum =
      Function.update e.player.buildNum type (e.player.buildNum type + 1))
    (hstore : t.store.buildNum =
      Function.update e.store.buildNum type (e.player.buildNum type + 1)) :
    e.Counted t type sn := by
  have hnum : t.player.buildNum = t.store.buildNum := by
    rw [hplayer, hstore, he.buildNum]
  obtain ⟨hsame, htypes⟩ := types_of_writes h he hnum
  exact ⟨hsame, htype ▸ htypes, by rw [hstore, he.buildNum]⟩

theorem counted_buildCreate {type : Int} {r : Answer} (he : e.SameTypes)
    (hr : e.buildCreate cfg type sn now = some r) :
    ¬ e.CanCreate cfg type ∧ r.estate = e ∨ e.CanCreate cfg type ∧ e.Counted r.estate type sn := by
  rcases buildCreate_cases hr with hnot | ⟨hcan, -⟩
  · exact .inl hnot
  refine .inr ⟨hcan, ?_⟩
  obtain ⟨hlow, hhigh, res, hall, limit, hres, hhall, hneed, hlimit, hcount⟩ := hcan
  unfold buildCreate at hr
  simp only [hlow, hhigh, and_self, if_true, hres, hhall, hneed, implies_true, hlimit, hcount,
    Option.bind_eq_bind, Option.bind_some] at hr
  obtain rfl := Option.some.inj hr
  set b : Build :=
    { bigType := res.bigType, status := 1, ctime := now, time := res.buildTime,
      buildType := type, curHp := res.maxHp }
  set u : Estate := (({ e with player := e.player.addAsset (-res.need) } :
      Estate).updateDiamond).setMaterial
  have hwrites : e.Writes (u.startBuild sn b now) sn b :=
    Orders.writes ⟨u, ⟨rfl, rfl⟩, ⟨rfl, rfl⟩, rfl, rfl⟩
  have hplayer : (u.startBuild sn b now).player.buildNum = e.player.buildNum :=
    startBuild_player_buildNum b
  exact counted_of_writes ⟨hwrites.myBuild, hwrites.build⟩ he rfl
    (congrArg (Function.update · type _) hplayer) rfl

end Estate

/-! ## The buildings of a new player -/

namespace Store
variable {now : Int} {s : Store}

theorem types_addNew (x : NewBuild × String) :
    (s.addNew now x).types = Function.update s.types x.2 (some x.1.buildType) :=
  map_buildType_update s.build x.2 (x.1.build now)

theorem buildNum_foldl_addNew (l : List (NewBuild × String)) (t : Int) :
    (l.foldl (addNew now) s).buildNum t =
      if t ∈ l.map (·.1.numType) then 1 else s.buildNum t := by
  induction l generalizing s with
  | nil => rfl
  | cons x l ih =>
    have hnum : (s.addNew now x).buildNum = Function.update s.buildNum x.1.numType 1 := rfl
    rw [List.foldl_cons, ih, hnum, Function.update_apply]
    simp only [List.map_cons, List.mem_cons]
    split_ifs <;> tauto

theorem timer_foldl_addNew (l : List (NewBuild × String)) :
    (l.foldl (addNew now) s).timer = s.timer := by
  induction l generalizing s with
  | nil => rfl
  | cons x l ih => exact ih

theorem number_foldl_addNew {l : List (NewBuild × String)} (hnodup : (l.map Prod.snd).Nodup)
    (hfresh : ∀ x ∈ l, s.types x.2 = none) (hfinite : ∀ t, (Tally.keys s.types t).Finite)
    (t : Int) :
    (Tally.keys (l.foldl (addNew now) s).types t).Finite ∧
    Tally.number (l.foldl (addNew now) s).types t =
      Tally.number s.types t + (l.map (·.1.buildType)).count t := by
  induction l generalizing s with
  | nil => exact ⟨hfinite t, rfl⟩
  | cons x l ih =>
    obtain ⟨hx, hnodup⟩ := List.nodup_cons.mp hnodup
    have hnone : s.types x.2 = none := hfresh x List.mem_cons_self
    have hrest : ∀ y ∈ l, (s.addNew now x).types y.2 = none := by
      intro y hy
      have hne : y.2 ≠ x.2 := fun heq => hx (heq ▸ List.mem_map_of_mem hy)
      rw [types_addNew, Function.update_of_ne hne]
      exact hfresh y (List.mem_cons_of_mem x hy)
    have hkeys : ∀ u, (Tally.keys (s.addNew now x).types u).Finite := by
      rw [types_addNew]
      exact Tally.finite_update hnone hfinite
    obtain ⟨hfin, hnumber⟩ := ih hnodup hrest hkeys
    refine ⟨hfin, ?_⟩
    rw [List.foldl_cons, hnumber, types_addNew, List.map_cons, List.count_cons]
    by_cases ht : t = x.1.buildType
    · rw [ht, Tally.number_update_self hnone (hfinite _)]
      simp only [beq_self_eq_true, if_true]
      omega
    · rw [Tally.number_update_of_ne hnone ht]
      simp [Ne.symm ht]

theorem count_newBuilds (t : Int) :
    (if t ∈ newBuilds.map NewBuild.numType then (1 : Int) else 0) + (if t = 14 then 1 else 0) =
      (newBuilds.map NewBuild.buildType).count t := by
  have hnodup : (newBuilds.map NewBuild.buildType).Nodup := by decide
  have hmem : t ∈ newBuilds.map NewBuild.buildType ↔
      t = 14 ∨ t ∈ newBuilds.map NewBuild.numType := by
    set before := (newBuilds.take 6).map NewBuild.numType
    set after := (newBuilds.drop 7).map NewBuild.numType
    have htypes : newBuilds.map NewBuild.buildType = before ++ 14 :: after := rfl
    have hnums : newBuilds.map NewBuild.numType = before ++ 11 :: after := rfl
    -- the number that is set instead is that of a type which is to come
    have hafter : (11 : Int) ∈ after := by decide
    rw [htypes, hnums, List.mem_append, List.mem_append, List.mem_cons, List.mem_cons]
    constructor
    · rintro (hbefore | rfl | hlater)
      · exact .inr (.inl hbefore)
      · exact .inl rfl
      · exact .inr (.inr (.inr hlater))
    · rintro (rfl | hbefore | rfl | hlater)
      · exact .inr (.inl rfl)
      · exact .inl hbefore
      · exact .inr (.inr hafter)
      · exact .inr (.inr hlater)
  have hnum : (14 : Int) ∉ newBuilds.map NewBuild.numType := by decide
  simp only [hnodup.count, hmem]
  by_cases ht : t = 14
  · subst ht
    simp [hnum]
  · simp [ht]

theorem number_newBuilds {sns : List String} (hnodup : sns.Nodup) (hlength : sns.length = 18)
    (htypes : s.types = fun _ => none) (hnum : s.buildNum = fun _ => 0) (t : Int) :
    (Tally.keys ((newBuilds.zip sns).foldl (addNew now) s).types t).Finite ∧
    ((newBuilds.zip sns).foldl (addNew now) s).buildNum t + (if t = 14 then 1 else 0) =
      Tally.number ((newBuilds.zip sns).foldl (addNew now) s).types t := by
  have hfst : (newBuilds.zip sns).map Prod.fst = newBuilds := List.map_fst_zip hlength.ge
  have hsnd : (newBuilds.zip sns).map Prod.snd = sns := List.map_snd_zip hlength.le
  have hproject : ∀ f : NewBuild → Int,
      (newBuilds.zip sns).map (fun x => f x.1) = newBuilds.map f := by
    intro f
    conv_rhs => rw [← hfst, List.map_map]
    rfl
  have hempty : ∀ u, (Tally.keys s.types u).Finite := by
    intro u
    rw [htypes, Tally.keys_none]
    exact Set.finite_empty
  obtain ⟨hfinite, hnumber⟩ := @number_foldl_addNew now s _ (hsnd.symm ▸ hnodup)
    (fun _ _ => congrFun htypes _) hempty t
  refine ⟨hfinite, ?_⟩
  rw [hnumber, buildNum_foldl_addNew, hproject, hproject, htypes, Tally.number_none, hnum,
    count_newBuilds, zero_add]

theorem number_initNewPlayer {sns : List String} (hnodup : sns.Nodup) (hlength : sns.length = 18)
    (now t : Int) :
    (Tally.keys (initNewPlayer sns now).types t).Finite ∧
    (initNewPlayer sns now).buildNum t + (if t = 14 then 1 else 0) =
      Tally.number (initNewPlayer sns now).types t :=
  number_newBuilds hnodup hlength rfl rfl t

end Store

/-! ## Runs of a player -/

namespace Site
variable {cfg : Config} {s t : Site} {e : Estate}

/-- The number of a type is that of its buildings, but for the type that was left out when the
player was new. -/
structure Tallied (s : Site) : Prop where
  same : s.online → s.estate.SameTypes
  offline : ¬ s.online → s.estate.player = {}
  finite : ∀ type, (Tally.keys s.estate.store.types type).Finite
  number : ∀ type, s.estate.store.buildNum type + (if type = 14 then 1 else 0) =
    Tally.number s.estate.store.types type

theorem tallied_start {sns : List String} (hnodup : sns.Nodup) (hlength : sns.length = 18)
    (now clock : Int) (curCount : ℕ) (heartDue : Int) :
    (start (Store.initNewPlayer sns now) clock curCount heartDue).Tallied where
  same honline := absurd honline Bool.false_ne_true
  offline _ := rfl
  finite type := (Store.number_initNewPlayer hnodup hlength now type).1
  number type := (Store.number_initNewPlayer hnodup hlength now type).2

theorem order_estate (sn : String) : (s.order sn e).estate = e := by
  unfold order
  split
  · rfl
  · split_ifs
    · rfl
    · rfl

theorem order_online (sn : String) : (s.order sn e).online = s.online := by
  unfold order
  split
  · rfl
  · split_ifs
    · rfl
    · rfl

theorem Tallied.of_store (h : s.Tallied) (hsame : t.online → t.estate.SameTypes)
    (hoffline : ¬ t.online → t.estate.player = {})
    (htypes : t.estate.store.types = s.estate.store.types)
    (hnum : t.estate.store.buildNum = s.estate.store.buildNum) : t.Tallied := by
  refine ⟨hsame, hoffline, ?_, ?_⟩
  · rw [htypes]
    exact h.finite
  · rw [htypes, hnum]
    exact h.number

theorem Tallied.of_keeps (h : s.Tallied) (honline : t.online)
    (hkeeps : s.estate.Keeps t.estate) : t.Tallied :=
  h.of_store (fun _ => hkeeps.same) (fun hoffline => absurd honline hoffline) hkeeps.types
    hkeeps.buildNum

theorem Tallied.of_counted {type : Int} {sn : String} (h : s.Tallied) (honline : t.online)
    (hnew : s.estate.store.build sn = none) (hcounted : s.estate.Counted t.estate type sn) :
    t.Tallied := by
  have hnone : s.estate.store.types sn = none := by
    rw [Store.types, hnew]
    rfl
  refine ⟨fun _ => hcounted.same, fun hoffline => absurd honline hoffline, ?_, ?_⟩
  · rw [hcounted.types]
    exact Tally.finite_update hnone h.finite
  · intro other
    rw [hcounted.types, hcounted.buildNum, Function.update_apply]
    split_ifs with hother hleft hleft
    · rw [hother, Tally.number_update_self hnone (h.finite type)]
      have hnumber := h.number type
      rw [hother] at hleft
      rw [if_pos hleft] at hnumber
      push_cast
      omega
    · rw [hother, Tally.number_update_self hnone (h.finite type)]
      have hnumber := h.number type
      rw [hother] at hleft
      rw [if_neg hleft] at hnumber
      push_cast
      omega
    · rw [Tally.number_update_of_ne hnone hother, ← h.number other, if_pos hleft]
    · rw [Tally.number_update_of_ne hnone hother, ← h.number other, if_neg hleft]

theorem tallied_step {ev : SiteEvent} (h : s.Tallied) (ht : s.step cfg ev = some t) :
    t.Tallied := by
  unfold step at ht
  cases ev with
  | wait seconds =>
    obtain rfl := Option.some.inj ht
    exact h.of_store h.same h.offline rfl rfl
  | buildCreate type sn =>
    dsimp only at ht
    split_ifs at ht with hnew
    obtain ⟨honline, hplayer, hstore⟩ := hnew
    obtain ⟨r, hr, rfl⟩ := Option.map_eq_some_iff.mp ht
    have honline' : (s.order sn r.estate).online := (order_online sn).trans honline
    rcases Estate.counted_buildCreate (h.same honline) hr with ⟨-, hsame⟩ | ⟨-, hcounted⟩
    · rwa [hsame, order_self]
    · apply h.of_counted honline' (Option.isNone_iff_eq_none.mp hstore)
      rwa [order_estate]
  | buildUpgrade sn =>
    dsimp only at ht
    split_ifs at ht with honline
    obtain ⟨r, hr, rfl⟩ := Option.map_eq_some_iff.mp ht
    apply h.of_keeps ((order_online sn).trans honline)
    rw [order_estate]
    exact Estate.keeps_buildUpgrade (h.same honline) hr
  | timeout id =>
    obtain ⟨e, he, rfl⟩ := Option.map_eq_some_iff.mp ht
    have honline : s.online := by
      obtain ⟨timer, u, htimer, -⟩ := Estate.timeout_cases he
      by_contra hoffline
      rw [h.offline hoffline] at htimer
      exact Option.some_ne_none timer htimer.symm
    exact h.of_keeps honline (Estate.keeps_timeout (h.same honline) he)
  | heartCheck =>
    dsimp only at ht
    split_ifs at ht
    · obtain rfl := Option.some.inj ht
      exact h.of_store h.same h.offline rfl rfl
    · obtain ⟨e, he, rfl⟩ := Option.map_eq_some_iff.mp ht
      by_cases honline : s.online
      · exact h.of_keeps honline (Estate.keeps_heartCheck (h.same honline) he)
      · have hnone : s.estate.heartCheck cfg s.clock = some s.estate := by
          unfold Estate.heartCheck
          rw [h.offline honline]
          rfl
        obtain rfl := Option.some.inj (hnone.symm.trans he)
        exact h.of_store h.same h.offline rfl rfl
  | logout =>
    dsimp only at ht
    split_ifs at ht
    obtain rfl := Option.some.inj ht
    exact h.of_store (fun honline => absurd honline Bool.false_ne_true) (fun _ => rfl) rfl rfl
  | login =>
    dsimp only at ht
    split_ifs at ht
    obtain ⟨e, he, rfl⟩ := Option.map_eq_some_iff.mp ht
    obtain ⟨hsame, htypes, hnum⟩ := Estate.keeps_login he
    exact h.of_store (fun _ => hsame) (fun hoffline => absurd rfl hoffline) htypes hnum

theorem tallied_worksStep {ev : WorksEvent} (h : s.Tallied) (ht : s.worksStep cfg ev = some t) :
    t.Tallied := by
  unfold worksStep at ht
  cases ev with
  | site ev => exact tallied_step h ht
  | fastFinish sn =>
    dsimp only at ht
    split_ifs at ht with honline
    obtain ⟨r, hr, rfl⟩ := Option.map_eq_some_iff.mp ht
    exact h.of_keeps honline (Estate.keeps_fastFinish (h.same honline) hr)
  | buildStatusList sns =>
    dsimp only at ht
    split_ifs at ht with honline
    obtain rfl := Option.some.inj ht
    obtain ⟨hsame, htypes, hnum⟩ := Estate.keeps_buildStatusList (h.same honline).buildNum sns
    exact h.of_keeps honline ⟨hsame, htypes, hnum⟩

def Numbered (type : Int) (s : Site) : Prop :=
  s.online → s.estate.player.buildNum type = Tally.number s.estate.player.types type

/-- An accepted BuildCreate leaves no more buildings of the type than the limit that it was
checked against. -/
def WithinLimit (cfg : Config) (type : Int) (s : Site) : WorksEvent → Prop
  | .site (.buildCreate type' sn) => type' = type → s.estate.CanCreate cfg type →
    ∀ hall limit, s.estate.player.myBuild s.estate.player.cityHallUuid = some hall →
      cfg.cityLimit? hall.buildLevel type = some limit →
      ∀ t, s.worksStep cfg (.site (.buildCreate type' sn)) = some t →
        Tally.number t.estate.player.types type ≤ limit.maxNum
  | _ => True

theorem Tallied.numbered {type : Int} (h : s.Tallied) (htype : type ≠ 14) : s.Numbered type := by
  intro honline
  rw [(h.same honline).types, (h.same honline).buildNum, ← h.number, if_neg htype, add_zero]

theorem Tallied.withinLimit {type : Int} {ev : WorksEvent} (h : s.Tallied) (htype : type ≠ 14) :
    s.WithinLimit cfg type ev := by
  unfold WithinLimit
  split
  · next type' sn =>
    intro htype' hcan hall limit hhall hlimit t ht
    subst htype'
    have hnumbered := (tallied_worksStep h ht).numbered htype
    unfold worksStep step at ht
    dsimp only at ht
    split_ifs at ht with hnew
    obtain ⟨honline, -, -⟩ := hnew
    obtain ⟨r, hr, rfl⟩ := Option.map_eq_some_iff.mp ht
    have hsame := h.same honline
    rcases Estate.counted_buildCreate hsame hr with ⟨hnot, -⟩ | ⟨-, hcounted⟩
    · exact absurd hcan hnot
    obtain ⟨-, -, -, hall', limit', -, hhall', -, hlimit', hcount⟩ := hcan
    obtain rfl := Option.some.inj (hhall.symm.trans hhall')
    obtain rfl := Option.some.inj (hlimit.symm.trans hlimit')
    have hnumber := hnumbered ((order_online sn).trans honline)
    rw [order_estate] at hnumber ⊢
    rw [← hnumber, hcounted.same.buildNum, hcounted.buildNum, Function.update_self,
      ← hsame.buildNum]
    exact hcount
  · trivial

theorem login_initNewPlayer (cfg : Config) (sns : List String) (now clock : Int) (curCount : ℕ)
    (heartDue : Int) : ∃ t, (start (Store.initNewPlayer sns now) clock curCount heartDue).worksStep
      cfg (.site .login) = some t ∧ t.online := by
  have htimer : (Store.initNewPlayer sns now).timer = [] := Store.timer_foldl_addNew _
  have hlogin : ∃ e, Estate.login cfg { store := Store.initNewPlayer sns now } clock = some e := by
    unfold Estate.login
    rw [htimer]
    exact ⟨_, rfl⟩
  obtain ⟨e, he⟩ := hlogin
  exact ⟨_, congrArg (Option.map _) he, rfl⟩

/-- On any run of a new player, from the first login on, the number of a type is that of its
buildings and keeps them within the limit, but for the one type whose first building set the
number of another. -/
theorem numbered_run_iff (cfg : Config) {sns : List String} (hnodup : sns.Nodup)
    (hlength : sns.length = 18) (now clock : Int) (curCount : ℕ) (heartDue : Int)
    (es : List WorksEvent) (type : Int) :
    (Run.Always (worksStep cfg) (Numbered type)
        (start (Store.initNewPlayer sns now) clock curCount heartDue) (.site .login :: es) ∧
      Run.EachStep (worksStep cfg) (WithinLimit cfg type)
        (start (Store.initNewPlayer sns now) clock curCount heartDue) (.site .login :: es)) ↔
    type ≠ 14 := by
  have hstart := tallied_start hnodup hlength now clock curCount heartDue
  have hkept : ∀ s e t, Tallied s → worksStep cfg s e = some t → Tallied t :=
    fun _ _ _ h ht => tallied_worksStep h ht
  constructor
  · rintro ⟨⟨-, hafter⟩, -⟩ rfl
    obtain ⟨t, ht, honline⟩ := login_initNewPlayer cfg sns now clock curCount heartDue
    have htallied := hkept _ _ _ hstart ht
    have hsame := htallied.same honline
    have hnumbered := (hafter t ht).start honline
    have hnumber := htallied.number 14
    rw [hsame.types, hsame.buildNum, ← hnumber, if_pos rfl] at hnumbered
    omega
  · intro htype
    refine ⟨?_, ?_⟩
    · exact (Run.always_of_invariant hkept hstart _).mono fun _ h => h.numbered htype
    · exact Run.eachStep_of_invariant hkept (fun _ _ h => h.withinLimit htype) hstart _

theorem numbered_run_iff_upgrade :
    (Run.Always (worksStep { cityLimit := List.replicate 4 (List.replicate 20 { maxNum := 1 }) })
        (Numbered 1) (start (Store.initNewPlayer ["a", "b", "c", "d", "e", "f", "g", "h", "i", "j",
          "k", "l", "m", "n", "o", "p", "q", "r"] 0) 0 0 0)
        [.site .login, .site (.buildUpgrade "b")] ∧
      Run.EachStep (worksStep { cityLimit := List.replicate 4 (List.replicate 20 { maxNum := 1 }) })
        (WithinLimit { cityLimit := List.replicate 4 (List.replicate 20 { maxNum := 1 }) } 1)
        (start (Store.initNewPlayer ["a", "b", "c", "d", "e", "f", "g", "h", "i", "j",
          "k", "l", "m", "n", "o", "p", "q", "r"] 0) 0 0 0)
        [.site .login, .site (.buildUpgrade "b")]) ↔
    (1 : Int) ≠ 14 :=
  numbered_run_iff _ (by decide) rfl 0 0 0 0 [.site (.buildUpgrade "b")] 1

/-- A new player who may have one building of type 14 gets a second one. -/
theorem not_withinLimit_second :
    ¬ ∀ (cfg : Config) (sns : List String), sns.Nodup → sns.length = 18 →
      ∀ (now clock : Int) (curCount : ℕ) (heartDue : Int) (es : List WorksEvent) (type : Int),
        Run.Always (worksStep cfg) (Numbered type)
          (start (Store.initNewPlayer sns now) clock curCount heartDue) (.site .login :: es) ∧
        Run.EachStep (worksStep cfg) (WithinLimit cfg type)
          (start (Store.initNewPlayer sns now) clock curCount heartDue) (.site .login :: es) := by
  intro hall
  let cfg : Config :=
    { globalBuild := List.replicate 20 [{}]
      cityLimit := List.replicate 4 (List.replicate 20 { maxNum := 1 }) }
  let sns : List String := ["a", "b", "c", "d", "e", "f", "g", "h", "i", "j", "k", "l", "m", "n",
    "o", "p", "q", "r"]
  have hstart : (start (Store.initNewPlayer sns 0) 0 0 0).Tallied :=
    tallied_start (by decide) rfl 0 0 0 0
  have hend : (Run.exec (worksStep cfg) (start (Store.initNewPlayer sns 0) 0 0 0)
      [.site .login, .site (.buildCreate 14 "s")]).map
        (fun s => (s.online, s.estate.store.buildNum 14)) = some (true, 1) := by decide
  obtain ⟨u, hu, hone⟩ := Option.map_eq_some_iff.mp hend
  obtain ⟨honline, hone⟩ := Prod.mk.inj hone
  have htallied : u.Tallied :=
    Run.exec_invariant (I := Tallied) (fun _ _ _ h ht => tallied_worksStep h ht) hstart hu
  have hnumber := htallied.number 14
  obtain ⟨-, hlimits⟩ := hall cfg sns (by decide) rfl 0 0 0 0 [.site (.buildCreate 14 "s")] 14
  obtain ⟨-, hlimits⟩ := hlimits _ rfl
  obtain ⟨hlimit, -⟩ := hlimits _ rfl
  -- the building that the player has is not counted
  have hle := hlimit rfl ⟨by decide, by decide, {}, _, { maxNum := 1 }, rfl, rfl, by decide, rfl,
    by decide⟩ _ _ rfl rfl u hu
  rw [(htallied.same honline).types, ← hnumber, hone] at hle
  exact absurd hle (by decide)

end Site

end IceBridge.Gateway
