import IceBridge.Gateway.Effects

/-! Each level of a building has been paid for as long as what ends a construction finds one:
a finished building stays in the stored list of those under construction, and a timer that
`building_timer` has forgotten still expires. -/

namespace IceBridge.Gateway

namespace Build

def reached (b : Option Build) : Int := b.elim 0 buildLevel

def ordered (b : Option Build) : Int :=
  b.elim 0 fun b => if b.status = 1 then b.buildLevel + 1 else b.buildLevel

def standing (b : Build) : Int × Int := (b.status, b.buildLevel)

theorem reached_eq_of_standing {a b : Option Build} (h : a.map standing = b.map standing) :
    reached a = reached b := by
  cases a <;> cases b <;> simp_all [reached, standing]

theorem ordered_eq_of_standing {a b : Option Build} (h : a.map standing = b.map standing) :
    ordered a = ordered b := by
  cases a <;> cases b <;> simp_all [ordered, standing]

end Build

namespace Estate
variable {cfg : Config} {e u t : Estate} {sn : String} {now : Int}

theorem finished_standing {b b' : Build} (h : finished cfg b now = some b') :
    b'.standing = (0, b.buildLevel + 1) := by
  obtain ⟨level, -, h⟩ := Option.bind_eq_some_iff.mp h
  obtain rfl := Option.some.inj h
  rfl

def Agrees (e : Estate) : Prop :=
  ∀ sn, (e.player.myBuild sn).map Build.standing = (e.store.build sn).map Build.standing

structure Proceeds (e t : Estate) : Prop where
  agrees : t.Agrees
  ordered : ∀ sn, Build.ordered (t.store.build sn) = Build.ordered (e.store.build sn)
  reached : ∀ sn, Build.reached (e.store.build sn) ≤ Build.reached (t.store.build sn)

theorem Proceeds.of_standing (h : e.Agrees)
    (hplayer : ∀ sn, (t.player.myBuild sn).map Build.standing =
      (e.player.myBuild sn).map Build.standing)
    (hstore : ∀ sn, (t.store.build sn).map Build.standing =
      (e.store.build sn).map Build.standing) : e.Proceeds t where
  agrees sn := by rw [hplayer, hstore, h]
  ordered sn := Build.ordered_eq_of_standing (hstore sn)
  reached sn := (Build.reached_eq_of_standing (hstore sn)).ge

theorem Proceeds.refl (h : e.Agrees) : e.Proceeds e :=
  .of_standing h (fun _ => rfl) fun _ => rfl

theorem Proceeds.trans (h : e.Proceeds u) (h' : u.Proceeds t) : e.Proceeds t where
  agrees := h'.agrees
  ordered sn := (h'.ordered sn).trans (h.ordered sn)
  reached sn := (h.reached sn).trans (h'.reached sn)

theorem Writes.agrees {b : Build} (h : e.Writes t sn b) (he : e.Agrees) : t.Agrees := by
  intro v
  rw [h.myBuild, h.build]
  by_cases hv : v = sn
  · subst hv
    simp
  · simpa [hv] using he v

def underConstruction (e : Estate) (sn : String) : Bool :=
  (e.player.myBuild sn).any (·.status = 1)

theorem underConstruction_iff :
    e.underConstruction sn ↔ ∃ b, e.player.myBuild sn = some b ∧ b.status = 1 := by
  simp [underConstruction, Option.any_eq_true]

theorem Completes.proceeds (h : Completes cfg e t sn now) (he : e.Agrees)
    (hbuild : e.underConstruction sn) : e.Proceeds t := by
  obtain ⟨b, b', hb, hfinished, hwrites⟩ := h
  obtain ⟨b₀, hb₀, hstatus⟩ := underConstruction_iff.mp hbuild
  obtain rfl := Option.some.inj (hb₀.symm.trans hb)
  have hstanding : (e.store.build sn).map Build.standing = some b₀.standing := by
    rw [← he sn, hb₀, Option.map_some]
  obtain ⟨c, hc, hcb⟩ := Option.map_eq_some_iff.mp hstanding
  have hnew := Prod.ext_iff.mp (finished_standing hfinished)
  have hold := Prod.ext_iff.mp hcb
  simp only [Build.standing] at hnew hold
  refine ⟨hwrites.agrees he, fun v => ?_, fun v => ?_⟩
  · rw [hwrites.build]
    by_cases hv : v = sn
    · subst hv
      simp [Build.ordered, hc, hnew, hold, hstatus]
    · rw [Function.update_of_ne hv]
  · rw [hwrites.build]
    by_cases hv : v = sn
    · subst hv
      simp only [Build.reached, hc, Function.update_self, Option.elim_some, hnew, hold]
      omega
    · rw [Function.update_of_ne hv]

theorem Proceeds.trans_same (h : e.Proceeds u) (hmyBuild : t.player.myBuild = u.player.myBuild)
    (hbuild : t.store.build = u.store.build) : e.Proceeds t :=
  h.trans (.of_standing h.agrees (fun v => by rw [hmyBuild]) fun v => by rw [hbuild])

theorem Proceeds.trans_finish {b : Build} (h : e.Proceeds u) (hb : u.player.myBuild sn = some b)
    (hstatus : b.status = 1) (ht : u.buildTimerHandle cfg sn now = some t) : e.Proceeds t := by
  rcases buildTimerHandle_cases ht with ⟨-, rfl⟩ | hcompletes
  · exact h
  · exact h.trans (hcompletes.proceeds h.agrees (underConstruction_iff.mpr ⟨b, hb, hstatus⟩))

/-- A building under construction is given the time that is left: `e'` comes before the end of
the construction or the new timer. -/
theorem proceeds_of_remaining {b b' : Build} {e' : Estate} (he : e.Agrees)
    (hb : e.player.myBuild sn = some b) (hstanding : b'.standing = b.standing)
    (hmyBuild : e'.player.myBuild = Function.update e.player.myBuild sn (some b'))
    (hbuild : e'.store.build = e.store.build ∨
      e'.store.build = Function.update e.store.build sn (some b')) : e.Proceeds e' := by
  have hkept : ∀ {f g : String → Option Build}, (f sn).map Build.standing = some b.standing →
      g = Function.update f sn (some b') →
      ∀ v, (g v).map Build.standing = (f v).map Build.standing := by
    rintro f g hf rfl v
    by_cases hv : v = sn
    · subst hv
      simp [hf, hstanding]
    · simp [hv]
  refine .of_standing he (hkept (by simp [hb]) hmyBuild) ?_
  rcases hbuild with hbuild | hbuild
  · exact fun v => by rw [hbuild]
  · exact hkept (by rw [← he sn, hb, Option.map_some]) hbuild

theorem tick_proceeds (ht : tick cfg now e sn = some t) (he : e.Agrees) : e.Proceeds t := by
  unfold tick at ht
  split at ht
  · obtain rfl := Option.some.inj ht
    exact .refl he
  next b hb =>
  split at ht
  · next hstatus =>
    set b' : Build := { b with time := b.time - 1100 }
    have hstanding : b'.standing = b.standing := rfl
    have hleft : e.Proceeds { e with player := e.player.setMyBuild sn b' } :=
      proceeds_of_remaining he hb hstanding rfl (.inl rfl)
    have hb' : (e.player.setMyBuild sn b').myBuild sn = some b' := Function.update_self ..
    dsimp only at ht
    split_ifs at ht
    · exact hleft.trans_finish hb' hstatus ht
    · obtain rfl := Option.some.inj ht
      exact hleft.trans_same (Player.enTimer_myBuild _ _ _) rfl
    · obtain rfl := Option.some.inj ht
      exact hleft
  · obtain rfl := Option.some.inj ht
    exact .refl he

theorem resume_proceeds (ht : resume cfg now e sn = some t) (he : e.Agrees) : e.Proceeds t := by
  unfold resume at ht
  split at ht
  · obtain rfl := Option.some.inj ht
    exact .refl he
  next b hb =>
  split at ht
  · next hstatus =>
    set b' : Build := { b with time := b.time - (now - b.ctime), ctime := now }
    have hstanding : b'.standing = b.standing := rfl
    have hleft : e.Proceeds { e with player := e.player.setMyBuild sn b' } :=
      proceeds_of_remaining he hb hstanding rfl (.inl rfl)
    have hstored : e.Proceeds
        (({ e with player := e.player.setMyBuild sn b' } : Estate).setBuild sn b') :=
      proceeds_of_remaining he hb hstanding rfl (.inr rfl)
    have hb' : (e.player.setMyBuild sn b').myBuild sn = some b' := Function.update_self ..
    dsimp only at ht
    -- the time left is stored, unless the construction has ended meanwhile
    split_ifs at ht
    · exact hleft.trans_finish hb' hstatus ht
    · obtain rfl := Option.some.inj ht
      exact hstored.trans_same (Player.enTimer_myBuild _ _ _) rfl
    · obtain rfl := Option.some.inj ht
      exact hstored
  · obtain rfl := Option.some.inj ht
    exact .refl he

theorem heartCheck_proceeds (ht : e.heartCheck cfg now = some t) (he : e.Agrees) :
    e.Proceeds t :=
  Run.foldlM_preserves (I := fun u _ => e.Proceeds u)
    (fun _ _ _ _ h ht => h.trans (tick_proceeds ht h.agrees)) (.refl he) ht

theorem loaded_standing (b : Build) : (loaded b now).standing = b.standing := by
  unfold loaded
  split_ifs <;> rfl

theorem getBuildMap_myBuild (v : String) :
    ((e.getBuildMap now).player.myBuild v).map Build.standing =
      (e.store.build v).map Build.standing := by
  simp [getBuildMap, Function.comp_def, loaded_standing]

theorem login_proceeds (ht : e.login cfg now = some t) :
    t.Agrees ∧ (∀ v, Build.ordered (t.store.build v) = Build.ordered (e.store.build v)) ∧
      ∀ v, Build.reached (e.store.build v) ≤ Build.reached (t.store.build v) := by
  have hloaded : ∀ u : Estate, (u.getBuildMap now).Agrees := fun u v => u.getBuildMap_myBuild v
  have h := Run.foldlM_preserves (I := fun u _ => Proceeds _ u)
    (fun _ _ _ _ h ht => h.trans (resume_proceeds ht h.agrees)) (.refl (hloaded _)) ht
  exact ⟨h.agrees, h.ordered, h.reached⟩

theorem timeout_cases {id : ℕ} (ht : e.timeout cfg id now = some t) :
    ∃ timer, ∃ u : Estate,
      e.player.timers.find? (fun timer => timer.id = id ∧ timer.due ≤ now) = some timer ∧
      u.player.myBuild = e.player.myBuild ∧ u.store.build = e.store.build ∧
      u.buildTimerHandle cfg timer.buildSn now = some t := by
  obtain ⟨timer, htimer, ht⟩ := Option.bind_eq_some_iff.mp ht
  exact ⟨timer, { e with player := { e.player with timers := e.player.timers.filter fun timer =>
    timer.id ≠ id } }, htimer, rfl, rfl, ht⟩

theorem buildStatusList_proceeds (e : Estate) (now : Int) (sns : List String) :
    (e.getBuildMap now).Proceeds (e.buildStatusList sns now).estate := by
  have hloaded : (e.getBuildMap now).Agrees := e.getBuildMap_myBuild
  refine List.foldlRecOn (motive := (e.getBuildMap now).Proceeds) sns _ (.refl hloaded) ?_
  intro u hu v _
  split
  · exact hu
  · next b hb =>
    exact hu.trans (proceeds_of_remaining hu.agrees hb (Eq.refl b.standing)
      (Function.update_eq_self_iff.mpr hb.symm).symm (.inr rfl))

end Estate

/-- A player's works: the session and the store, the time, and how often `HeartCheck` has run
since it last came to the buildings. -/
structure Site where
  estate : Estate := {}
  online : Bool := false
  clock : Int := 0
  curCount : ℕ := 0
  /-- When the timer of `HeartCheck` expires next. -/
  heartDue : Int := 0
  /-- The level at the start, one for a construction under way then, and one for each order. -/
  paid : String → Int := fun _ => 0
  /-- The level at the start, and every increment. -/
  raised : String → Int := fun _ => 0
  /-- When the last construction is due. -/
  due : String → Int := fun _ => 0

inductive SiteEvent
  | wait (seconds : ℕ)
  /-- `sn` is new, as it comes from `createRandom`. -/
  | buildCreate (type : Int) (sn : String)
  | buildUpgrade (sn : String)
  | timeout (id : ℕ)
  | heartCheck
  | logout
  | login

inductive WorksEvent
  | site (e : SiteEvent)
  | fastFinish (sn : String)
  | buildStatusList (sns : List String)

def Estate.level (e : Estate) (sn : String) : Int :=
  Build.reached ((e.player.myBuild sn).or (e.store.build sn))

namespace Site

def start (store : Store) (clock : Int) (curCount : ℕ) (heartDue : Int) : Site where
  estate := { store := store }
  clock := clock
  curCount := curCount
  heartDue := heartDue
  paid sn := Build.ordered (store.build sn)
  raised sn := Build.reached (store.build sn)
  due sn := (store.build sn).elim clock fun b => if b.status = 1 then b.ctime + b.time else clock

def put (s : Site) (e : Estate) : Site :=
  { s with
    estate := e
    raised := fun sn => s.raised sn + max 0 (e.level sn - s.estate.level sn) }

/-- The request was accepted if `sn` is under construction now and was not before. -/
def order (s : Site) (sn : String) (e : Estate) : Site :=
  match e.player.myBuild sn with
  | none => s.put e
  | some b =>
    if b.status = 1 ∧ ¬ s.estate.underConstruction sn then
      { s.put e with
        paid := Function.update s.paid sn (s.paid sn + 1)
        due := Function.update s.due sn (s.clock + b.time) }
    else s.put e

def step (cfg : Config) (s : Site) : SiteEvent → Option Site
  | .wait seconds => some { s with clock := s.clock + seconds }
  | .buildCreate type sn =>
    if s.online ∧ (s.estate.player.myBuild sn).isNone ∧ (s.estate.store.build sn).isNone then
      (s.estate.buildCreate cfg type sn s.clock).map fun r => s.order sn r.estate
    else none
  | .buildUpgrade sn =>
    if s.online then
      (s.estate.buildUpgrade cfg sn s.clock).map fun r => s.order sn r.estate
    else none
  | .timeout id => (s.estate.timeout cfg id s.clock).map s.put
  | .heartCheck =>
    if s.heartDue ≤ s.clock then
      -- every 5 seconds
      let t := { s with curCount := s.curCount + 1, heartDue := s.heartDue + 5 }
      if t.curCount < 200 then some t
      else (t.estate.heartCheck cfg t.clock).map { t with curCount := 0 }.put
    else none
  | .logout => if s.online then some { s.put s.estate.logout with online := false } else none
  | .login =>
    if s.online then none
    else (s.estate.login cfg s.clock).map fun e => { s.put e with online := true }

def worksStep (cfg : Config) (s : Site) : WorksEvent → Option Site
  | .site e => s.step cfg e
  | .fastFinish sn =>
    if s.online then (s.estate.fastFinish cfg sn s.clock).map fun r => s.put r.estate else none
  | .buildStatusList sns =>
    if s.online then some (s.put (s.estate.buildStatusList sns s.clock).estate) else none

structure Booked (s : Site) : Prop where
  agrees : s.online → s.estate.Agrees
  offline : ¬ s.online → s.estate.player = {}
  paid : ∀ sn, Build.ordered (s.estate.store.build sn) = s.paid sn
  raised : ∀ sn, Build.reached (s.estate.store.build sn) = s.raised sn

variable {cfg : Config} {s t : Site} {e : Estate} {sn : String}

theorem level_of_agrees (h : e.Agrees) (sn : String) :
    e.level sn = Build.reached (e.store.build sn) := by
  unfold Estate.level
  cases hb : e.player.myBuild sn with
  | none => rfl
  | some b =>
    have hstanding := h sn
    rw [hb] at hstanding
    exact Build.reached_eq_of_standing hstanding

theorem Booked.level (h : s.Booked) (sn : String) : s.estate.level sn = s.raised sn := by
  rw [← h.raised]
  by_cases honline : s.online
  · exact level_of_agrees (h.agrees honline) sn
  · rw [Estate.level, h.offline honline]
    rfl

/-- No building has been raised more often than was paid for, or stands higher. -/
def PaidFor (s : Site) : Prop :=
  ∀ sn, s.raised sn ≤ s.paid sn ∧ s.estate.level sn ≤ s.paid sn

theorem Booked.paidFor (h : s.Booked) : s.PaidFor := by
  intro sn
  have hle : s.raised sn ≤ s.paid sn := by
    rw [← h.raised, ← h.paid, Build.reached, Build.ordered]
    cases s.estate.store.build sn with
    | none => exact le_rfl
    | some b =>
      simp only [Option.elim_some]
      split_ifs <;> omega
  exact ⟨hle, (h.level sn).trans_le hle⟩

theorem Booked.put_raised (h : s.Booked) (he : e.Agrees) (sn : String)
    (hle : Build.reached (s.estate.store.build sn) ≤ Build.reached (e.store.build sn)) :
    (s.put e).raised sn = Build.reached (e.store.build sn) := by
  have hput : (s.put e).raised sn = s.raised sn + max 0 (e.level sn - s.estate.level sn) := rfl
  rw [hput, level_of_agrees he, h.level, ← h.raised]
  omega

theorem booked_start (store : Store) (clock : Int) (curCount : ℕ) (heartDue : Int) :
    (start store clock curCount heartDue).Booked where
  agrees h := absurd h (by simp [start])
  offline _ := rfl
  paid _ := rfl
  raised _ := rfl

theorem Booked.login (h : s.Booked) (he : e.Agrees)
    (hordered : ∀ v, Build.ordered (e.store.build v) = Build.ordered (s.estate.store.build v))
    (hreached : ∀ v, Build.reached (s.estate.store.build v) ≤ Build.reached (e.store.build v)) :
    ({ s.put e with online := true } : Site).Booked where
  agrees _ := he
  offline honline := absurd rfl honline
  paid v := (hordered v).trans (h.paid v)
  raised v := (h.put_raised he v (hreached v)).symm

theorem Booked.put (h : s.Booked) (honline : s.online) (he : s.estate.Proceeds e) :
    (s.put e).Booked := by
  have hlogin := h.login he.agrees he.ordered he.reached
  exact ⟨fun _ => he.agrees, fun hoffline => absurd honline hoffline, hlogin.paid, hlogin.raised⟩

@[simp] theorem put_self : s.put s.estate = s := by
  simp [put]

theorem order_self : s.order sn s.estate = s := by
  unfold order
  split
  · exact put_self
  · next b hb =>
    rw [if_neg, put_self]
    rintro ⟨hstatus, hbuild⟩
    exact hbuild (Estate.underConstruction_iff.mpr ⟨b, hb, hstatus⟩)

theorem order_of_orders {b : Build} (horders : s.estate.Orders e sn b s.clock)
    (hstanding : ∀ old, s.estate.player.myBuild sn = some old → old.status ≠ 1) :
    s.order sn e = { s.put e with
      paid := Function.update s.paid sn (s.paid sn + 1)
      due := Function.update s.due sn (s.clock + b.time) } := by
  have hb : e.player.myBuild sn = some b := by
    rw [horders.writes.myBuild, Function.update_self]
  obtain ⟨-, -, -, hstatus, -⟩ := horders
  have hnot : ¬ s.estate.underConstruction sn := fun hbuild => by
    obtain ⟨old, hold, hone⟩ := Estate.underConstruction_iff.mp hbuild
    exact hstanding old hold hone
  unfold order
  rw [hb]
  exact if_pos ⟨hstatus, hnot⟩

theorem Booked.order {b : Build} (h : s.Booked) (honline : s.online)
    (horders : s.estate.Orders e sn b s.clock)
    (hstanding : ∀ old, s.estate.player.myBuild sn = some old → old.status ≠ 1)
    (hlevel : Build.reached (s.estate.player.myBuild sn) = b.buildLevel) :
    (s.order sn e).Booked := by
  have hwrites := horders.writes
  have he : e.Agrees := hwrites.agrees (h.agrees honline)
  have hreached : Build.reached (s.estate.store.build sn) = b.buildLevel :=
    (Build.reached_eq_of_standing (h.agrees honline sn)).symm.trans hlevel
  have hordered : Build.ordered (s.estate.store.build sn) = b.buildLevel := by
    rw [← hlevel, ← Build.ordered_eq_of_standing (h.agrees honline sn)]
    cases hold : s.estate.player.myBuild sn with
    | none => rfl
    | some old => simp [Build.ordered, Build.reached, hstanding old hold]
  rw [order_of_orders horders hstanding]
  obtain ⟨-, -, -, hstatus, -⟩ := horders
  refine ⟨fun _ => he, fun hoffline => absurd honline hoffline, fun v => ?_, fun v => ?_⟩
  · change Build.ordered (e.store.build v) = Function.update s.paid sn (s.paid sn + 1) v
    rw [hwrites.build]
    by_cases hv : v = sn
    · subst hv
      rw [Function.update_self, Function.update_self, ← h.paid, hordered]
      simp [Build.ordered, hstatus]
    · rw [Function.update_of_ne hv, Function.update_of_ne hv, h.paid]
  · refine (h.put_raised he v ?_).symm
    rw [hwrites.build]
    by_cases hv : v = sn
    · subst hv
      rw [Function.update_self, hreached]
      exact le_rfl
    · rw [Function.update_of_ne hv]

def FindsWork (s : Site) : WorksEvent → Prop
  | .fastFinish sn => s.estate.CanFinish sn s.clock → s.estate.underConstruction sn
  | .site (.timeout id) => ∀ timer,
      s.estate.player.timers.find? (fun timer => timer.id = id ∧ timer.due ≤ s.clock) = some timer →
        ∀ b, s.estate.player.myBuild timer.buildSn = some b → b.status = 1
  | _ => True

theorem Booked.online_of_timer {timer : Timer} (h : s.Booked)
    (htimer : timer ∈ s.estate.player.timers) : s.online := by
  by_contra hoffline
  rw [h.offline hoffline] at htimer
  exact absurd htimer List.not_mem_nil

theorem booked_step {ev : SiteEvent} (h : s.Booked) (ht : s.step cfg ev = some t)
    (hfinds : s.FindsWork (.site ev)) : t.Booked := by
  unfold step at ht
  cases ev with
  | wait seconds =>
    obtain rfl := Option.some.inj ht
    exact ⟨h.agrees, h.offline, h.paid, h.raised⟩
  | buildCreate type sn =>
    dsimp only at ht
    split_ifs at ht with hnew
    obtain ⟨honline, hplayer, hstore⟩ := hnew
    obtain ⟨r, hr, rfl⟩ := Option.map_eq_some_iff.mp ht
    rw [Option.isNone_iff_eq_none] at hplayer
    rcases Estate.buildCreate_cases hr with ⟨-, hsame⟩ | ⟨-, -, b, horders, hlevel⟩
    · rwa [hsame, order_self]
    · refine h.order honline horders (fun old hold => ?_) ?_
      · exact absurd (hplayer.symm.trans hold) (by simp)
      · rw [hplayer, hlevel]
        rfl
  | buildUpgrade sn =>
    dsimp only at ht
    split_ifs at ht with honline
    obtain ⟨r, hr, rfl⟩ := Option.map_eq_some_iff.mp ht
    rcases Estate.buildUpgrade_cases hr with
      ⟨-, hsame⟩ | ⟨-, -, b, old, horders, hold, hstatus, hlevel⟩
    · rwa [hsame, order_self]
    · refine h.order honline horders (fun old' hold' => ?_) ?_
      · obtain rfl := Option.some.inj (hold.symm.trans hold')
        exact hstatus
      · rw [hold, hlevel]
        rfl
  | timeout id =>
    obtain ⟨e, he, rfl⟩ := Option.map_eq_some_iff.mp ht
    obtain ⟨timer, u, htimer, hmyBuild, hbuild, hu⟩ := Estate.timeout_cases he
    have honline : s.online := h.online_of_timer (List.mem_of_find?_eq_some htimer)
    -- the timer itself is gone before its handler runs
    have hsame : s.estate.Proceeds u :=
      (Estate.Proceeds.refl (h.agrees honline)).trans_same hmyBuild hbuild
    rcases Estate.buildTimerHandle_cases hu with ⟨-, rfl⟩ | ⟨b, b', hb, -⟩
    · exact h.put honline hsame
    · have hstatus : b.status = 1 := hfinds timer htimer b (hmyBuild ▸ hb)
      exact h.put honline (hsame.trans_finish hb hstatus hu)
  | heartCheck =>
    dsimp only at ht
    split_ifs at ht
    · obtain rfl := Option.some.inj ht
      exact ⟨h.agrees, h.offline, h.paid, h.raised⟩
    · obtain ⟨e, he, rfl⟩ := Option.map_eq_some_iff.mp ht
      have hcount : ({ s with curCount := 0, heartDue := s.heartDue + 5 } : Site).Booked :=
        ⟨h.agrees, h.offline, h.paid, h.raised⟩
      -- without a session there are no buildings to come to
      by_cases honline : s.online
      · exact hcount.put honline (Estate.heartCheck_proceeds he (h.agrees honline))
      · have hnone : s.estate.heartCheck cfg s.clock = some s.estate := by
          unfold Estate.heartCheck
          rw [h.offline honline]
          rfl
        obtain rfl := Option.some.inj (hnone.symm.trans he)
        exact (put_self (s := { s with curCount := 0, heartDue := s.heartDue + 5 })).symm ▸ hcount
  | logout =>
    dsimp only at ht
    split_ifs at ht with honline
    obtain rfl := Option.some.inj ht
    refine ⟨fun hoffline => absurd hoffline (by simp), fun _ => rfl, h.paid, fun v => ?_⟩
    have hlevel : s.estate.logout.level v = s.estate.level v := by
      rw [h.level, ← h.raised]
      rfl
    have hraised : (s.put s.estate.logout).raised v = s.raised v := by simp [put, hlevel]
    exact (h.raised v).trans hraised.symm
  | login =>
    dsimp only at ht
    split_ifs at ht
    obtain ⟨e, he, rfl⟩ := Option.map_eq_some_iff.mp ht
    obtain ⟨hagrees, hordered, hreached⟩ := Estate.login_proceeds he
    exact h.login hagrees hordered hreached

theorem not_paidFor_of_completes {u : Estate} {now : Int} (h : s.Booked) (honline : s.online)
    (hmyBuild : u.player.myBuild = s.estate.player.myBuild)
    (hcompletes : Estate.Completes cfg u e sn now) (hbuild : ¬ s.estate.underConstruction sn) :
    ¬ (s.put e).PaidFor := by
  obtain ⟨b, b', hb, hfinished, hwrites⟩ := hcompletes
  rw [hmyBuild] at hb
  have hstatus : b.status ≠ 1 := fun hone =>
    hbuild (Estate.underConstruction_iff.mpr ⟨b, hb, hone⟩)
  have hpaid : s.paid sn = b.buildLevel := by
    rw [← h.paid, ← Build.ordered_eq_of_standing (h.agrees honline sn), hb]
    simp [Build.ordered, hstatus]
  have hlevel : e.level sn = b.buildLevel + 1 := by
    rw [Estate.level, hwrites.myBuild, Function.update_self]
    exact (Prod.ext_iff.mp (Estate.finished_standing hfinished)).2
  intro hpaidFor
  have hle : e.level sn ≤ s.paid sn := (hpaidFor sn).2
  omega

theorem paidFor_worksStep {ev : WorksEvent} (h : s.Booked) (ht : s.worksStep cfg ev = some t) :
    (s.FindsWork ev → t.Booked) ∧ (¬ s.FindsWork ev → ¬ t.PaidFor) := by
  cases ev with
  | site ev =>
    refine ⟨booked_step h ht, fun hfinds => ?_⟩
    cases ev with
    | timeout id =>
      obtain ⟨e, he, rfl⟩ := Option.map_eq_some_iff.mp ht
      obtain ⟨timer, u, htimer, hmyBuild, -, hu⟩ := Estate.timeout_cases he
      have honline : s.online := h.online_of_timer (List.mem_of_find?_eq_some htimer)
      rcases Estate.buildTimerHandle_cases hu with ⟨hnone, -⟩ | hcompletes
      · refine absurd (fun timer' htimer' b hb => ?_) hfinds
        obtain rfl := Option.some.inj (htimer.symm.trans htimer')
        exact absurd (hnone.symm.trans (hmyBuild ▸ hb)) (by simp)
      · refine not_paidFor_of_completes h honline hmyBuild hcompletes fun hbuild => hfinds ?_
        intro timer' htimer' b hb
        obtain rfl := Option.some.inj (htimer.symm.trans htimer')
        obtain ⟨b', hb', hstatus⟩ := Estate.underConstruction_iff.mp hbuild
        obtain rfl := Option.some.inj (hb.symm.trans hb')
        exact hstatus
    | _ => exact absurd trivial hfinds
  | fastFinish sn =>
    unfold worksStep at ht
    dsimp only at ht
    split_ifs at ht with honline
    obtain ⟨r, hr, rfl⟩ := Option.map_eq_some_iff.mp ht
    rcases Estate.fastFinish_cases hr with ⟨hnot, hsame⟩ | ⟨hcan, -, hcompletes⟩
    · rw [hsame, put_self]
      exact ⟨fun _ => h, fun hfinds => absurd (fun hcan => absurd hcan hnot) hfinds⟩
    · refine ⟨fun hfinds => ?_, fun hfinds => ?_⟩
      · exact h.put honline (hcompletes.proceeds (h.agrees honline) (hfinds hcan))
      · exact not_paidFor_of_completes h honline rfl hcompletes fun hbuild => hfinds fun _ => hbuild
  | buildStatusList sns =>
    refine ⟨fun _ => ?_, fun hfinds => absurd trivial hfinds⟩
    unfold worksStep at ht
    dsimp only at ht
    split_ifs at ht with honline
    obtain rfl := Option.some.inj ht
    have hproceeds := Estate.buildStatusList_proceeds s.estate s.clock sns
    exact h.put honline ⟨hproceeds.agrees, hproceeds.ordered, hproceeds.reached⟩

/-- On any run of one player's requests, timers, heart checks, logouts and logins, no building
is raised above what was paid for exactly when each FastFinish that is accepted and each timer
that expires finds a construction under way. -/
theorem paidFor_run_iff (cfg : Config) (store : Store) (clock : Int) (curCount : ℕ)
    (heartDue : Int) (es : List WorksEvent) :
    Run.Always (worksStep cfg) PaidFor (start store clock curCount heartDue) es ↔
      Run.EachStep (worksStep cfg) FindsWork (start store clock curCount heartDue) es :=
  Run.always_iff_eachStep_of_kept (J := Booked) (fun _ h => h.paidFor)
    (fun _ _ _ h ht => (paidFor_worksStep h ht).1) (fun _ _ _ h ht => (paidFor_worksStep h ht).2)
    (booked_start store clock curCount heartDue) es

/-- A building that is finished is finished again after the next login, for one diamond. -/
theorem not_paidFor_relogin :
    ¬ ∀ (cfg : Config) (store : Store) (clock : Int) (curCount : ℕ) (heartDue : Int)
      (es : List WorksEvent),
      Run.Always (worksStep cfg) PaidFor (start store clock curCount heartDue) es := by
  intro hall
  have hrun := hall
    { globalBuild := [[{}], [{ buildTime := 60 }, { buildTime := 60 }, {}]]
      cityLimit := [[{}, { maxLevel := 2, maxNum := 1 }]] }
    { asset := Pi.single .diamond 1
      cityHallUuid := "hall"
      build := Function.update (fun _ => none) "hall" (some {}) } 0 0 0
    [.site .login, .site (.buildCreate 1 "a"), .site (.wait 60), .site (.timeout 0),
      .site .logout, .site .login, .fastFinish "a"]
  have hend := (((((((hrun.2 _ rfl).2 _ rfl).2 _ rfl).2 _ rfl).2 _ rfl).2 _ rfl).2 _ rfl) "a"
  revert hend
  decide

end Site

end IceBridge.Gateway
