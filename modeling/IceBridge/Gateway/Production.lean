import IceBridge.Gateway.Construction
import IceBridge.Lib.Accrual
import Mathlib.Algebra.BigOperators.Group.Finset.Piecewise
import Mathlib.Data.Rat.Floor

/-! What the factories of a player yield. A factory is known by the time of its last collection or
completion only; the output since then is found by `GetMyAsset`. -/

namespace IceBridge.Gateway
open Truncate Accrual

def Config.exact (cfg : Config) : Config :=
  { cfg with produced := fun output seconds => trunc ((output : ℚ) * seconds / 3600) }

namespace Build

def Yields (b : Build) : Prop := b.bigType = 2 ∧ 8 ≤ b.buildType ∧ b.buildType ≤ 11

instance (b : Build) : Decidable b.Yields := inferInstanceAs (Decidable (_ ∧ _ ∧ _))

def rate (cfg : Config) (b : Build) : ℚ :=
  if b.Yields then
    (((cfg.build? b.buildType b.buildLevel).elim 0 BuildConfig.output : Int) : ℚ) / 3600
  else 0

/-- The output that has not been collected. There is none of a factory under construction. -/
def pending (cfg : Config) (now : Int) (b : Build) : ℚ :=
  if b.status = 0 then accrued (b.rate cfg) b.ctime now else 0

def working (b : Build) : Int × Int × Int × Int × Int :=
  (b.bigType, b.status, b.ctime, b.buildType, b.buildLevel)

def Fresh (now : Int) (b : Build) : Prop := b.bigType = 2 → b.status = 0 → b.ctime = now

end Build

def Estate.held (e : Estate) (sn : String) : Option Build :=
  (e.player.myBuild sn).or (e.store.build sn)

/-- A player's works, and for each building what it has been credited with, and the output of the
seconds that have passed at the level it had in each of them. -/
structure Farm where
  site : Site := {}
  credited : String → Int := fun _ => 0
  earned : String → ℚ := fun _ => 0

inductive FarmEvent
  | works (e : WorksEvent)
  | getMyAsset (sn : String)

namespace Farm

def start (cfg : Config) (store : Store) (clock : Int) (curCount : ℕ) (heartDue : Int) : Farm where
  site := Site.start store clock curCount heartDue
  earned sn := (store.build sn).elim 0 (Build.pending cfg clock)

def gain (f : Farm) (r : Answer) : Int :=
  ∑ a, (r.estate.player.asset a - f.site.estate.player.asset a)

def step (cfg : Config) (f : Farm) : FarmEvent → Option Farm
  | .works e => (f.site.worksStep cfg e).map fun site =>
      { f with
        site
        earned := fun sn => f.earned sn +
          (f.site.estate.held sn).elim 0 (Build.rate cfg) * (site.clock - f.site.clock : Int) }
  | .getMyAsset sn =>
    if f.site.online then
      (f.site.estate.getMyAsset cfg sn f.site.clock).map fun r =>
        { f with
          site := f.site.put r.estate
          credited := Function.update f.credited sn (f.credited sn + f.gain r) }
    else none

/-- No building has been credited with more than its output, and no collection with more than its
space. -/
structure Fair (cfg : Config) (f : Farm) : Prop where
  earned : ∀ sn, (f.credited sn : ℚ) ≤ f.earned sn
  space : ∀ sn b level r, f.site.estate.player.myBuild sn = some b → b.Yields → b.status = 0 →
    cfg.build? b.buildType b.buildLevel = some level →
    f.site.estate.getMyAsset cfg sn f.site.clock = some r → f.gain r ≤ level.space

end Farm

/-! ## What happens to a building -/

namespace Build
variable {cfg : Config} {a b : Build} {now : Int}

theorem fields_of_working (h : a.working = b.working) : a.bigType = b.bigType ∧
    a.status = b.status ∧ a.ctime = b.ctime ∧ a.buildType = b.buildType ∧
      a.buildLevel = b.buildLevel := by
  simpa [working] using h

theorem rate_eq_of_working (h : a.working = b.working) : a.rate cfg = b.rate cfg := by
  obtain ⟨hbig, -, -, htype, hlevel⟩ := fields_of_working h
  have hyields : a.Yields ↔ b.Yields := by
    unfold Yields
    rw [hbig, htype]
  simp only [rate, hyields, htype, hlevel]

theorem pending_eq_of_working (h : a.working = b.working) :
    a.pending cfg now = b.pending cfg now := by
  obtain ⟨-, hstatus, hctime, -, -⟩ := fields_of_working h
  unfold pending
  rw [rate_eq_of_working h, hstatus, hctime]

theorem fresh_of_working (h : a.working = b.working) (hb : b.Fresh now) : a.Fresh now := by
  obtain ⟨hbig, hstatus, hctime, -, -⟩ := fields_of_working h
  unfold Fresh
  rw [hbig, hstatus, hctime]
  exact hb

theorem Fresh.pending_eq_zero (hb : b.Fresh now) : b.pending cfg now = 0 := by
  unfold pending
  split_ifs with hstatus
  · unfold rate
    split_ifs with hyields
    · rw [hb hyields.1 hstatus, accrued_self]
    · rw [accrued, zero_mul]
  · rfl

end Build

namespace Estate
variable {cfg : Config} {e u t : Estate} {sn : String} {now : Int}

def Tallies (e : Estate) : Prop :=
  ∀ sn, (e.player.myBuild sn).map Build.working = (e.store.build sn).map Build.working

structure Settles (now : Int) (e t : Estate) : Prop where
  tallies : t.Tallies
  kept : ∀ sn, (t.store.build sn).map Build.working = (e.store.build sn).map Build.working ∨
    ∃ b, t.store.build sn = some b ∧ b.Fresh now

theorem Settles.of_working (h : e.Tallies)
    (hplayer : ∀ sn, (t.player.myBuild sn).map Build.working =
      (e.player.myBuild sn).map Build.working)
    (hstore : ∀ sn, (t.store.build sn).map Build.working =
      (e.store.build sn).map Build.working) : e.Settles now t where
  tallies sn := by rw [hplayer, hstore, h]
  kept sn := .inl (hstore sn)

theorem Settles.refl (h : e.Tallies) : e.Settles now e :=
  .of_working h (fun _ => rfl) fun _ => rfl

theorem Settles.trans (h : e.Settles now u) (h' : u.Settles now t) : e.Settles now t := by
  refine ⟨h'.tallies, fun sn => ?_⟩
  rcases h'.kept sn with hkept | hfresh
  · rcases h.kept sn with hkept' | ⟨b, hb, hfresh⟩
    · exact .inl (hkept.trans hkept')
    · rw [hb] at hkept
      obtain ⟨c, hc, hworking⟩ := Option.map_eq_some_iff.mp hkept
      exact .inr ⟨c, hc, Build.fresh_of_working hworking hfresh⟩
  · exact .inr hfresh

theorem Settles.trans_same (h : e.Settles now u) (hmyBuild : t.player.myBuild = u.player.myBuild)
    (hbuild : t.store.build = u.store.build) : e.Settles now t :=
  h.trans (.of_working h.tallies (fun v => by rw [hmyBuild]) fun v => by rw [hbuild])

theorem Settles.of_writes {b : Build} (h : e.Tallies) (hwrites : e.Writes t sn b)
    (hfresh : b.Fresh now) : e.Settles now t := by
  refine ⟨fun v => ?_, fun v => ?_⟩
  · rw [hwrites.myBuild, hwrites.build]
    by_cases hv : v = sn
    · subst hv
      rw [Function.update_self, Function.update_self]
    · rw [Function.update_of_ne hv, Function.update_of_ne hv]
      exact h v
  · rw [hwrites.build]
    by_cases hv : v = sn
    · subst hv
      exact .inr ⟨b, Function.update_self _ _ _, hfresh⟩
    · rw [Function.update_of_ne hv]
      exact .inl rfl

theorem finished_fresh {b b' : Build} (h : finished cfg b now = some b') : b'.Fresh now := by
  obtain ⟨level, -, h⟩ := Option.bind_eq_some_iff.mp h
  obtain rfl := Option.some.inj h
  exact fun hbig _ => if_pos hbig

theorem Completes.settles (h : Completes cfg e t sn now) (he : e.Tallies) : e.Settles now t := by
  obtain ⟨b, b', -, hfinished, hwrites⟩ := h
  exact .of_writes he hwrites (finished_fresh hfinished)

theorem settles_buildTimerHandle (ht : e.buildTimerHandle cfg sn now = some t) (he : e.Tallies) :
    e.Settles now t := by
  rcases buildTimerHandle_cases ht with ⟨-, rfl⟩ | hcompletes
  · exact .refl he
  · exact hcompletes.settles he

theorem settles_tick (ht : tick cfg now e sn = some t) (he : e.Tallies) : e.Settles now t := by
  unfold tick at ht
  split at ht
  · exact Option.some.inj ht ▸ .refl he
  next b hb =>
  split at ht
  · set b' : Build := { b with time := b.time - 1100 }
    have hleft : e.Settles now { e with player := e.player.setMyBuild sn b' } := by
      refine .of_working he (fun v => ?_) fun _ => rfl
      show (Function.update e.player.myBuild sn (some b') v).map _ = _
      by_cases hv : v = sn
      · subst hv
        rw [Function.update_self, hb]
        rfl
      · rw [Function.update_of_ne hv]
    dsimp only at ht
    split_ifs at ht
    · exact hleft.trans (settles_buildTimerHandle ht hleft.tallies)
    · obtain rfl := Option.some.inj ht
      exact hleft.trans_same (Player.enTimer_myBuild _ _ _) rfl
    · exact Option.some.inj ht ▸ hleft
  · exact Option.some.inj ht ▸ .refl he

theorem settles_resume (ht : resume cfg now e sn = some t) (he : e.Tallies) :
    e.Settles now t := by
  unfold resume at ht
  split at ht
  · exact Option.some.inj ht ▸ .refl he
  next b hb =>
  split at ht
  · next hstatus =>
    set b' : Build := { b with time := b.time - (now - b.ctime), ctime := now }
    have hbuilding : b'.Fresh now := fun _ hzero => absurd (hstatus.symm.trans hzero) (by decide)
    dsimp only at ht
    split_ifs at ht
    · -- the new time is only in the session until the building is finished
      rcases buildTimerHandle_cases ht with ⟨hnone, -⟩ | ⟨c, c', -, hfinished, hwrites⟩
      · have hsome : Function.update e.player.myBuild sn (some b') sn = none := hnone
        rw [Function.update_self] at hsome
        exact absurd hsome (Option.some_ne_none _)
      · refine .of_writes he ⟨?_, hwrites.build⟩ (finished_fresh hfinished)
        exact hwrites.myBuild.trans (Function.update_idem _ _ _)
    · obtain rfl := Option.some.inj ht
      exact .of_writes he ⟨Player.enTimer_myBuild _ _ _, rfl⟩ hbuilding
    · obtain rfl := Option.some.inj ht
      exact .of_writes he ⟨rfl, rfl⟩ hbuilding
  · exact Option.some.inj ht ▸ .refl he

theorem settles_heartCheck (ht : e.heartCheck cfg now = some t) (he : e.Tallies) :
    e.Settles now t :=
  Run.foldlM_preserves (I := fun u _ => e.Settles now u)
    (fun _ _ _ _ h ht => h.trans (settles_tick ht h.tallies)) (.refl he) ht

theorem loaded_working (b : Build) : (loaded b now).working = b.working := by
  unfold loaded
  split_ifs <;> rfl

theorem tallies_getBuildMap (e : Estate) (now : Int) : (e.getBuildMap now).Tallies := by
  intro sn
  show ((e.store.build sn).map fun b => loaded b now).map Build.working = _
  rw [Option.map_map]
  exact congrArg (fun f => (e.store.build sn).map f) (funext loaded_working)

theorem settles_login (ht : e.login cfg now = some t) : t.Tallies ∧
    ∀ sn, (t.store.build sn).map Build.working = (e.store.build sn).map Build.working ∨
      ∃ b, t.store.build sn = some b ∧ b.Fresh now := by
  have h := Run.foldlM_preserves (I := fun u _ => Settles now _ u)
    (fun _ _ _ _ h ht => h.trans (settles_resume ht h.tallies))
    (.refl (tallies_getBuildMap _ now)) ht
  exact ⟨h.tallies, h.kept⟩

theorem settles_buildStatusList (e : Estate) (now : Int) (sns : List String) :
    (e.getBuildMap now).Settles now (e.buildStatusList sns now).estate := by
  refine List.foldlRecOn (motive := (e.getBuildMap now).Settles now) sns _
    (.refl (tallies_getBuildMap e now)) ?_
  intro u hu v _
  split
  · exact hu
  · next b hb =>
    refine hu.trans (.of_working hu.tallies (fun _ => rfl) fun w => ?_)
    show (Function.update u.store.build v (some b) w).map _ = _
    by_cases hw : w = v
    · subst hw
      rw [Function.update_self, ← hu.tallies, hb]
    · rw [Function.update_of_ne hw]

theorem settles_orders {b : Build} (horders : e.Orders t sn b now) (he : e.Tallies) :
    e.Settles now t := by
  refine .of_writes he horders.writes fun _ hzero => ?_
  obtain ⟨-, -, -, hstatus, -⟩ := horders
  exact absurd (hstatus.symm.trans hzero) (by decide)

theorem getMyAsset_cases {r : Answer} (hr : e.getMyAsset cfg sn now = some r) :
    r.estate = e ∧ (∀ b, e.player.myBuild sn = some b → ¬ (b.bigType = 2 ∧ b.status = 0)) ∨
    ∃ b level, e.player.myBuild sn = some b ∧ b.bigType = 2 ∧ b.status = 0 ∧
      cfg.build? b.buildType b.buildLevel = some level ∧
      e.Writes r.estate sn { b with ctime := now } ∧
      r.estate.player.asset = e.player.asset +
        harvest b.buildType (min (cfg.produced level.output (now - b.ctime)) level.space) := by
  unfold getMyAsset at hr
  split at hr
  · next hnone =>
    exact .inl ⟨Option.some.inj hr ▸ rfl, fun b hb => absurd (hnone.symm.trans hb) (by simp)⟩
  next b hb =>
  split_ifs at hr with hready
  · obtain ⟨level, hlevel, hr⟩ := Option.bind_eq_some_iff.mp hr
    obtain rfl := Option.some.inj hr
    exact .inr ⟨b, level, hb, hready.1, hready.2, hlevel, ⟨rfl, rfl⟩, rfl⟩
  · refine .inl ⟨Option.some.inj hr ▸ rfl, fun b' hb' => ?_⟩
    exact Option.some.inj (hb.symm.trans hb') ▸ hready

end Estate

namespace Site
variable {cfg : Config} {s t : Site} {ev : WorksEvent}

structure Balanced (s : Site) : Prop where
  tallies : s.online → s.estate.Tallies
  offline : ¬ s.online → s.estate.player = {}

theorem Balanced.held (h : s.Balanced) (sn : String) :
    (s.estate.held sn).map Build.working = (s.estate.store.build sn).map Build.working := by
  unfold Estate.held
  by_cases honline : s.online
  · have hsame := h.tallies honline sn
    cases hb : s.estate.player.myBuild sn with
    | none => rfl
    | some b =>
      rw [hb] at hsame
      exact hsame
  · rw [h.offline honline]
    rfl

structure Settles (s t : Site) : Prop where
  balanced : t.Balanced
  clock : t.clock = s.clock
  kept : ∀ sn, (t.estate.store.build sn).map Build.working =
      (s.estate.store.build sn).map Build.working ∨
    ∃ b, t.estate.store.build sn = some b ∧ b.Fresh s.clock

theorem Settles.refl (h : s.Balanced) : s.Settles s := ⟨h, rfl, fun _ => .inl rfl⟩

theorem Settles.of_online (honline : t.online = true) (hclock : t.clock = s.clock)
    (h : s.estate.Settles s.clock t.estate) : s.Settles t :=
  ⟨⟨fun _ => h.tallies, fun hoffline => absurd honline hoffline⟩, hclock, h.kept⟩

theorem order_frame (s : Site) (sn : String) (e : Estate) : (s.order sn e).estate = e ∧
    (s.order sn e).online = s.online ∧ (s.order sn e).clock = s.clock := by
  unfold order
  split
  · exact ⟨rfl, rfl, rfl⟩
  · split_ifs <;> exact ⟨rfl, rfl, rfl⟩

theorem Settles.order {e : Estate} (sn : String) (honline : s.online)
    (h : s.estate.Settles s.clock e) : s.Settles (s.order sn e) := by
  obtain ⟨hestate, hsession, hclock⟩ := order_frame s sn e
  exact .of_online (hsession.trans honline) hclock (hestate.symm ▸ h)

theorem settles_step {ev : SiteEvent} (h : s.Balanced) (ht : s.step cfg ev = some t) :
    (∃ seconds, ev = .wait seconds ∧ t = { s with clock := s.clock + seconds }) ∨
      s.Settles t := by
  unfold step at ht
  cases ev with
  | wait seconds => exact .inl ⟨seconds, rfl, (Option.some.inj ht).symm⟩
  | buildCreate type sn =>
    dsimp only at ht
    split_ifs at ht with hnew
    obtain ⟨r, hr, rfl⟩ := Option.map_eq_some_iff.mp ht
    refine .inr (.order sn hnew.1 ?_)
    rcases Estate.buildCreate_cases hr with ⟨-, hsame⟩ | ⟨-, -, b, horders, -⟩
    · exact hsame.symm ▸ .refl (h.tallies hnew.1)
    · exact Estate.settles_orders horders (h.tallies hnew.1)
  | buildUpgrade sn =>
    dsimp only at ht
    split_ifs at ht with honline
    obtain ⟨r, hr, rfl⟩ := Option.map_eq_some_iff.mp ht
    refine .inr (.order sn honline ?_)
    rcases Estate.buildUpgrade_cases hr with ⟨-, hsame⟩ | ⟨-, -, b, old, horders, -⟩
    · exact hsame.symm ▸ .refl (h.tallies honline)
    · exact Estate.settles_orders horders (h.tallies honline)
  | timeout id =>
    obtain ⟨e, he, rfl⟩ := Option.map_eq_some_iff.mp ht
    obtain ⟨timer, u, htimer, hmyBuild, hbuild, hu⟩ := Estate.timeout_cases he
    have honline : s.online := by
      by_contra hoffline
      rw [h.offline hoffline] at htimer
      exact absurd (List.mem_of_find?_eq_some htimer) List.not_mem_nil
    have hsame : s.estate.Settles s.clock u :=
      (Estate.Settles.refl (h.tallies honline)).trans_same hmyBuild hbuild
    exact .inr (.of_online honline rfl
      (hsame.trans (Estate.settles_buildTimerHandle hu hsame.tallies)))
  | heartCheck =>
    dsimp only at ht
    split_ifs at ht
    · obtain rfl := Option.some.inj ht
      exact .inr ⟨⟨h.tallies, h.offline⟩, rfl, fun _ => .inl rfl⟩
    · obtain ⟨e, he, rfl⟩ := Option.map_eq_some_iff.mp ht
      by_cases honline : s.online
      · exact .inr (.of_online honline rfl (Estate.settles_heartCheck he (h.tallies honline)))
      · have hnone : s.estate.heartCheck cfg s.clock = some s.estate := by
          unfold Estate.heartCheck
          rw [h.offline honline]
          rfl
        obtain rfl := Option.some.inj (hnone.symm.trans he)
        exact .inr ⟨⟨h.tallies, h.offline⟩, rfl, fun _ => .inl rfl⟩
  | logout =>
    dsimp only at ht
    split_ifs at ht
    obtain rfl := Option.some.inj ht
    exact .inr ⟨⟨fun hoffline => absurd hoffline (by simp), fun _ => rfl⟩, rfl, fun _ => .inl rfl⟩
  | login =>
    dsimp only at ht
    split_ifs at ht
    obtain ⟨e, he, rfl⟩ := Option.map_eq_some_iff.mp ht
    obtain ⟨htallies, hkept⟩ := Estate.settles_login he
    exact .inr ⟨⟨fun _ => htallies, fun hoffline => absurd rfl hoffline⟩, rfl, hkept⟩

theorem settles_worksStep (h : s.Balanced) (ht : s.worksStep cfg ev = some t) :
    (∃ seconds, ev = .site (.wait seconds) ∧ t = { s with clock := s.clock + seconds }) ∨
      s.Settles t := by
  cases ev with
  | site ev =>
    rcases settles_step h ht with ⟨seconds, rfl, rfl⟩ | hsettles
    · exact .inl ⟨seconds, rfl, rfl⟩
    · exact .inr hsettles
  | fastFinish sn =>
    dsimp only [worksStep] at ht
    split_ifs at ht with honline
    obtain ⟨r, hr, rfl⟩ := Option.map_eq_some_iff.mp ht
    refine .inr (.of_online honline rfl ?_)
    rcases Estate.fastFinish_cases hr with ⟨-, hsame⟩ | ⟨-, -, hcompletes⟩
    · exact hsame.symm ▸ .refl (h.tallies honline)
    · exact hcompletes.settles (h.tallies honline)
  | buildStatusList sns =>
    dsimp only [worksStep] at ht
    split_ifs at ht with honline
    obtain rfl := Option.some.inj ht
    have hsettles := Estate.settles_buildStatusList s.estate s.clock sns
    exact .inr (.of_online honline rfl ⟨hsettles.tallies, hsettles.kept⟩)

end Site

/-! ## The books of the factories -/

namespace Estate

theorem sum_harvest {type amount : Int} :
    ∑ a, harvest type amount a = if 8 ≤ type ∧ type ≤ 11 then amount else 0 := by
  unfold harvest
  split_ifs <;> first | omega | simp

end Estate

def Config.Productive (cfg : Config) : Prop :=
  ∀ type level c, 8 ≤ type → type ≤ 11 → cfg.build? type level = some c → 0 ≤ c.output

section
variable {cfg : Config}

theorem Config.Productive.rate_nonneg (hcfg : cfg.Productive) (b : Build) : 0 ≤ b.rate cfg := by
  unfold Build.rate
  split_ifs with hyields
  · refine div_nonneg (Int.cast_nonneg ?_) (by decide)
    cases hlevel : cfg.build? b.buildType b.buildLevel with
    | none => exact le_rfl
    | some c => exact hcfg _ _ c hyields.2.1 hyields.2.2 hlevel
  · exact le_rfl

theorem Config.Productive.pending_nonneg (hcfg : cfg.Productive) (now : Int) (b : Option Build) :
    0 ≤ b.elim 0 (Build.pending cfg now) := by
  cases b with
  | none => exact le_rfl
  | some b =>
    show 0 ≤ b.pending cfg now
    unfold Build.pending
    split_ifs
    · exact accrued_nonneg (hcfg.rate_nonneg b)
    · exact le_rfl

theorem elim_eq_of_working {f : Build → ℚ} {a b : Option Build}
    (hf : ∀ a b : Build, a.working = b.working → f a = f b)
    (h : a.map Build.working = b.map Build.working) : a.elim 0 f = b.elim 0 f := by
  cases a with
  | none =>
    cases b with
    | none => rfl
    | some b => exact absurd h (by simp)
  | some a =>
    cases b with
    | none => exact absurd h (by simp)
    | some b => exact hf a b (Option.some.inj h)

theorem Site.Settles.pending_le {s t : Site} (h : s.Settles t) (hcfg : cfg.Productive)
    (sn : String) :
    (t.estate.store.build sn).elim 0 (Build.pending cfg t.clock) ≤
      (s.estate.store.build sn).elim 0 (Build.pending cfg s.clock) := by
  rw [h.clock]
  rcases h.kept sn with hkept | ⟨b, hb, hfresh⟩
  · exact (elim_eq_of_working (fun _ _ h => Build.pending_eq_of_working h) hkept).le
  · rw [hb, Option.elim_some, hfresh.pending_eq_zero]
    exact hcfg.pending_nonneg s.clock _

theorem pending_wait_le (hcfg : cfg.Productive) (now : Int) (b : Option Build) (seconds : ℕ) :
    b.elim 0 (Build.pending cfg (now + seconds)) ≤
      b.elim 0 (Build.pending cfg now) + b.elim 0 (Build.rate cfg) * seconds := by
  cases b with
  | none =>
    show (0 : ℚ) ≤ 0 + 0 * seconds
    rw [zero_mul, add_zero]
  | some b =>
    show b.pending cfg (now + seconds) ≤ b.pending cfg now + b.rate cfg * seconds
    unfold Build.pending
    split_ifs
    · exact accrued_le_wait (hcfg.rate_nonneg b) seconds
    · rw [zero_add]
      exact mul_nonneg (hcfg.rate_nonneg b) (Nat.cast_nonneg seconds)

end

namespace Farm
variable {cfg : Config} {f g : Farm} {ev : FarmEvent}

structure Solvent (cfg : Config) (f : Farm) : Prop where
  balanced : f.site.Balanced
  bound : ∀ sn, (f.credited sn : ℚ) +
    (f.site.estate.store.build sn).elim 0 (Build.pending cfg f.site.clock) ≤ f.earned sn

theorem solvent_start (store : Store) (clock : Int) (curCount : ℕ) (heartDue : Int) :
    (start cfg store clock curCount heartDue).Solvent cfg := by
  refine ⟨⟨fun honline => absurd honline (by simp [start, Site.start]), fun _ => rfl⟩,
    fun sn => ?_⟩
  show ((0 : Int) : ℚ) + _ ≤ _
  rw [Int.cast_zero, zero_add]
  exact le_rfl

theorem Solvent.works {e : WorksEvent} (hcfg : cfg.Productive) (h : f.Solvent cfg)
    (hg : f.step cfg (.works e) = some g) : g.Solvent cfg := by
  obtain ⟨t, ht, rfl⟩ := Option.map_eq_some_iff.mp hg
  rcases Site.settles_worksStep h.balanced ht with ⟨seconds, rfl, rfl⟩ | hsettles
  · refine ⟨⟨h.balanced.tallies, h.balanced.offline⟩, fun sn => ?_⟩
    have hwait := pending_wait_le hcfg f.site.clock (f.site.estate.store.build sn) seconds
    have hrate : (f.site.estate.held sn).elim 0 (Build.rate cfg) =
        (f.site.estate.store.build sn).elim 0 (Build.rate cfg) :=
      elim_eq_of_working (fun _ _ h => Build.rate_eq_of_working h) (h.balanced.held sn)
    have hbound := h.bound sn
    show (f.credited sn : ℚ) + _ ≤ f.earned sn +
      _ * ((f.site.clock + seconds - f.site.clock : Int) : ℚ)
    rw [hrate, add_sub_cancel_left, Int.cast_natCast]
    linarith
  · refine ⟨hsettles.balanced, fun sn => ?_⟩
    have hpending := hsettles.pending_le hcfg sn
    have hbound := h.bound sn
    show (f.credited sn : ℚ) + _ ≤ f.earned sn + _ * ((t.clock - f.site.clock : Int) : ℚ)
    rw [hsettles.clock, sub_self, Int.cast_zero, mul_zero, add_zero, ← hsettles.clock]
    linarith

theorem gain_of_refused {r : Answer} (hr : r.estate = f.site.estate) : f.gain r = 0 := by
  unfold gain
  rw [hr]
  exact Finset.sum_eq_zero fun a _ => sub_self _

theorem gain_of_collected {r : Answer} {type amount : Int}
    (hasset : r.estate.player.asset = f.site.estate.player.asset + Estate.harvest type amount) :
    f.gain r = if 8 ≤ type ∧ type ≤ 11 then amount else 0 := by
  unfold gain
  rw [← Estate.sum_harvest, hasset]
  exact Finset.sum_congr rfl fun a _ => add_sub_cancel_left _ _

theorem gain_le_pending {r : Answer} {b : Build} {level : BuildConfig} {now : Int}
    (hcfg : cfg.Productive) (hbig : b.bigType = 2) (hstatus : b.status = 0)
    (hlevel : cfg.build? b.buildType b.buildLevel = some level)
    (hasset : r.estate.player.asset = f.site.estate.player.asset + Estate.harvest b.buildType
      (min (cfg.exact.produced level.output (now - b.ctime)) level.space)) :
    (f.gain r : ℚ) ≤ b.pending cfg now := by
  have hpending : b.pending cfg now = accrued (b.rate cfg) b.ctime now := if_pos hstatus
  rw [gain_of_collected hasset, hpending]
  split_ifs with htype
  · have hrate : b.rate cfg = (level.output : ℚ) / 3600 := by
      rw [Build.rate, if_pos ⟨hbig, htype⟩, hlevel, Option.elim_some]
    have hproduced : cfg.exact.produced level.output (now - b.ctime) =
        trunc (b.rate cfg * (now - b.ctime : Int)) := by
      rw [hrate, div_mul_eq_mul_div]
      rfl
    calc ((min (cfg.exact.produced level.output (now - b.ctime)) level.space : Int) : ℚ)
        ≤ (cfg.exact.produced level.output (now - b.ctime) : Int) :=
          Int.cast_le.mpr (min_le_left _ _)
      _ = (trunc (b.rate cfg * (now - b.ctime : Int)) : Int) := by rw [hproduced]
      _ ≤ accrued (b.rate cfg) b.ctime now := trunc_le_accrued (hcfg.rate_nonneg b)
  · rw [Int.cast_zero]
    exact accrued_nonneg (hcfg.rate_nonneg b)

theorem Solvent.collect {r : Answer} {sn : String} (hcfg : cfg.Productive) (h : f.Solvent cfg)
    (honline : f.site.online)
    (hr : f.site.estate.getMyAsset cfg.exact sn f.site.clock = some r) :
    f.site.estate.Settles f.site.clock r.estate ∧ ∀ v,
      ((Function.update f.credited sn (f.credited sn + f.gain r) v : Int) : ℚ) +
        (r.estate.store.build v).elim 0 (Build.pending cfg f.site.clock) ≤ f.earned v := by
  have htallies := h.balanced.tallies honline
  rcases Estate.getMyAsset_cases hr with
    ⟨hsame, -⟩ | ⟨b, level, hb, hbig, hstatus, hlevel, hwrites, hasset⟩
  · rw [gain_of_refused hsame, add_zero, Function.update_eq_self, hsame]
    exact ⟨.refl htallies, h.bound⟩
  · have hfresh : Build.Fresh f.site.clock { b with ctime := f.site.clock } := fun _ _ => rfl
    refine ⟨.of_writes htallies hwrites hfresh, fun v => ?_⟩
    have hbound := h.bound v
    rw [hwrites.build]
    by_cases hv : v = sn
    · subst hv
      have hheld : (f.site.estate.store.build v).elim 0 (Build.pending cfg f.site.clock) =
          b.pending cfg f.site.clock := by
        have hsame := htallies v
        rw [hb] at hsame
        exact (elim_eq_of_working (fun _ _ h => Build.pending_eq_of_working h) hsame).symm
      have hgain := gain_le_pending hcfg hbig hstatus hlevel hasset
      rw [Function.update_self, Function.update_self, Option.elim_some, hfresh.pending_eq_zero,
        Int.cast_add]
      linarith
    · rw [Function.update_of_ne hv, Function.update_of_ne hv]
      exact hbound

theorem Solvent.getMyAsset {sn : String} (hcfg : cfg.Productive) (h : f.Solvent cfg)
    (hg : f.step cfg.exact (.getMyAsset sn) = some g) : g.Solvent cfg := by
  dsimp only [step] at hg
  split_ifs at hg with honline
  obtain ⟨r, hr, rfl⟩ := Option.map_eq_some_iff.mp hg
  obtain ⟨hsettles, hbound⟩ := h.collect hcfg honline hr
  exact ⟨⟨fun _ => hsettles.tallies, fun hoffline => absurd honline hoffline⟩, hbound⟩

theorem Solvent.step (hcfg : cfg.Productive) (h : f.Solvent cfg)
    (hg : f.step cfg.exact ev = some g) : g.Solvent cfg := by
  cases ev with
  | works e => exact h.works hcfg hg
  | getMyAsset sn => exact h.getMyAsset hcfg hg

theorem Solvent.fair (hcfg : cfg.Productive) (h : f.Solvent cfg) : f.Fair cfg.exact := by
  refine ⟨fun sn => ?_, fun sn b level r hb hyields hstatus hlevel hr => ?_⟩
  · have hpending := hcfg.pending_nonneg f.site.clock (f.site.estate.store.build sn)
    have hbound := h.bound sn
    linarith
  · rcases Estate.getMyAsset_cases hr with
      ⟨-, hrefused⟩ | ⟨b', level', hb', -, -, hlevel', -, hasset⟩
    · exact absurd ⟨hyields.1, hstatus⟩ (hrefused b hb)
    · obtain rfl := Option.some.inj (hb.symm.trans hb')
      obtain rfl := Option.some.inj (hlevel.symm.trans hlevel')
      rw [gain_of_collected hasset, if_pos hyields.2]
      exact min_le_right _ _

/-- The output is never counted twice, whatever is built, finished, paid for or loaded between the
collections. -/
theorem fair_run (cfg : Config) (hcfg : cfg.Productive) (store : Store) (clock : Int)
    (curCount : ℕ) (heartDue : Int) (es : List FarmEvent) :
    Run.Always (step cfg.exact) (Fair cfg.exact) (start cfg.exact store clock curCount heartDue)
      es :=
  (Run.always_of_invariant (I := Solvent cfg) (fun _ _ _ h ht => h.step hcfg ht)
    (solvent_start store clock curCount heartDue) es).mono fun _ h => h.fair hcfg

def groves (output : Int) : Config where
  globalBuild := List.replicate 12 [{ output, space := 1000 }]

def planted : Store where
  build sn := if sn = "grove" then some { bigType := 2, buildType := 8 } else none

theorem productive_groves {output : Int} (houtput : 0 ≤ output) :
    (groves output).Productive := by
  intro type level c _ _ hc
  unfold Config.build? at hc
  split_ifs at hc
  obtain ⟨levels, hlevels, hc⟩ := Option.bind_eq_some_iff.mp hc
  obtain rfl := (List.mem_replicate.mp (List.mem_of_getElem? hlevels)).2
  obtain rfl := List.mem_singleton.mp (List.mem_of_getElem? hc)
  exact houtput

theorem fair_run_groves :
    ((Run.exec (step (groves 3).exact) (start (groves 3).exact planted 0 0 0)
      [.works (.site (.wait 5400)), .works (.site .login), .getMyAsset "grove"]).map
        fun f => f.credited "grove") = some 4 ∧
    Run.Always (step (groves 3).exact) (Fair (groves 3).exact)
      (start (groves 3).exact planted 0 0 0)
      [.works (.site (.wait 5400)), .works (.site .login), .getMyAsset "grove"] :=
  ⟨by decide +kernel, fair_run (groves 3) (productive_groves (by decide)) planted 0 0 0 _⟩

/-- The fraction is also dropped where it is negative. -/
theorem not_fair_run : ¬ ∀ (cfg : Config) (store : Store) (clock : Int) (curCount : ℕ)
    (heartDue : Int) (es : List FarmEvent), Run.Always (step cfg.exact) (Fair cfg.exact)
      (start cfg.exact store clock curCount heartDue) es := by
  intro hall
  let es : List FarmEvent :=
    [.works (.site .login), .works (.site (.wait 1)), .getMyAsset "grove"]
  have hexec : ((Run.exec (step (groves (-1)).exact) (start (groves (-1)).exact planted 0 0 0)
      es).map fun f => (f.credited "grove", f.earned "grove")) = some (0, -1 / 3600) := by
    decide +kernel
  obtain ⟨f, hf, hbooks⟩ := Option.map_eq_some_iff.mp hexec
  obtain ⟨hcredited, hearned⟩ := Prod.mk.inj hbooks
  have hfair := (Run.always_iff_prefixes _ es).mp (hall (groves (-1)) planted 0 0 0 es) es
    List.prefix_rfl f hf
  have hbound := hfair.earned "grove"
  rw [hcredited, hearned] at hbound
  exact absurd hbound (by norm_num)

end Farm

end IceBridge.Gateway
