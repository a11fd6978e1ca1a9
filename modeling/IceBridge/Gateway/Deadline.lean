import IceBridge.Gateway.Construction

/-! A construction does not end before it is due as long as the pass of `HeartCheck` leaves each
building the time that it has. The pass takes 1100 seconds off every 1000, no matter when the
construction began, and twice if the building is listed twice. -/

namespace IceBridge.Gateway

namespace Player
variable {p : Player} {due : String → Int} {sn : String} {now : Int} {b : Build}

/-- Each timer that waits is the one in `buildingTimer`, does not expire before the construction
is due, and is that of a building under construction with at most 1100 seconds left. -/
def Punctual (due : String → Int) (p : Player) : Prop :=
  ∀ timer ∈ p.timers, p.buildingTimer timer.buildSn = some timer.id ∧
    due timer.buildSn ≤ timer.due ∧
    ∃ b, p.myBuild timer.buildSn = some b ∧ b.status = 1 ∧ b.time ≤ 1100

theorem Punctual.idle (h : p.Punctual due)
    (hb : ∀ b, p.myBuild sn = some b → b.status = 1 → 1100 < b.time) :
    ∀ timer ∈ p.timers, timer.buildSn ≠ sn := by
  rintro timer htimer rfl
  obtain ⟨-, -, b, hbuild, hstatus, htime⟩ := h timer htimer
  exact absurd (hb b hbuild hstatus) (not_lt.mpr htime)

theorem Punctual.of_idle {time : Int} (h : p.Punctual due)
    (hidle : ∀ timer ∈ p.timers, timer.buildSn ≠ sn) :
    p.Punctual (Function.update due sn time) := by
  intro timer htimer
  obtain ⟨hid, hdue, hbuild⟩ := h timer htimer
  rw [Function.update_of_ne (hidle timer htimer)]
  exact ⟨hid, hdue, hbuild⟩

theorem Punctual.setMyBuild (h : p.Punctual due) (hstatus : b.status = 1)
    (htime : ∀ timer ∈ p.timers, timer.buildSn = sn → b.time ≤ 1100) :
    (p.setMyBuild sn b).Punctual due := by
  intro timer htimer
  obtain ⟨hid, hdue, hbuild⟩ := h timer htimer
  refine ⟨hid, hdue, ?_⟩
  by_cases hsn : timer.buildSn = sn
  · refine ⟨b, ?_, hstatus, htime timer htimer hsn⟩
    rw [hsn]
    exact Function.update_self ..
  · obtain ⟨c, hc, hrest⟩ := hbuild
    exact ⟨c, (Function.update_of_ne hsn _ _).trans hc, hrest⟩

theorem Punctual.enTimer (h : p.Punctual due) (hidle : ∀ timer ∈ p.timers, timer.buildSn ≠ sn)
    (hb : p.myBuild sn = some b) (hstatus : b.status = 1) (htime : b.time ≤ 1100)
    (hdue : due sn ≤ now + max 0 b.time) : (p.enTimer sn now).Punctual due := by
  have henTimer : p.enTimer sn now = { p with
      buildingTimer := Function.update p.buildingTimer sn (some p.newTimer)
      timers := { id := p.newTimer, buildSn := sn, due := now + b.time * 1000 % 2 ^ 32 / 1000 } ::
        p.timers
      newTimer := p.newTimer + 1 } := by
    unfold Player.enTimer
    rw [hb]
  rw [henTimer]
  intro timer htimer
  rcases List.mem_cons.mp htimer with rfl | htimer
  · refine ⟨Function.update_self .., ?_, b, hb, hstatus, htime⟩
    change due sn ≤ now + b.time * 1000 % 2 ^ 32 / 1000
    omega
  · obtain ⟨hid, hrest⟩ := h timer htimer
    exact ⟨(Function.update_of_ne (hidle timer htimer) _ _).trans hid, hrest⟩

theorem Punctual.finish (h : p.Punctual due) :
    ((p.setMyBuild sn b).deleteTimer sn).Punctual due := by
  have hother : ∀ timer ∈ p.timers, timer.buildSn ≠ sn →
      p.buildingTimer timer.buildSn = some timer.id ∧ due timer.buildSn ≤ timer.due ∧
        ∃ c, (p.setMyBuild sn b).myBuild timer.buildSn = some c ∧ c.status = 1 ∧
          c.time ≤ 1100 := by
    intro timer htimer hsn
    obtain ⟨hid, hdue, c, hc, hrest⟩ := h timer htimer
    exact ⟨hid, hdue, c, (Function.update_of_ne hsn _ _).trans hc, hrest⟩
  unfold deleteTimer
  split
  · next hnone =>
    intro timer htimer
    refine hother timer htimer fun hsn => ?_
    have hid := (h timer htimer).1
    rw [hsn] at hid
    exact absurd (hnone.symm.trans hid) (by simp)
  · next id hsome =>
    intro timer htimer
    obtain ⟨hmem, hne⟩ := List.mem_filter.mp htimer
    have hsn : timer.buildSn ≠ sn := by
      rintro rfl
      have hid : id = timer.id := Option.some.inj (hsome.symm.trans (h timer hmem).1)
      exact of_decide_eq_true hne hid.symm
    obtain ⟨hid, hrest⟩ := hother timer hmem hsn
    exact ⟨(Function.update_of_ne hsn _ _).trans hid, hrest⟩

theorem of_mem_enTimer {timer : Timer} (h : timer ∈ (p.enTimer sn now).timers) :
    timer.buildSn = sn ∨ timer ∈ p.timers := by
  unfold Player.enTimer at h
  split at h
  · exact .inr h
  · rcases List.mem_cons.mp h with rfl | h
    · exact .inl rfl
    · exact .inr h

theorem of_mem_deleteTimer {timer : Timer} (h : timer ∈ (p.deleteTimer sn).timers) :
    timer ∈ p.timers := by
  unfold deleteTimer at h
  split at h
  · exact h
  · exact (List.mem_filter.mp h).1

end Player

namespace Estate
variable {cfg : Config} {e t : Estate} {due : String → Int} {sn : String} {now : Int} {b : Build}

structure OnTime (due : String → Int) (now : Int) (e : Estate) : Prop where
  stored : ∀ sn b, e.store.build sn = some b →
    (b.status = 1 → b.ctime + b.time = due sn) ∧ (b.status ≠ 1 → due sn ≤ now)
  built : ∀ sn b, e.player.myBuild sn = some b → b.status ≠ 1 → due sn ≤ now
  punctual : e.player.Punctual due
  nodup : e.store.timer.Nodup

theorem eq_or_of_update {f : String → Option Build} {v : String} {c : Build}
    (h : Function.update f sn (some b) v = some c) : v = sn ∧ b = c ∨ v ≠ sn ∧ f v = some c := by
  by_cases hv : v = sn
  · subst hv
    rw [Function.update_self] at h
    exact .inl ⟨rfl, Option.some.inj h⟩
  · rw [Function.update_of_ne hv] at h
    exact .inr ⟨hv, h⟩

theorem OnTime.setMyBuild (h : e.OnTime due now) (hstatus : b.status = 1)
    (htime : ∀ timer ∈ e.player.timers, timer.buildSn = sn → b.time ≤ 1100) :
    ({ e with player := e.player.setMyBuild sn b } : Estate).OnTime due now := by
  refine ⟨h.stored, fun v c hc hne => ?_, h.punctual.setMyBuild hstatus htime, h.nodup⟩
  rcases eq_or_of_update hc with ⟨rfl, rfl⟩ | ⟨-, hc⟩
  · exact absurd hstatus hne
  · exact h.built v c hc hne

theorem OnTime.setBuild (h : e.OnTime due now) (hstatus : b.status = 1)
    (hdue : b.ctime + b.time = due sn) : (e.setBuild sn b).OnTime due now := by
  refine ⟨fun v c hc => ?_, h.built, h.punctual, h.nodup⟩
  rcases eq_or_of_update hc with ⟨rfl, rfl⟩ | ⟨-, hc⟩
  · exact ⟨fun _ => hdue, fun hne => absurd hstatus hne⟩
  · exact h.stored v c hc

theorem OnTime.enTimer (h : e.OnTime due now)
    (hidle : ∀ timer ∈ e.player.timers, timer.buildSn ≠ sn) (hb : e.player.myBuild sn = some b)
    (hstatus : b.status = 1) (htime : b.time ≤ 1100) (hdue : due sn ≤ now + max 0 b.time) :
    ({ e with player := e.player.enTimer sn now } : Estate).OnTime due now where
  stored := h.stored
  built v c hc := h.built v c ((congrFun (Player.enTimer_myBuild _ _ _) v).symm.trans hc)
  punctual := h.punctual.enTimer hidle hb hstatus htime hdue
  nodup := h.nodup

theorem OnTime.buildTimerHandle (h : e.OnTime due now)
    (ht : e.buildTimerHandle cfg sn now = some t) (hdue : due sn ≤ now) : t.OnTime due now := by
  have hstatus : ∀ {b b'}, finished cfg b now = some b' → b'.status ≠ 1 := by
    intro b b' hb'
    have hzero : b'.status = 0 := (Prod.ext_iff.mp (finished_standing hb')).1
    rw [hzero]
    decide
  unfold Estate.buildTimerHandle at ht
  split at ht
  · obtain rfl := Option.some.inj ht
    exact h
  · next b hb =>
    obtain ⟨b', hb', ht⟩ := Option.bind_eq_some_iff.mp ht
    obtain rfl := Option.some.inj ht
    refine ⟨fun v c hc => ?_, fun v c hc hne => ?_, h.punctual.finish, h.nodup⟩
    · rcases eq_or_of_update hc with ⟨rfl, rfl⟩ | ⟨-, hc⟩
      · exact ⟨fun hone => absurd hone (hstatus hb'), fun _ => hdue⟩
      · exact h.stored v c hc
    · have hsame := congrFun (Player.deleteTimer_myBuild (e.player.setMyBuild sn b') sn) v
      rcases eq_or_of_update (hsame.symm.trans hc) with ⟨rfl, -⟩ | ⟨-, hc⟩
      · exact hdue
      · exact h.built v c hc hne

def LeavesTime (due : String → Int) (now : Int) (e : Estate) (sns : List String) : Prop :=
  ∀ sn ∈ sns, ∀ b, e.player.myBuild sn = some b → b.status = 1 →
    b.time - 1100 * sns.count sn ≤ 1100 → due sn ≤ now + max 0 (b.time - 1100 * sns.count sn)

theorem LeavesTime.tail {sns : List String} (h : e.LeavesTime due now (sn :: sns))
    (hother : ∀ v, v ≠ sn → t.player.myBuild v = e.player.myBuild v)
    (hsn : ∀ c, t.player.myBuild sn = some c → c.status = 1 →
      ∃ b, e.player.myBuild sn = some b ∧ b.status = 1 ∧ c.time = b.time - 1100) :
    t.LeavesTime due now sns := by
  intro v hv c hc hstatus hleft
  by_cases hvsn : v = sn
  · subst hvsn
    obtain ⟨b, hb, hb', htime⟩ := hsn c hc hstatus
    have hlisted := h v (List.mem_cons_self ..) b hb hb'
    rw [List.count_cons_self] at hlisted
    push_cast at hlisted
    have hsame : b.time - 1100 * ((sns.count v : Int) + 1) = c.time - 1100 * sns.count v := by
      omega
    rw [hsame] at hlisted
    exact hlisted hleft
  · have hlisted := h v (List.mem_cons_of_mem _ hv) c (hother v hvsn ▸ hc) hstatus
    rw [List.count_cons_of_ne (Ne.symm hvsn)] at hlisted
    exact hlisted hleft

theorem OnTime.tick {sns : List String} (h : e.OnTime due now)
    (hleaves : e.LeavesTime due now (sn :: sns)) (ht : tick cfg now e sn = some t) :
    t.OnTime due now ∧ t.LeavesTime due now sns := by
  unfold Estate.tick at ht
  split at ht
  · next hnone =>
    obtain rfl := Option.some.inj ht
    exact ⟨h, hleaves.tail (fun _ _ => rfl) fun c hc => absurd (hnone.symm.trans hc) (by simp)⟩
  next b hb =>
  split at ht
  · next hstatus =>
    set b' : Build := { b with time := b.time - 1100 }
    have htime : b'.time = b.time - 1100 := rfl
    have hmyBuild : (e.player.setMyBuild sn b').myBuild =
        Function.update e.player.myBuild sn (some b') := rfl
    have hleft := hleaves sn (List.mem_cons_self ..) b hb hstatus
    rw [List.count_cons_self] at hleft
    push_cast at hleft
    have hset : ({ e with player := e.player.setMyBuild sn b' } : Estate).OnTime due now := by
      refine h.setMyBuild hstatus fun timer htimer hsn => ?_
      obtain ⟨-, -, c, hc, -, hctime⟩ := h.punctual timer htimer
      rw [hsn, hb] at hc
      obtain rfl := Option.some.inj hc
      omega
    have htail : ∀ u : Estate, u.player.myBuild = Function.update e.player.myBuild sn (some b') →
        u.LeavesTime due now sns := by
      intro u hu
      refine hleaves.tail (fun v hv => by rw [hu, Function.update_of_ne hv]) fun c hc _ => ?_
      rw [hu, Function.update_self] at hc
      obtain rfl := Option.some.inj hc
      exact ⟨b, hb, hstatus, htime⟩
    dsimp only at ht
    split_ifs at ht with hzero hsoon
    · -- the construction ends here
      refine ⟨hset.buildTimerHandle ht (by omega), ?_⟩
      rcases buildTimerHandle_cases ht with ⟨-, rfl⟩ | ⟨c, c', hc, hc', hwrites⟩
      · exact htail _ rfl
      · refine hleaves.tail (fun v hv => ?_) fun d hd hone => ?_
        · rw [hwrites.myBuild, Function.update_of_ne hv]
          exact Function.update_of_ne hv _ _
        · rw [hwrites.myBuild, Function.update_self] at hd
          obtain rfl := Option.some.inj hd
          have hfinished : c'.status = 0 := (Prod.ext_iff.mp (finished_standing hc')).1
          exact absurd (hfinished.symm.trans hone) (by decide)
    · -- less than a pass is left, so a timer goes on
      obtain rfl := Option.some.inj ht
      have hidle : ∀ timer ∈ e.player.timers, timer.buildSn ≠ sn := by
        refine h.punctual.idle fun c hc _ => ?_
        obtain rfl := Option.some.inj (hb.symm.trans hc)
        omega
      refine ⟨hset.enTimer hidle (Function.update_self ..) hstatus hsoon (by omega), ?_⟩
      exact htail _ (Player.enTimer_myBuild _ _ _)
    · obtain rfl := Option.some.inj ht
      exact ⟨hset, htail _ rfl⟩
  · next hstatus =>
    obtain rfl := Option.some.inj ht
    refine ⟨h, hleaves.tail (fun _ _ => rfl) fun c hc hone => ?_⟩
    obtain rfl := Option.some.inj (hb.symm.trans hc)
    exact absurd hone hstatus

theorem OnTime.heartCheck (h : e.OnTime due now)
    (hleaves : e.LeavesTime due now e.player.building) (ht : e.heartCheck cfg now = some t) :
    t.OnTime due now :=
  (Run.foldlM_preserves (I := fun u sns => u.OnTime due now ∧ u.LeavesTime due now sns)
    (fun _ _ _ _ hu ht => hu.1.tick hu.2 ht) ⟨h, hleaves⟩ ht).1

theorem buildTimerHandle_timers (ht : e.buildTimerHandle cfg sn now = some t) :
    ∀ timer ∈ t.player.timers, timer ∈ e.player.timers := by
  intro timer htimer
  unfold Estate.buildTimerHandle at ht
  split at ht
  · obtain rfl := Option.some.inj ht
    exact htimer
  · obtain ⟨b, -, ht⟩ := Option.bind_eq_some_iff.mp ht
    obtain rfl := Option.some.inj ht
    exact Player.of_mem_deleteTimer (p := e.player.setMyBuild sn b) htimer

structure Resumes (due : String → Int) (e : Estate) (sns : List String) : Prop where
  nodup : sns.Nodup
  idle : ∀ sn ∈ sns, ∀ timer ∈ e.player.timers, timer.buildSn ≠ sn
  due : ∀ sn ∈ sns, ∀ b, e.player.myBuild sn = some b → b.status = 1 → b.ctime + b.time = due sn

theorem Resumes.tail {sns : List String} (h : e.Resumes due (sn :: sns))
    (hother : ∀ v, v ≠ sn → t.player.myBuild v = e.player.myBuild v)
    (htimers : ∀ timer ∈ t.player.timers, timer.buildSn = sn ∨ timer ∈ e.player.timers) :
    t.Resumes due sns := by
  obtain ⟨hsn, hnodup⟩ := List.nodup_cons.mp h.nodup
  have hne : ∀ v ∈ sns, v ≠ sn := fun v hv hvsn => hsn (hvsn ▸ hv)
  refine ⟨hnodup, fun v hv timer htimer => ?_, fun v hv b hb => ?_⟩
  · rcases htimers timer htimer with hown | hold
    · rw [hown]
      exact (hne v hv).symm
    · exact h.idle v (List.mem_cons_of_mem _ hv) timer hold
  · exact h.due v (List.mem_cons_of_mem _ hv) b (hother v (hne v hv) ▸ hb)

theorem OnTime.resume {sns : List String} (h : e.OnTime due now)
    (hresumes : e.Resumes due (sn :: sns)) (ht : resume cfg now e sn = some t) :
    t.OnTime due now ∧ t.Resumes due sns := by
  have hidle := hresumes.idle sn (List.mem_cons_self ..)
  unfold Estate.resume at ht
  split at ht
  · obtain rfl := Option.some.inj ht
    exact ⟨h, hresumes.tail (fun _ _ => rfl) fun _ htimer => .inr htimer⟩
  next b hb =>
  split at ht
  · next hstatus =>
    have hdue := hresumes.due sn (List.mem_cons_self ..) b hb hstatus
    set b' : Build := { b with time := b.time - (now - b.ctime), ctime := now }
    have htime : b'.time = due sn - now := by
      change b.time - (now - b.ctime) = due sn - now
      omega
    have hctime : b'.ctime = now := rfl
    have hmyBuild : (e.player.setMyBuild sn b').myBuild =
        Function.update e.player.myBuild sn (some b') := rfl
    have hset : ({ e with player := e.player.setMyBuild sn b' } : Estate).OnTime due now :=
      h.setMyBuild hstatus fun timer htimer hsn => absurd hsn (hidle timer htimer)
    have hother : ∀ v, v ≠ sn → (e.player.setMyBuild sn b').myBuild v = e.player.myBuild v :=
      fun v hv => Function.update_of_ne hv _ _
    dsimp only at ht
    split_ifs at ht with hzero hsoon
    · -- what ended while the player was away
      refine ⟨hset.buildTimerHandle ht (by omega), hresumes.tail (fun v hv => ?_) fun timer hmem => ?_⟩
      · rcases buildTimerHandle_cases ht with ⟨-, rfl⟩ | ⟨c, c', hc, hc', hwrites⟩
        · exact hother v hv
        · rw [hwrites.myBuild, Function.update_of_ne hv]
          exact hother v hv
      · exact .inr (buildTimerHandle_timers ht timer hmem)
    · obtain rfl := Option.some.inj ht
      have hstored : (({ e with player := e.player.setMyBuild sn b' } : Estate).setBuild
          sn b').OnTime due now := hset.setBuild hstatus (by omega)
      refine ⟨hstored.enTimer hidle (Function.update_self ..) hstatus hsoon (by omega), ?_⟩
      refine hresumes.tail (fun v hv => ?_) fun timer hmem =>
        Player.of_mem_enTimer (p := e.player.setMyBuild sn b') hmem
      exact (congrFun (Player.enTimer_myBuild _ _ _) v).trans (hother v hv)
    · obtain rfl := Option.some.inj ht
      exact ⟨hset.setBuild hstatus (by omega),
        hresumes.tail hother fun timer hmem => .inr hmem⟩
  · obtain rfl := Option.some.inj ht
    exact ⟨h, hresumes.tail (fun _ _ => rfl) fun _ htimer => .inr htimer⟩

theorem OnTime.login (h : e.OnTime due now) (ht : e.login cfg now = some t) :
    t.OnTime due now := by
  have hloaded : ∀ {b : Build}, (loaded b now).status = b.status := by
    intro b
    exact (Prod.ext_iff.mp (loaded_standing b)).1
  have hstored : ∀ {sn : String} {b : Build},
      (e.store.build sn).map (fun b => loaded b now) = some b →
        (b.status = 1 → b.ctime + b.time = due sn) ∧ (b.status ≠ 1 → due sn ≤ now) := by
    intro sn b hb
    obtain ⟨c, hc, rfl⟩ := Option.map_eq_some_iff.mp hb
    rw [hloaded]
    refine ⟨fun hone => ?_, (h.stored sn c hc).2⟩
    have hsame : loaded c now = c := by
      unfold loaded
      rw [if_neg]
      rintro ⟨-, hzero⟩
      omega
    rw [hsame]
    exact (h.stored sn c hc).1 hone
  unfold Estate.login at ht
  refine (Run.foldlM_preserves (I := fun u sns => u.OnTime due now ∧ u.Resumes due sns)
    (fun _ _ _ _ hu ht => hu.1.resume hu.2 ht) ⟨?_, ?_⟩ ht).1
  · exact ⟨h.stored, fun sn b hb => (hstored hb).2, fun _ hmem => absurd hmem List.not_mem_nil,
      h.nodup⟩
  · exact ⟨h.nodup, fun _ _ _ hmem => absurd hmem List.not_mem_nil,
      fun sn _ b hb => (hstored hb).1⟩

theorem OnTime.startBuild (h : e.OnTime due now)
    (hidle : ∀ timer ∈ e.player.timers, timer.buildSn ≠ sn) (hstatus : b.status = 1)
    (hctime : b.ctime = now) :
    (e.startBuild sn b now).OnTime (Function.update due sn (now + b.time)) now := by
  have hset : (e.player.setMyBuild sn b).Punctual (Function.update due sn (now + b.time)) :=
    (h.punctual.of_idle hidle).setMyBuild hstatus fun timer htimer hsn =>
      absurd hsn (hidle timer htimer)
  have hmyBuild : (e.startBuild sn b now).player.myBuild =
      Function.update e.player.myBuild sn (some b) := by
    unfold Estate.startBuild
    split_ifs
    · exact Player.enTimer_myBuild _ _ _
    · rfl
  have htimer : (e.startBuild sn b now).store.timer =
      if sn ∈ e.store.timer then e.store.timer else e.store.timer ++ [sn] := rfl
  refine ⟨fun v c hc => ?_, fun v c hc hne => ?_, ?_, ?_⟩
  · rcases eq_or_of_update hc with ⟨rfl, rfl⟩ | ⟨hv, hc⟩
    · rw [Function.update_self, hctime]
      exact ⟨fun _ => rfl, fun hne => absurd hstatus hne⟩
    · rw [Function.update_of_ne hv]
      exact h.stored v c hc
  · rw [hmyBuild] at hc
    rcases eq_or_of_update hc with ⟨rfl, rfl⟩ | ⟨hv, hc⟩
    · exact absurd hstatus hne
    · rw [Function.update_of_ne hv]
      exact h.built v c hc hne
  · unfold Estate.startBuild
    split_ifs with htime
    · refine Player.Punctual.enTimer (p := { e.player.setMyBuild sn b with
        building := e.player.building ++ [sn] }) hset hidle (Function.update_self ..) hstatus htime ?_
      rw [Function.update_self]
      omega
    · exact hset
  · rw [htimer]
    split_ifs with hmem
    · exact h.nodup
    · exact h.nodup.append (List.nodup_singleton sn) (by simpa using hmem)

theorem OnTime.sameWorks (h : e.OnTime due now) (ht : e.SameWorks t) : t.OnTime due now := by
  have hmyBuild : t.player.myBuild = e.player.myBuild := by rw [ht.player]
  have htimers : t.player.timers = e.player.timers := by rw [ht.player]
  have hbuildingTimer : t.player.buildingTimer = e.player.buildingTimer := by rw [ht.player]
  have hbuild : t.store.build = e.store.build := by rw [ht.store]
  have htimer : t.store.timer = e.store.timer := by rw [ht.store]
  refine ⟨by rw [hbuild]; exact h.stored, by rw [hmyBuild]; exact h.built, ?_,
    by rw [htimer]; exact h.nodup⟩
  unfold Player.Punctual
  rw [htimers, hbuildingTimer, hmyBuild]
  exact h.punctual

theorem OnTime.orders (h : e.OnTime due now)
    (hidle : ∀ timer ∈ e.player.timers, timer.buildSn ≠ sn) (ht : e.Orders t sn b now) :
    t.OnTime (Function.update due sn (now + b.time)) now := by
  obtain ⟨u, hu, ht, hstatus, hctime⟩ := ht
  have htimers : u.player.timers = e.player.timers := by rw [hu.player]
  exact ((h.sameWorks hu).startBuild (htimers ▸ hidle) hstatus hctime).sameWorks ht

theorem OnTime.timeout {id : ℕ} (h : e.OnTime due now) (ht : e.timeout cfg id now = some t) :
    t.OnTime due now := by
  obtain ⟨timer, htimer, ht⟩ := Option.bind_eq_some_iff.mp ht
  have hexpired := List.find?_some htimer
  have hmem := List.mem_of_find?_eq_some htimer
  have hdue := (h.punctual timer hmem).2.1
  have hfired : ({ e with player := { e.player with timers := e.player.timers.filter fun timer =>
      timer.id ≠ id } } : Estate).OnTime due now :=
    ⟨h.stored, h.built, fun timer htimer => h.punctual timer (List.mem_filter.mp htimer).1, h.nodup⟩
  exact hfired.buildTimerHandle ht (by simp at hexpired; omega)

theorem OnTime.mono {later : Int} (h : e.OnTime due now) (hle : now ≤ later) :
    e.OnTime due later where
  stored sn b hb := ⟨(h.stored sn b hb).1, fun hne => ((h.stored sn b hb).2 hne).trans hle⟩
  built sn b hb hne := (h.built sn b hb hne).trans hle
  punctual := h.punctual
  nodup := h.nodup

theorem OnTime.logout (h : e.OnTime due now) : e.logout.OnTime due now where
  stored := h.stored
  built _ _ hb := absurd hb (by simp [Estate.logout])
  punctual _ htimer := absurd htimer List.not_mem_nil
  nodup := h.nodup

end Estate

namespace Site
variable {cfg : Config} {s t : Site} {e : Estate} {sn : String}

/-- No building is finished, here or in the store, before its last construction is due. -/
def Timely (s : Site) : Prop :=
  ∀ sn b, s.estate.player.myBuild sn = some b ∨ s.estate.store.build sn = some b →
    b.status ≠ 1 → s.due sn ≤ s.clock

def PassLeavesTime (s : Site) : SiteEvent → Prop
  | .heartCheck =>
    200 ≤ s.curCount + 1 → s.estate.LeavesTime s.due s.clock s.estate.player.building
  | _ => True

theorem timely_of_onTime (h : s.estate.OnTime s.due s.clock) : s.Timely := by
  rintro sn b (hb | hb) hne
  · exact h.built sn b hb hne
  · exact (h.stored sn b hb).2 hne

theorem onTime_order {b : Build} (h : s.estate.OnTime s.due s.clock)
    (horders : s.estate.Orders e sn b s.clock)
    (hstanding : ∀ old, s.estate.player.myBuild sn = some old → old.status ≠ 1) :
    (s.order sn e).estate.OnTime (s.order sn e).due (s.order sn e).clock := by
  rw [order_of_orders horders hstanding]
  refine h.orders (h.punctual.idle fun old hold hone => ?_) horders
  exact absurd hone (hstanding old hold)

theorem onTime_step {ev : SiteEvent} (h : s.estate.OnTime s.due s.clock)
    (ht : s.step cfg ev = some t) (hleaves : s.PassLeavesTime ev) :
    t.estate.OnTime t.due t.clock := by
  unfold step at ht
  cases ev with
  | wait seconds =>
    obtain rfl := Option.some.inj ht
    have hle : s.clock ≤ s.clock + seconds := by omega
    -- a timer may expire late
    exact h.mono hle
  | buildCreate type sn =>
    dsimp only at ht
    split_ifs at ht with hnew
    obtain ⟨r, hr, rfl⟩ := Option.map_eq_some_iff.mp ht
    rcases Estate.buildCreate_cases hr with ⟨-, hsame⟩ | ⟨-, -, b, horders, -⟩
    · rwa [hsame, order_self]
    · refine onTime_order h horders fun old hold => ?_
      exact absurd ((Option.isNone_iff_eq_none.mp hnew.2.1).symm.trans hold) (by simp)
  | buildUpgrade sn =>
    dsimp only at ht
    split_ifs at ht with honline
    obtain ⟨r, hr, rfl⟩ := Option.map_eq_some_iff.mp ht
    rcases Estate.buildUpgrade_cases hr with
      ⟨-, hsame⟩ | ⟨-, -, b, old, horders, hold, hstatus, -⟩
    · rwa [hsame, order_self]
    · refine onTime_order h horders fun old' hold' => ?_
      obtain rfl := Option.some.inj (hold.symm.trans hold')
      exact hstatus
  | timeout id =>
    obtain ⟨e, he, rfl⟩ := Option.map_eq_some_iff.mp ht
    exact h.timeout he
  | heartCheck =>
    dsimp only at ht
    split_ifs at ht with hdue hcount
    · obtain rfl := Option.some.inj ht
      exact h
    · obtain ⟨e, he, rfl⟩ := Option.map_eq_some_iff.mp ht
      exact h.heartCheck (hleaves (not_lt.mp hcount)) he
  | logout =>
    dsimp only at ht
    split_ifs at ht
    obtain rfl := Option.some.inj ht
    exact h.logout
  | login =>
    dsimp only at ht
    split_ifs at ht
    obtain ⟨e, he, rfl⟩ := Option.map_eq_some_iff.mp ht
    exact h.login he

theorem onTime_start {store : Store} (hstore : store.timer.Nodup) (clock : Int) (curCount : ℕ)
    (heartDue : Int) : (start store clock curCount heartDue).estate.OnTime
      (start store clock curCount heartDue).due clock := by
  refine ⟨fun sn b hb => ?_, fun sn b hb => absurd hb (by simp [start]),
    fun timer htimer => absurd htimer List.not_mem_nil, hstore⟩
  have hb : store.build sn = some b := hb
  have hdue : (start store clock curCount heartDue).due sn =
      if b.status = 1 then b.ctime + b.time else clock := by
    simp [start, hb]
  rw [hdue]
  exact ⟨fun hone => (if_pos hone).symm, fun hne => (if_neg hne).le⟩

/-- Whatever the player does but FastFinish, and whenever the timers expire: no construction ends
before it is due if each pass of `HeartCheck` leaves the buildings the time that they have. The
keys of a hash in redis are distinct. -/
theorem timely_run (cfg : Config) {store : Store} (hstore : store.timer.Nodup) (clock : Int)
    (curCount : ℕ) (heartDue : Int) (es : List SiteEvent)
    (hleaves : Run.EachStep (step cfg) PassLeavesTime (start store clock curCount heartDue) es) :
    Run.Always (step cfg) Timely (start store clock curCount heartDue) es :=
  (Run.always_of_eachStep (I := fun s => s.estate.OnTime s.due s.clock)
    (fun _ _ _ h hleaves ht => onTime_step h ht hleaves)
    (onTime_start hstore clock curCount heartDue) hleaves).mono fun _ => timely_of_onTime

theorem timely_run_pass : Run.Always (step
    { globalBuild := [[{}], [{ buildTime := 2100 }, {}]]
      cityLimit := [[{}, { maxLevel := 1, maxNum := 1 }]] }) Timely
    (start { cityHallUuid := "hall", build := Function.update (fun _ => none) "hall" (some {}) } 0
      199 5)
    [.login, .buildCreate 1 "a", .wait 1100, .heartCheck, .wait 1000, .timeout 0] := by
  refine timely_run _ List.nodup_nil 0 199 5 _ ?_
  refine fun s₁ h₁ => ⟨trivial, fun s₂ h₂ => ⟨trivial, fun s₃ h₃ => ⟨trivial, fun s₄ h₄ => ⟨?_,
    fun _ _ => ⟨trivial, fun _ _ => ⟨trivial, trivial⟩⟩⟩⟩⟩⟩
  obtain rfl := Option.some.inj h₁
  obtain rfl := Option.some.inj h₂
  obtain rfl := Option.some.inj h₃
  rintro - sn hsn b hb hstatus -
  obtain rfl := List.mem_singleton.mp hsn
  obtain rfl := Option.some.inj (Eq.trans (Eq.symm hb) rfl)
  decide

/-- A pass comes one second after the start of a construction of one minute. -/
theorem not_timely_pass :
    ¬ ∀ (cfg : Config) (store : Store) (clock : Int) (curCount : ℕ) (heartDue : Int)
      (es : List SiteEvent), store.timer.Nodup →
      Run.Always (step cfg) Timely (start store clock curCount heartDue) es := by
  intro hall
  have hrun := hall
    { globalBuild := [[{}], [{ buildTime := 60 }, {}]]
      cityLimit := [[{}, { maxLevel := 1, maxNum := 1 }]] }
    { cityHallUuid := "hall", build := Function.update (fun _ => none) "hall" (some {}) } 0 199 5
    [.login, .wait 4, .buildCreate 1 "a", .wait 1, .heartCheck] List.nodup_nil
  have hend := (((((hrun.2 _ rfl).2 _ rfl).2 _ rfl).2 _ rfl).2 _ rfl) "a" _ (.inl rfl) (by decide)
  revert hend
  decide

end Site

end IceBridge.Gateway
