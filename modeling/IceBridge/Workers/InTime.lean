import IceBridge.Workers.Heartbeats

/-! As long as messages and loops are not too late, no worker and no broker is given up. -/

namespace IceBridge.Workers.Timed

variable {slack delay now last : Int} {b : Broker} {x y : Worker}

namespace Worker

theorem times_append (l : List (α × Int)) (m : α) (now : Int) :
    (l ++ [(m, now)]).map Prod.snd = l.map Prod.snd ++ [now] := by simp

theorem Sound.start (h : x.Sound slack delay now b) (hx : x.start now = some y) :
    y.Sound slack delay now b := by
  unfold Worker.start at hx
  split_ifs at hx with hstopped
  obtain rfl := Option.some.inj hx
  obtain ⟨hup, hdown, hknown⟩ : x.up = [] ∧ x.down = [] ∧ x.known = none := by
    rcases h.link with ⟨-, hnone⟩ | ⟨last, hbeating, -⟩
    · exact hnone
    · exact absurd hstopped hbeating.started
  refine ⟨h.reconnects, ?_, h.down, .inr ⟨now, ?_, .inl ⟨hknown, hdown, now, [], ?_⟩⟩⟩
  · simp [connect, hup]
  · exact ⟨by simp [connect], le_refl now, by simp [connect], by simp [connect],
      fun _ => le_refl now⟩
  · exact ⟨by simp [connect, hup], le_refl _, by simp [connect, hup, Heartbeat.Paced]⟩

theorem Sound.sent {m : Up} (h : x.Sound slack delay now b) (hslack : 0 ≤ slack)
    (ht : WorkerOnTime slack delay now x) (hy : y.up = x.up ++ [(m, now)])
    (hdown : y.down = x.down) (hknown : y.known = x.known)
    (hreconnects : y.reconnects = x.reconnects) (hdeadline : y.deadline = x.deadline)
    (hstarted : x.place ≠ .stopped)
    (hbeating : ∀ last, x.Beating slack now last → y.Beating slack now now) :
    y.Sound slack delay now b := by
  refine ⟨hreconnects.trans h.reconnects, fun k hk => ?_, fun k hk => h.down k (hdown ▸ hk), ?_⟩
  · rw [hy] at hk
    rcases List.mem_append.mp hk with hk | hk
    · exact h.up k hk
    · rw [List.mem_singleton.mp hk]
  · rcases h.link with ⟨hstopped, -⟩ | ⟨last, hlast, hjoining | hjoined⟩
    · exact absurd hstopped hstarted
    · obtain ⟨t, rest, hready, hle, hpaced⟩ := hjoining.up
      refine .inr ⟨now, hbeating last hlast, .inl ⟨hknown.trans hjoining.known,
        hdown.trans hjoining.down, t, rest ++ [(m, now)], ?_, ?_, ?_⟩⟩
      · rw [hy, hready, List.cons_append]
      · rwa [hdeadline]
      · rw [hy, times_append]
        exact hpaced.send (hlast.in_gap hslack ht)
    · obtain ⟨expiry, hk, hcovered⟩ := hjoined.known
      refine .inr ⟨now, hbeating last hlast, .inr ⟨⟨expiry, hknown.trans hk, ?_⟩, ?_⟩⟩
      · rw [hy, times_append]
        exact hcovered.send (hlast.in_gap hslack ht)
      · rw [hdown, hdeadline]
        exact hjoined.served

theorem Sound.forward (h : x.Sound slack delay now b) (hslack : 0 ≤ slack)
    (ht : WorkerOnTime slack delay now x) (hx : x.forward now = some y) :
    y.Sound slack delay now b := by
  unfold Worker.forward at hx
  split_ifs at hx with hplace
  obtain rfl := Option.some.inj hx
  refine h.sent hslack ht rfl rfl rfl rfl (by simp [deadline, hplace]) (by simp [hplace]) ?_
  intro last hlast
  have hdue := hlast.due (by simp [hplace])
  have hle := hlast.le
  refine ⟨by simp, le_refl now, fun _ => hlast.checked (.inl hplace), fun _ => ?_, by simp⟩
  show x.heartbeatAt ≤ now + heartbeatInterval + slack
  linarith

theorem Sound.moved (h : x.Sound slack delay now b) (hy : y.up = x.up) (hdown : y.down = x.down)
    (hknown : y.known = x.known) (hreconnects : y.reconnects = x.reconnects)
    (hdeadline : x.deadline ≤ y.deadline) (hstarted : x.place ≠ .stopped)
    (hbeating : ∀ last, x.Beating slack now last → y.Beating slack now last) :
    y.Sound slack delay now b := by
  refine ⟨hreconnects.trans h.reconnects, hy ▸ h.up, hdown ▸ h.down, ?_⟩
  rcases h.link with ⟨hstopped, -⟩ | ⟨last, hlast, hjoining | hjoined⟩
  · exact absurd hstopped hstarted
  · obtain ⟨t, rest, hready, hle, hpaced⟩ := hjoining.up
    exact .inr ⟨last, hbeating last hlast, .inl ⟨hknown.trans hjoining.known,
      hdown.trans hjoining.down, t, rest, hy.trans hready, hle.trans hdeadline, hy ▸ hpaced⟩⟩
  · obtain ⟨expiry, hk, hcovered⟩ := hjoined.known
    obtain ⟨lastDown, hserved, hdownCovered⟩ := hjoined.served
    exact .inr ⟨last, hbeating last hlast, .inr ⟨⟨expiry, hknown.trans hk, hy ▸ hcovered⟩,
      lastDown, hserved, hdown ▸ hdownCovered.mono hdeadline⟩⟩

theorem Sound.idle (h : x.Sound slack delay now b) (halive : Alive now x)
    (hx : x.idle now = some y) : y.Sound slack delay now b := by
  unfold Worker.idle at hx
  split_ifs at hx with hplace hlate
  · exact absurd (halive.liveness hplace) (not_le.mpr hlate)
  · obtain rfl := Option.some.inj hx
    refine h.moved rfl rfl rfl rfl (by simp [deadline, hplace]) (by simp [hplace]) ?_
    intro last hlast
    exact ⟨by simp, hlast.le, fun _ => hlast.checked (.inl hplace),
      fun _ => hlast.due (by simp [hplace]), by simp⟩

theorem Sound.check (h : x.Sound slack delay now b) (hslack : 0 ≤ slack)
    (ht : WorkerOnTime slack delay now x) (hx : x.check now = some y) :
    y.Sound slack delay now b := by
  unfold Worker.check at hx
  split_ifs at hx with hplace hdue
  · obtain rfl := Option.some.inj hx
    refine h.sent hslack ht rfl rfl rfl rfl (by simp [deadline, hplace]) (by simp [hplace]) ?_
    intro last hlast
    refine ⟨by simp, le_refl now, by simp, fun _ => ?_, fun _ => le_refl now⟩
    show x.heartbeatAt ≤ now + heartbeatInterval + slack
    unfold heartbeatInterval
    linarith
  · obtain rfl := Option.some.inj hx
    refine h.moved rfl rfl rfl rfl (by simp [deadline, hplace]) (by simp [hplace]) ?_
    intro last hlast
    exact ⟨by simp, hlast.le, fun _ => not_lt.mp hdue, fun _ => hlast.due (by simp [hplace]),
      by simp⟩

theorem Sound.set (h : x.Sound slack delay now b) (ht : WorkerOnTime slack delay now x)
    (hx : x.set now = some y) : y.Sound slack delay now b := by
  have hdue {last : Int} (hlast : x.Beating slack now last)
      (hplace : x.place = .setting ∨ ∃ starting, x.place = .connecting starting) :
      now + heartbeatInterval ≤ last + heartbeatInterval + slack ∧
        x.checkedAt ≤ now + heartbeatInterval := by
    have hset := ht.setting hplace
    have hsent := hlast.setting hplace
    have hle := hlast.le
    unfold heartbeatInterval
    constructor <;> linarith
  unfold Worker.set at hx
  cases hplace : x.place with
  | connecting starting =>
    rw [hplace] at hx
    obtain rfl := Option.some.inj hx
    refine h.moved rfl rfl rfl rfl ?_ (by simp [hplace]) ?_
    · have hchecked : x.checkedAt ≤ now := by
        rcases h.link with ⟨hstopped, -⟩ | ⟨last, hlast, -⟩
        · exact absurd hstopped (by simp [hplace])
        · exact le_trans (hlast.setting (.inr ⟨starting, hplace⟩)) hlast.le
      have hx : x.deadline = x.checkedAt + 10 * heartbeatInterval := by rw [deadline, hplace]
      rw [hx]
      cases starting <;> exact Int.add_le_add_right hchecked _
    · intro last hlast
      have hnow := hdue hlast (.inr ⟨starting, hplace⟩)
      refine ⟨?_, hlast.le, fun _ => hnow.2, fun _ => hnow.1, ?_⟩
      · cases starting <;> simp
      · cases starting <;> simp
  | setting =>
    rw [hplace] at hx
    obtain rfl := Option.some.inj hx
    refine h.moved rfl rfl rfl rfl (by simp [deadline, hplace]) (by simp [hplace]) ?_
    intro last hlast
    have hnow := hdue hlast (.inl hplace)
    exact ⟨by simp, hlast.le, fun _ => hnow.2, fun _ => hnow.1, by simp⟩
  | stopped => simp [hplace] at hx
  | polling => simp [hplace] at hx
  | checking => simp [hplace] at hx

theorem Sound.receive (h : x.Sound slack delay now b) (hdelay : 0 ≤ delay)
    (hx : x.receive now = some y) : y.Sound slack delay now b := by
  unfold Worker.receive at hx
  split at hx
  · next m t rest hplace hdown =>
    have hm := h.down (m, t) (by rw [hdown]; exact List.mem_cons_self)
    simp only [if_neg hm.2, Option.some.injEq] at hx
    subst hx
    refine ⟨h.reconnects, h.up, fun k hk => h.down k (hdown ▸ List.mem_cons_of_mem _ hk), ?_⟩
    rcases h.link with ⟨hstopped, -⟩ | ⟨last, hlast, hjoining | hjoined⟩
    · exact absurd hstopped (by simp [hplace])
    · exact absurd hdown (by simp [hjoining.down])
    · obtain ⟨lastDown, hserved, hcovered⟩ := hjoined.served
      refine .inr ⟨last, ?_, .inr ⟨hjoined.known, lastDown, hserved, ?_⟩⟩
      · exact ⟨by simp, hlast.le, fun _ => hlast.checked (.inl hplace),
          fun _ => hlast.due (by simp [hplace]), by simp⟩
      · rw [hdown] at hcovered
        apply (hcovered.receive hm.1).mono
        show now + (10 * heartbeatInterval - delay) ≤ now + 10 * heartbeatInterval
        linarith
  · exact absurd hx (by simp)

/-! ## What the broker does -/

theorem Sound.tick {later : Int} (h : x.Sound slack delay now b) (hlater : now ≤ later) :
    x.Sound slack delay later b := by
  refine ⟨h.reconnects, fun m hm => (h.up m hm).trans hlater, fun m hm => ?_, ?_⟩
  · exact ⟨(h.down m hm).1.trans hlater, (h.down m hm).2⟩
  · rcases h.link with hnone | ⟨last, hlast, hlink⟩
    · exact .inl hnone
    · exact .inr ⟨last, ⟨hlast.started, hlast.le.trans hlater, hlast.checked, hlast.due,
        hlast.setting⟩, hlink⟩

theorem Sound.broker {b' : Broker} (h : x.Sound slack delay now b)
    (hserved : ∀ last, Served slack last b → Served slack last b') :
    x.Sound slack delay now b' := by
  refine ⟨h.reconnects, h.up, h.down, ?_⟩
  rcases h.link with hnone | ⟨last, hlast, hjoining | hjoined⟩
  · exact .inl hnone
  · exact .inr ⟨last, hlast, .inl hjoining⟩
  · obtain ⟨lastDown, hb, hcovered⟩ := hjoined.served
    exact .inr ⟨last, hlast, .inr ⟨hjoined.known, lastDown, hserved lastDown hb, hcovered⟩⟩

theorem covered_waiting {expiry t : Int} {times : List Int} (ht : t ≤ now)
    (h : Heartbeat.Covered (workerGap slack) (30 * heartbeatInterval) expiry last (t :: times)) :
    Heartbeat.Covered (workerGap slack) (30 * heartbeatInterval)
      (now + heartbeatInterval * 3 * 10) last times := by
  have hexpiry : now + 30 * heartbeatInterval = now + heartbeatInterval * 3 * 10 := by
    unfold heartbeatInterval
    norm_num
  rw [← hexpiry]
  exact h.receive ht

theorem Joining.process {m : Up × Int} {rest : List (Up × Int)} (h : x.Joining slack last)
    (hb : b.Sound now) (hslack : 0 ≤ slack) (hplace : b.place = .polling)
    (hup : x.up = m :: rest) (hsent : m.2 ≤ now) (hnow : now ≤ m.2 + delay) {name : Name}
    (hname : name.Accepted) :
    x.process name now = some (({ x with up := rest } : Worker).waiting now) ∧
      (({ x with up := rest } : Worker).waiting now).Joined slack delay last b := by
  obtain ⟨t, rest', hready, hle, hpaced⟩ := h.up
  obtain ⟨rfl, rfl⟩ : m = (.ready, t) ∧ rest = rest' := by simpa [hup] using hready
  rw [hup, List.map_cons] at hpaced
  refine ⟨by simp [Worker.process, hup, hname], ⟨_, rfl, ?_⟩, now, ⟨?_, by simp [hplace]⟩, ?_⟩
  · exact covered_waiting hsent ⟨hpaced, le_refl _⟩
  · have hdue := hb.due
    linarith
  · have hdown : (({ x with up := rest } : Worker).waiting now).down = [] := h.down
    rw [hdown]
    refine ⟨trivial, ?_⟩
    show now + (10 * heartbeatInterval - delay) ≤ x.deadline
    linarith

theorem Joined.process {m : Up × Int} {rest : List (Up × Int)} (h : x.Joined slack delay last b)
    (hup : x.up = m :: rest) (hsent : m.2 ≤ now) {name : Name} (hname : name.Accepted) :
    x.process name now = some (({ x with up := rest } : Worker).waiting now) ∧
      (({ x with up := rest } : Worker).waiting now).Joined slack delay last b := by
  obtain ⟨expiry, hknown, hcovered⟩ := h.known
  rw [hup, List.map_cons] at hcovered
  refine ⟨?_, ⟨_, rfl, covered_waiting hsent hcovered⟩, h.served⟩
  rcases m with ⟨m, t⟩
  cases m <;> simp [Worker.process, require, hup, hknown, hname]

theorem Sound.process (h : x.Sound slack delay now b) (hb : b.Sound now) (hslack : 0 ≤ slack)
    (hplace : b.place = .polling) (ht : WorkerOnTime slack delay now x) {name : Name}
    (hname : name.Accepted) (hx : x.process name now = some y) : y.Sound slack delay now b := by
  cases hup : x.up with
  | nil => simp [Worker.process, hup] at hx
  | cons m rest =>
    have hmem : m ∈ x.up := by rw [hup]; exact List.mem_cons_self
    have hmore : ∀ k ∈ rest, k.2 ≤ now := fun k hk =>
      h.up k (by rw [hup]; exact List.mem_cons_of_mem _ hk)
    obtain ⟨last, hlast, hprocess, hjoined⟩ : ∃ last, x.Beating slack now last ∧
        x.process name now = some (({ x with up := rest } : Worker).waiting now) ∧
        (({ x with up := rest } : Worker).waiting now).Joined slack delay last b := by
      rcases h.link with ⟨-, hnone, -⟩ | ⟨last, hlast, hjoining | hjoined⟩
      · exact absurd hup (by simp [hnone])
      · exact ⟨last, hlast, hjoining.process hb hslack hplace hup (h.up m hmem) (ht.up m hmem)
          hname⟩
      · exact ⟨last, hlast, hjoined.process hup (h.up m hmem) hname⟩
    obtain rfl := Option.some.inj (hprocess.symm.trans hx)
    refine ⟨h.reconnects, hmore, h.down, .inr ⟨last, ?_, .inr hjoined⟩⟩
    exact ⟨hlast.started, hlast.le, hlast.checked, hlast.due, hlast.setting⟩

theorem Sound.hears {b' : Broker} {m : Down} (h : x.Sound slack delay now b)
    (hb : b.Sound now) (hslack : 0 ≤ slack) (htb : BrokerOnTime slack now b)
    (hserved : Served slack now b') (hm : m ≠ .disconnect) (hknown : x.known ≠ none) :
    ({ x with down := x.down ++ [(m, now)] } : Worker).Sound slack delay now b' := by
  refine ⟨h.reconnects, h.up, fun k hk => ?_, ?_⟩
  · rcases List.mem_append.mp hk with hk | hk
    · exact h.down k hk
    · rw [List.mem_singleton.mp hk]
      exact ⟨le_refl now, hm⟩
  · rcases h.link with ⟨-, -, -, hnone⟩ | ⟨last, hlast, hjoining | hjoined⟩
    · exact absurd hnone hknown
    · exact absurd hjoining.known hknown
    · obtain ⟨lastDown, hb', hcovered⟩ := hjoined.served
      refine .inr ⟨last, ?_, .inr ⟨hjoined.known, now, hserved, ?_⟩⟩
      · exact ⟨hlast.started, hlast.le, hlast.checked, hlast.due, hlast.setting⟩
      · rw [times_append]
        exact hcovered.send (hb'.in_gap hslack hb htb)

theorem Sound.dispatch (h : x.Sound slack delay now b) (hb : b.Sound now) (hslack : 0 ≤ slack)
    (htb : BrokerOnTime slack now b) (hplace : b.place = .checking)
    (hx : x.dispatch now = some y) : y.Sound slack delay now b := by
  unfold Worker.dispatch at hx
  split_ifs at hx with hservice
  obtain rfl := Option.some.inj hx
  refine h.hears hb hslack htb ⟨?_, by simp [hplace]⟩ (by simp) fun hnone => ?_
  · have hdue := hb.due
    linarith
  · simp [hnone] at hservice

theorem Sound.beat (h : x.Sound slack delay now b) (hb : b.Sound now) (hslack : 0 ≤ slack)
    (htb : BrokerOnTime slack now b) (hdue : b.heartbeatAt < now) :
    (x.beat now).Sound slack delay now { b with place := .setting, checkedAt := now } := by
  have hserved : Served slack now { b with place := .setting, checkedAt := now } := by
    refine ⟨?_, fun _ => le_refl now⟩
    show b.heartbeatAt ≤ now + heartbeatInterval + slack
    unfold heartbeatInterval
    linarith
  unfold Worker.beat
  split_ifs with hknown
  · exact h.hears hb hslack htb hserved (by simp) fun hnone => by simp [hnone] at hknown
  · -- a worker that is not known has heard nothing of the broker
    refine ⟨h.reconnects, h.up, h.down, ?_⟩
    rcases h.link with hnone | ⟨last, hlast, hjoining | hjoined⟩
    · exact .inl hnone
    · exact .inr ⟨last, hlast, .inl hjoining⟩
    · obtain ⟨expiry, hk, -⟩ := hjoined.known
      exact absurd (by simp [hk]) hknown

end Worker

namespace Broker

theorem Sound.tick {later : Int} (h : b.Sound now) (hlater : now ≤ later) : b.Sound later :=
  ⟨h.le.trans hlater, h.checked, h.due.trans (Int.add_le_add_right hlater _)⟩

theorem Sound.hear (h : b.Sound now) (hplace : b.place = .polling) :
    ({ b with place := .checking } : Broker).Sound now :=
  ⟨h.le, fun _ => h.checked (by simp [hplace]), h.due⟩

end Broker

variable {ω : Type} {s t : System ω} {w : ω} {e : Event ω}

theorem sound_initial {name : ω → Name} (hname : ∀ w, (name w).Accepted) (slack delay now : Int) :
    Sound slack delay (System.initial name now) := by
  refine ⟨⟨le_refl now, fun _ => ?_, le_refl _⟩, hname, fun w => ?_⟩
  · show now ≤ now + heartbeatInterval
    unfold heartbeatInterval
    linarith
  · exact ⟨rfl, by simp [System.initial], by simp [System.initial], .inl ⟨rfl, rfl, rfl, rfl⟩⟩

theorem Sound.alive (h : Sound slack delay s) (hslack : 0 ≤ slack) (hdelay : 0 ≤ delay)
    (hbound : slack + delay ≤ 3 * heartbeatInterval) (ht : OnTime slack delay s) (w : ω) :
    Alive s.now (s.worker w) :=
  (h.worker w).alive h.broker hslack hdelay hbound ht.broker (ht.worker w)

theorem Sound.hear (h : Sound slack delay s) (hplace : s.broker.place = .polling) :
    Sound slack delay { s with broker := { s.broker with place := .checking } } :=
  ⟨h.broker.hear hplace, h.name, fun v => (h.worker v).broker fun _ hserved => ⟨hserved.due, by simp⟩⟩

variable [DecidableEq ω]

theorem Sound.setWorker {x : Worker} (h : Sound slack delay s)
    (hx : x.Sound slack delay s.now s.broker) : Sound slack delay (s.setWorker w x) := by
  refine ⟨h.broker, h.name, fun v => ?_⟩
  show Worker.Sound slack delay s.now s.broker (Function.update s.worker w x v)
  rcases eq_or_ne v w with rfl | hne
  · rwa [Function.update_self]
  · rw [Function.update_of_ne hne]
    exact h.worker v

theorem Sound.moves {f : Worker → Option Worker} (h : Sound slack delay s)
    (hmove : ∀ y, f (s.worker w) = some y → y.Sound slack delay s.now s.broker)
    (hs : (f (s.worker w)).map (s.setWorker w) = some t) : Sound slack delay t := by
  obtain ⟨y, hy, rfl⟩ := Option.map_eq_some_iff.mp hs
  exact h.setWorker (hmove y hy)

theorem Sound.beat (h : Sound slack delay s) (hslack : 0 ≤ slack) (ht : OnTime slack delay s)
    (hs : s.step .beat = some t) : Sound slack delay t := by
  simp only [System.step] at hs
  split_ifs at hs with hplace hdue
  · obtain rfl := Option.some.inj hs
    refine ⟨⟨le_refl s.now, by simp, h.broker.due⟩, h.name, fun v => ?_⟩
    exact (h.worker v).beat h.broker hslack ht.broker hdue
  · obtain rfl := Option.some.inj hs
    refine ⟨⟨le_refl s.now, fun _ => not_lt.mp hdue, h.broker.due⟩, h.name, fun v => ?_⟩
    exact (h.worker v).broker fun last hserved => ⟨hserved.due, by simp⟩

theorem Sound.set (h : Sound slack delay s) (ht : OnTime slack delay s)
    (hs : s.step .set = some t) : Sound slack delay t := by
  simp only [System.step] at hs
  split_ifs at hs with hplace
  obtain rfl := Option.some.inj hs
  have hset := ht.broker.setting hplace
  refine ⟨⟨h.broker.le, fun _ => ?_, le_refl _⟩, h.name, fun v => ?_⟩
  · have hle := h.broker.le
    show s.broker.checkedAt ≤ s.now + heartbeatInterval
    unfold heartbeatInterval
    linarith
  · apply (h.worker v).broker
    intro last hserved
    have hsent := hserved.setting hplace
    refine ⟨?_, by simp⟩
    show s.now + heartbeatInterval ≤ last + heartbeatInterval + slack
    linarith

theorem Sound.step (h : Sound slack delay s) (hslack : 0 ≤ slack) (hdelay : 0 ≤ delay)
    (hbound : slack + delay ≤ 3 * heartbeatInterval) (ht : OnTime slack delay s)
    (hs : s.step e = some t) : Sound slack delay t := by
  cases e with
  | tick later =>
    simp only [System.step] at hs
    split_ifs at hs with hlater
    obtain rfl := Option.some.inj hs
    exact ⟨h.broker.tick hlater, h.name, fun v => (h.worker v).tick hlater⟩
  | process w =>
    simp only [System.step] at hs
    split_ifs at hs with hplace
    obtain ⟨y, hy, rfl⟩ := Option.map_eq_some_iff.mp hs
    have hprocess := (h.worker w).process h.broker hslack hplace (ht.worker w) (h.name w) hy
    exact (h.setWorker hprocess).hear hplace
  | hear =>
    simp only [System.step] at hs
    split_ifs at hs with hplace
    obtain rfl := Option.some.inj hs
    exact h.hear hplace
  | dispatch w =>
    simp only [System.step] at hs
    split_ifs at hs with hplace
    exact h.moves (f := fun x => x.dispatch s.now)
      (fun y => (h.worker w).dispatch h.broker hslack ht.broker hplace) hs
  | beat => exact h.beat hslack ht hs
  | set => exact h.set ht hs
  | start w => exact h.moves (f := fun x => x.start s.now) (fun y => (h.worker w).start) hs
  | receive w =>
    exact h.moves (f := fun x => x.receive s.now) (fun y => (h.worker w).receive hdelay) hs
  | forward w =>
    exact h.moves (f := fun x => x.forward s.now)
      (fun y => (h.worker w).forward hslack (ht.worker w)) hs
  | idle w =>
    exact h.moves (f := fun x => x.idle s.now)
      (fun y => (h.worker w).idle (h.alive hslack hdelay hbound ht w)) hs
  | check w =>
    exact h.moves (f := fun x => x.check s.now)
      (fun y => (h.worker w).check hslack (ht.worker w)) hs
  | workerSet w =>
    exact h.moves (f := fun x => x.set s.now) (fun y => (h.worker w).set (ht.worker w)) hs

namespace System

/-- However many workers there are that the broker accepts: as long as the loops and the messages
together are no more than three intervals late, no worker breaks off and the broker gives up none
of them. -/
theorem stays_alive {name : ω → Name} (hname : ∀ w, (name w).Accepted) (hslack : 0 ≤ slack)
    (hdelay : 0 ≤ delay) (hbound : slack + delay ≤ 3 * heartbeatInterval) (now : Int)
    (es : List (Event ω)) (hrun : Run.Always step (OnTime slack delay) (initial name now) es) :
    Run.Always step (fun s => ∀ w, Alive s.now (s.worker w)) (initial name now) es := by
  have hprefix := (Run.always_iff_prefixes _ es).mp hrun
  apply (Run.always_iff_prefixes _ es).mpr
  intro pre hpre t ht
  have hontime : Run.Always step (OnTime slack delay) (initial name now) pre :=
    (Run.always_iff_prefixes _ pre).mpr fun p hp => hprefix p (hp.trans hpre)
  have hsound : Sound slack delay t ∧ OnTime slack delay t := by
    apply Run.exec_within (I := fun s => Sound slack delay s ∧ OnTime slack delay s)
      _ ⟨sound_initial hname slack delay now, hontime.start⟩ hontime ht
    intro s e u hs hstep hu
    exact ⟨hs.1.step hslack hdelay hbound hs.2 hstep, hu⟩
  exact hsound.1.alive hslack hdelay hbound hsound.2

def names (w : Bool) : Name where
  identity := if w then Router.ascii ['w', '1'] else Router.ascii ['w', '2']
  service := Router.ascii ['s']

def twoWorkers : List (Event Bool) :=
  [.start true, .workerSet true, .start false, .workerSet false, .process true, .dispatch true,
    .beat, .process false, .beat, .tick 20, .receive true, .check true, .tick 2500,
    .forward true, .check true, .idle false, .check false, .tick 2550, .process true, .beat,
    .set, .tick 2590, .receive true, .check true, .workerSet true, .receive false, .check false,
    .workerSet false]

theorem stays_alive_two : (Run.exec step (initial names 0) twoWorkers).isSome ∧
    Run.Always step (fun s => ∀ w, Alive s.now (s.worker w)) (initial names 0) twoWorkers := by
  have hname : ∀ w, (names w).Accepted := by decide
  have hslack : (0 : Int) ≤ 100 := by decide
  have hdelay : (0 : Int) ≤ 50 := by decide
  exact ⟨by decide, stays_alive hname hslack hdelay (by decide) 0 twoWorkers (by decide)⟩

end System

end IceBridge.Workers.Timed
