import IceBridge.Router.Watched

/-! What becomes of a worker that has sent DISCONNECT. It leaves the list of the service it is
attached to, but stays attached, and a REPLY or HEARTBEAT of it that arrives later puts it
back. -/

namespace IceBridge.Router

def Gone (w : Frame) (history : List BrokerEvent) : Prop :=
  Window.Open (BrokerEvent.IsFrom w [mdpwDisconnect]) (BrokerEvent.IsFrom w [mdpwReady]) history

def Watched.LeavesAlone (s : Watched) : Prop :=
  ∀ w, Window.Never (BrokerEvent.IsFrom w [mdpwDisconnect]) (BrokerEvent.IsFrom w [mdpwReady])
    (BrokerEvent.IsRequestTo w) s.history

/-- A worker that has left is not put back by a late message, and one that leaves waits for the
service it is attached to only. -/
structure Watched.StaysAway (s : Watched) (r : Received) : Prop where
  late : ∀ w, Gone w s.history → s.broker.link w ≠ none →
    commandOf r.msg ≠ some (w, mdpwReply) ∧ commandOf r.msg ≠ some (w, mdpwHeartbeat)
  leaving : ∀ w m srv, commandOf r.msg = some (w, mdpwDisconnect) →
    s.broker.services m = some srv → w ∈ srv.waiting → s.broker.link w = some srv.ptr

theorem BrokerEvent.isFrom_received {w c : Frame} {msg : Zmsg} :
    (BrokerEvent.received msg).IsFrom w [c] ↔ commandOf msg = some (w, c) := by
  simp [BrokerEvent.IsFrom]

theorem gone_append {w : Frame} {h : List BrokerEvent} {msg : Zmsg} {actions : List Action} :
    Gone w (h ++ .received msg :: actions.map .did) ↔
      Gone w h ∧ commandOf msg ≠ some (w, mdpwReady) ∨ commandOf msg = some (w, mdpwDisconnect) := by
  have hdid : ∀ c, ∀ e ∈ actions.map BrokerEvent.did, ¬ e.IsFrom w [c] := by
    intro c e he
    obtain ⟨a, -, rfl⟩ := List.mem_map.mp he
    exact id
  have hnot : ¬ Gone w (actions.map .did) := by
    rintro ⟨pre, a, mid, heq, ha, -⟩
    exact hdid _ a (by simp [heq]) ha
  rw [Gone, Window.open_append, Window.open_cons, BrokerEvent.isFrom_received]
  constructor
  · rintro (⟨hopen, hno⟩ | ⟨hdis, -⟩ | hopen)
    · exact Or.inl ⟨hopen, fun hready => hno _ List.mem_cons_self (BrokerEvent.isFrom_received.mpr hready)⟩
    · exact Or.inr hdis
    · exact absurd hopen hnot
  · rintro (⟨hopen, hready⟩ | hdis)
    · refine Or.inl ⟨hopen, fun e he hclose => ?_⟩
      obtain rfl | he := List.mem_cons.mp he
      · exact hready (BrokerEvent.isFrom_received.mp hclose)
      · exact hdid _ e he hclose
    · exact Or.inr (Or.inl ⟨hdis, hdid _⟩)

namespace Broker
variable {b b' : Broker} {r : Received} {w : Frame}

theorem Accepted.of_disconnect {call : Option DispatchCall} (hacc : Accepted b r b' call)
    (hc : commandOf r.msg = some (w, mdpwDisconnect)) :
    call = none ∧ (b.workerRequire w).workerDelete w true = .ok b' := by
  obtain ⟨s, e, hd, part, rest, hmsg, hh, rfl, hpart⟩ := commandOf_eq_some hc
  cases hacc with
  | client hmsg' hh' hstep =>
    obtain ⟨-, -, rfl, -⟩ := by simpa using hmsg.symm.trans hmsg'
    exact absurd (hh.symm.trans hh') (by decide)
  | invalid hmsg' hc' hw =>
    obtain ⟨-, -, rfl, -⟩ := by simpa using hmsg.symm.trans hmsg'
    exact absurd hh hw
  | worker hmsg' hh' hstep =>
    obtain ⟨rfl, -, -, rfl⟩ := by simpa using hmsg.symm.trans hmsg'
    have hcmd : (part :: rest).head?.map cstr = some mdpwDisconnect := congrArg some hpart
    have hne : ∀ command, command ≠ mdpwDisconnect →
        (part :: rest).head?.map cstr ≠ some command := fun command hne h =>
      hne (Option.some.inj (h.symm.trans hcmd))
    cases hstep with
    | reservedReady hc' hr h => exact absurd hc' (hne _ (by decide))
    | ready hc' hr h => exact absurd hc' (hne _ (by decide))
    | reply hc' h => exact absurd hc' (hne _ (by decide))
    | heartbeat hc' h => exact absurd hc' (hne _ (by decide))
    | disconnect hc' h => exact ⟨rfl, h⟩
    | invalid hc' => exact absurd hcmd (hc' _ (by decide))

theorem not_waits_workerDelete {disconnect : Bool} (hw : b.WellFormed)
    (honly : ∀ m srv, b.services m = some srv → w ∈ srv.waiting → b.link w = some srv.ptr)
    (h : b.workerDelete w disconnect = .ok b') : ¬ b'.Waits w := by
  rintro ⟨m, srv', hm, hv⟩
  obtain ⟨hlink, hs⟩ | ⟨p, srv, hlink, hsrv, hs⟩ := workerDelete_eq_ok h
  · rw [hs] at hm
    exact absurd (hlink.symm.trans (honly m srv' hm hv)) (by simp)
  · rw [hs] at hm
    obtain ⟨hp, -⟩ := deref_eq_ok.mp hsrv
    simp only [setService, Function.update_apply] at hm
    split_ifs at hm with hname
    · obtain rfl := Option.some.inj hm
      simp [Service.deleteWorker] at hv
    · -- the worker would be attached to two services
      have hptr := Option.some.inj (hlink.symm.trans (honly m srv' hm hv))
      apply hname
      calc m = srv'.name := (hw.keyed m srv' hm).symm
        _ = p.name := (congrArg ServicePtr.name hptr).symm
        _ = srv.name := (hw.keyed _ _ hp).symm

end Broker

namespace Watched
variable {s t : Watched} {r : Received}

def Departed (s : Watched) : Prop := ∀ w, Gone w s.history → ¬ s.broker.Waits w

theorem StaysAway.not_rejoins (hc : s.StaysAway r) {w : Frame} (hgone : Gone w s.history)
    (hready : commandOf r.msg ≠ some (w, mdpwReady)) : ¬ s.broker.Rejoins r w := by
  rintro (h | ⟨hlink, h | h⟩)
  · exact hready h
  · exact (hc.late w hgone hlink).1 h
  · exact (hc.late w hgone hlink).2 h

theorem departed_step (hw : s.broker.WellFormed) (hs : s.Departed) (hc : s.StaysAway r)
    (h : s.step r = some t) : t.Departed := by
  obtain ⟨hb, others, sent, -, hhist, -⟩ := step_eq_some h
  intro w hgone hwaits
  have hactions : t.history = s.history ++
      .received r.msg :: (others ++ sent.map Action.request).map .did := by
    simp [hhist, Function.comp_def]
  rw [hactions, gone_append] at hgone
  obtain ⟨hgone, hready⟩ | hdis := hgone
  · obtain hbefore | hrejoins := hwaits.of_step hb
    · exact hs w hgone hbefore
    · exact hc.not_rejoins hgone hready hrejoins
  · obtain ⟨b₁, call, hacc, hd⟩ := Broker.step_eq_some hb
    obtain ⟨rfl, hdel⟩ := hacc.of_disconnect hdis
    obtain rfl := Except.ok.inj hd
    refine Broker.not_waits_workerDelete ((Broker.keeps_workerRequire _ w).wf hw) ?_ hdel hwaits
    intro m srv hm hv
    rw [Broker.link_workerRequire]
    exact hc.leaving w m srv hdis (Broker.services_workerRequire s.broker w ▸ hm) hv

theorem leavesAlone_step (hs : s.Departed) (hl : s.LeavesAlone) (hc : s.StaysAway r)
    (h : s.step r = some t) : t.LeavesAlone := by
  obtain ⟨-, others, sent, hothers, hhist, hsends⟩ := step_eq_some h
  intro w
  have hbefore := Window.never_append_of_forall (hl w) (not_isRequestTo_of_others (r := r) hothers w)
  rw [hhist]
  refine Window.never_append hbefore fun pre c post heq hbad hopen => ?_
  obtain ⟨ds₁, ds₂, rfl, rfl, hds₂⟩ := List.map_eq_append_iff.mp heq
  obtain ⟨d, ds₃, rfl, rfl, rfl⟩ := List.map_eq_cons_iff.mp hds₂
  obtain rfl : d.worker = w := hbad
  obtain hnil | ⟨⟨hsend⟩⟩ := hsends
  · simp at hnil
  have hactions : s.history ++ .received r.msg :: others.map .did ++
      ds₁.map (fun d => BrokerEvent.did (.request d)) =
      s.history ++ .received r.msg :: (others ++ ds₁.map Action.request).map .did := by
    simp [Function.comp_def]
  have hgone : Gone d.worker _ := hopen
  rw [hactions, gone_append] at hgone
  obtain ⟨hgone, hready⟩ | hdis := hgone
  · obtain hwaits | hrejoins := hsend.waits (d := d) (by simp)
    · exact hs d.worker hgone hwaits
    · exact hc.not_rejoins hgone hready hrejoins
  · have hacc := Broker.accepted_of_accept hsend.accept_eq
    exact absurd (hacc.of_disconnect hdis).1 (Option.some_ne_none _)

/-- In every run from the empty broker in which workers that have left stay away, none of them
gets a REQUEST before its next READY. -/
theorem leavesAlone_run (rs : List Received) (hrun : Run.EachStep step StaysAway {} rs) :
    Run.Always step LeavesAlone {} rs := by
  have hstep : ∀ (s : Watched) r t, s.broker.WellFormed ∧ s.Departed ∧ s.LeavesAlone →
      s.StaysAway r → s.step r = some t → t.broker.WellFormed ∧ t.Departed ∧ t.LeavesAlone := by
    rintro s r t ⟨hw, hs, hl⟩ hc h
    exact ⟨Broker.wellFormed_step hw (step_eq_some h).1, departed_step hw hs hc h,
      leavesAlone_step hs hl hc h⟩
  have hinit : ({} : Watched).broker.WellFormed ∧ ({} : Watched).Departed ∧
      ({} : Watched).LeavesAlone :=
    ⟨Broker.wellFormed_initial, fun w _ => nofun, fun w => Window.never_nil⟩
  exact (Run.always_of_eachStep hstep hinit hrun).mono fun _ hs => hs.2.2

theorem leavesAlone_left : Run.Always step LeavesAlone {}
    [⟨[[119, 49], [], mdpwWorker, mdpwReady, [97], []], fun _ => 0⟩,
     ⟨[[119, 49], [], mdpwWorker, mdpwDisconnect], fun _ => 0⟩,
     ⟨[[103], [], mdpcClient, [97], [65]], fun _ => 0⟩] := by
  have hother : ∀ {msg c} (w : Frame) {c' : Frame}, commandOf msg = some c → c.2 ≠ c' →
      commandOf msg ≠ some (w, c') := by
    rintro msg c w c' hc hne h
    exact hne (congrArg Prod.snd (Option.some.inj (hc.symm.trans h)))
  refine leavesAlone_run _ fun s₁ h₁ => ⟨⟨fun w _ _ => ⟨?_, ?_⟩, fun w m srv hdis => ?_⟩, fun s₂ h₂ => ?_⟩
  · exact hother w rfl (by decide)
  · exact hother w rfl (by decide)
  · exact absurd hdis (hother w rfl (by decide))
  obtain rfl := Option.some.inj h₁
  refine ⟨⟨fun w _ _ => ⟨?_, ?_⟩, fun w m srv hdis hm hv => ?_⟩, fun s₃ h₃ => ⟨⟨?_, ?_⟩, trivial⟩⟩
  · exact hother w rfl (by decide)
  · exact hother w rfl (by decide)
  · obtain rfl : [119, 49] = w := congrArg Prod.fst (Option.some.inj hdis)
    by_cases hmn : m = [97]
    · obtain rfl := hmn
      obtain rfl := Option.some.inj hm
      rfl
    · have hnone : (Function.update (Function.update (Function.update
          (fun _ => none : Frame → Option Service) [97] _) [97] _) [97] _) m = some srv := hm
      simp [Function.update_of_ne hmn] at hnone
  · exact fun w _ _ => ⟨nofun, nofun⟩
  · exact fun w m srv => nofun

/-- A HEARTBEAT that the worker sent before its DISCONNECT was processed brings it back. -/
theorem not_leavesAlone_late_heartbeat : ¬ Run.Always step LeavesAlone {}
    [⟨[[119, 49], [], mdpwWorker, mdpwReady, [97], []], fun _ => 0⟩,
     ⟨[[119, 49], [], mdpwWorker, mdpwDisconnect], fun _ => 0⟩,
     ⟨[[119, 49], [], mdpwWorker, mdpwHeartbeat], fun _ => 0⟩,
     ⟨[[103], [], mdpcClient, [97], [65]], fun _ => 0⟩] := by
  rintro ⟨-, h₁⟩
  obtain ⟨-, h₂⟩ := h₁ _ rfl
  obtain ⟨-, h₃⟩ := h₂ _ rfl
  obtain ⟨-, h₄⟩ := h₃ _ rfl
  have hlast := h₄ _ rfl
  obtain ⟨e, he, hclose⟩ :=
    hlast [119, 49] [_] (.received [[119, 49], [], mdpwWorker, mdpwDisconnect]) [_, _, _, _] _ []
      rfl ⟨mdpwDisconnect, List.mem_cons_self, rfl⟩ rfl
  simp only [List.mem_cons, List.not_mem_nil, or_false] at he
  obtain rfl | rfl | rfl | rfl := he
  · exact hclose
  · exact absurd (BrokerEvent.isFrom_received.mp hclose) (by decide)
  · exact absurd (BrokerEvent.isFrom_received.mp hclose) (by decide)
  · exact hclose

end Watched

end IceBridge.Router
