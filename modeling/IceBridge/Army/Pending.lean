import IceBridge.Army.Expiry

/-! No camp with soldiers to train is forgotten: whoever stops its timer starts it again, if
there is a soldier left. Here handlers that come too late do no harm. -/

namespace IceBridge.Army
open Text

namespace Barracks
variable {sm : SmallMap} {b t : Barracks} {c d : Text} {now : Int} {q : Camp} {e : SoldierInfo}

def Awaited (b : Barracks) (c : Text) : Prop :=
  ∃ w ∈ b.waits, w.whichCamp = c ∧ w.status ≠ .cancelled ∧ w.expiry ≠ none

theorem awaited_iff : b.Awaited c ↔ ∃ w ∈ b.live c, w.expiry ≠ none := by
  refine exists_congr fun w => ?_
  rw [mem_live, and_assoc, and_assoc]

/-- If there is somebody to train, the camp is waited for, and its timer has been set before. -/
def Armed (b : Barracks) (c : Text) : Prop :=
  ∀ q, b.campQueue c = some q → q.armysQueue ≠ [] → q.expiresAt ≠ none ∧ b.Awaited c

theorem Armed.of_same (h : b.Armed c) (hsame : SameCamp c b t) : t.Armed c := by
  intro q hq hne
  rw [awaited_iff, hsame.live, ← awaited_iff]
  exact h q (hsame.camp.symm.trans hq) hne

theorem Armed.setCamp {q' : Camp} (h : b.Armed c) (hq : b.campQueue c = some q)
    (hne : q.armysQueue = [] → q'.armysQueue = []) (hexpires : q'.expiresAt = q.expiresAt) :
    (b.setCamp c q').Armed c := by
  intro q₁ hq₁ hne₁
  rw [setCamp_campQueue, if_pos rfl] at hq₁
  obtain rfl := Option.some.inj hq₁
  rw [hexpires]
  exact h q hq fun hnil => hne₁ (hne hnil)

theorem Armed.setCamp_setNum (h : b.Armed c) (hq : b.campQueue c = some q) (i : ℕ) (num : Int) :
    (b.setCamp c (q.setNum i num)).Armed c := by
  refine h.setCamp hq (fun hnil => ?_) rfl
  show q.armysQueue.modify i _ = []
  rw [hnil, List.modify_nil]

theorem Armed.setCamp_erase (h : b.Armed c) (hq : b.campQueue c = some q) (i : ℕ) :
    (b.setCamp c (q.erase i)).Armed c := by
  refine h.setCamp hq (fun hnil => ?_) rfl
  show q.armysQueue.eraseIdx i = []
  rw [hnil, List.eraseIdx_nil]

theorem armed_registerTime {beginBuildTime : Option Int} (hq : b.campQueue c = some q)
    (htime : q.armysQueue ≠ [] → beginBuildTime.or q.expiresAt ≠ none) (secs : Int) :
    (b.registerTime sm c beginBuildTime secs).Armed c := by
  intro q' hq' hne'
  rcases hx : q.armysQueue with _ | ⟨x, rest⟩
  · rw [registerTime_of_nil hq hx] at hq'
    obtain rfl := Option.some.inj (hq.symm.trans hq')
    exact absurd hx hne'
  · obtain ⟨start, hstart⟩ := Option.ne_none_iff_exists'.mp (htime (hx ▸ List.cons_ne_nil x rest))
    rw [registerTime_of_cons hq hx hstart] at hq' ⊢
    obtain rfl := Option.some.inj ((Function.update_self c _ _).symm.trans hq')
    refine ⟨Option.some_ne_none _, _, List.mem_append_right _ List.mem_cons_self, rfl, ?_, ?_⟩
    · exact fun h => WaitStatus.noConfusion h
    · exact Option.some_ne_none _

theorem Awaited.replaced {pre post : List Wait} {w : Wait} (mid : List Wait) (h : b.Awaited c)
    (hb : b.waits = pre ++ w :: post)
    (hmid : w.whichCamp = c → w.status ≠ .cancelled → w.expiry ≠ none →
      ∃ v ∈ mid, v.whichCamp = c ∧ v.status ≠ .cancelled ∧ v.expiry ≠ none) :
    ({ b with waits := pre ++ (mid ++ post) } : Barracks).Awaited c := by
  obtain ⟨v, hv, hcamp, hstatus, hexpiry⟩ := h
  rw [hb] at hv
  rcases List.mem_append.mp hv with hv | hv
  · exact ⟨v, List.mem_append_left _ hv, hcamp, hstatus, hexpiry⟩
  · rcases List.mem_cons.mp hv with rfl | hv
    · obtain ⟨v', hv', hwait⟩ := hmid hcamp hstatus hexpiry
      exact ⟨v', List.mem_append_right _ (List.mem_append_left _ hv'), hwait⟩
    · have hmem := List.mem_append_right pre (List.mem_append_right mid hv)
      exact ⟨v, hmem, hcamp, hstatus, hexpiry⟩

theorem Armed.replaced {pre post : List Wait} {w : Wait} (mid : List Wait) (h : b.Armed c)
    (hb : b.waits = pre ++ w :: post)
    (hmid : w.whichCamp = c → w.status ≠ .cancelled → w.expiry ≠ none →
      ∃ v ∈ mid, v.whichCamp = c ∧ v.status ≠ .cancelled ∧ v.expiry ≠ none) :
    ({ b with waits := pre ++ (mid ++ post) } : Barracks).Armed c := by
  intro q hq hne
  obtain ⟨hexpires, hawaited⟩ := h q hq hne
  exact ⟨hexpires, hawaited.replaced mid hb hmid⟩

/-! ## The requests of the player -/

theorem Armed.createCamp (h : b.Armed d) : (b.createCamp c).Armed d := by
  cases hq : b.campQueue d with
  | some q =>
    refine h.of_same (sameCamp_createCamp ?_)
    rw [hq]
    exact Option.some_ne_none q
  | none =>
    -- what has just been created is empty
    intro q' hq' hne
    refine absurd ?_ hne
    have hempty : (b.createCamp c).queue d = [] := by
      rw [createCamp_queue, queue, hq]
      rfl
    exact (queue_of_some hq').symm.trans hempty

theorem armed_of_others (h : ∀ d, d ≠ c → b.Armed d) (hcamp : t.Armed c)
    (hothers : ∀ d, d ≠ c → SameCamp d b t) (d : Text) : t.Armed d := by
  by_cases hd : d = c
  · rw [hd]
    exact hcamp
  · exact (h d hd).of_same (hothers d hd)

theorem armed_enqueue (h : ∀ d, b.Armed d) : ∀ d, (b.enqueue sm now e c).Armed d := by
  unfold enqueue
  cases hq : b.campQueue c with
  | none => exact h
  | some q =>
    dsimp only
    cases q.indexOf e.soldier with
    | some i =>
      apply armed_of_others fun d _ => h d
      · exact (h c).setCamp_setNum hq _ _
      · exact fun d hd => sameCamp_setCamp hd _
    | none =>
      dsimp only
      split_ifs with hnil
      · apply armed_of_others fun d _ => h d
        · apply armed_registerTime (Function.update_self c _ _)
          exact fun _ => Option.some_ne_none now
        · intro d hd
          exact (sameCamp_setCamp hd _).trans (sameCamp_registerTime hd _ _)
      · apply armed_of_others fun d _ => h d
        · exact (h c).setCamp hq (fun hempty => absurd hempty hnil) rfl
        · exact fun d hd => sameCamp_setCamp hd _

theorem armed_addSoldiers (h : ∀ d, b.Armed d) (ht : b.addSoldiers sm now e c = some t) :
    ∀ d, t.Armed d := by
  obtain ⟨⟨paid, u⟩, hpay, rfl⟩ := Option.map_eq_some_iff.mp ht
  have hu : ∀ d, u.Armed d := fun d => (h d).createCamp.of_same (sameCamp_payFor hpay)
  dsimp only
  split_ifs
  · exact armed_enqueue hu
  · exact hu

theorem armed_dequeue (h : ∀ d, b.Armed d) (hq : b.campQueue c = some q)
    (ht : b.dequeue sm now e c q = some t) : ∀ d, t.Armed d := by
  unfold dequeue at ht
  rcases hx : q.armysQueue with _ | ⟨x, rest⟩
  · rw [hx] at ht
    exact absurd ht.symm (Option.some_ne_none t)
  rw [hx] at ht
  dsimp only at ht
  split_ifs at ht
  · -- the front is taken away, and the timer is started for the next one
    obtain rfl := Option.some.inj ht
    apply armed_of_others fun d _ => h d
    · apply armed_registerTime (Function.update_self c _ _)
      exact fun _ => Option.some_ne_none now
    · intro d hd
      exact ((sameCamp_cancelTimer hd).trans (sameCamp_setCamp hd _)).trans
        (sameCamp_registerTime hd _ _)
  · obtain rfl := Option.some.inj ht
    apply armed_of_others fun d _ => h d
    · exact (h c).setCamp_setNum hq _ _
    · exact fun d hd => sameCamp_setCamp hd _
  · obtain ⟨i, -, rfl⟩ := Option.map_eq_some_iff.mp ht
    apply armed_of_others fun d _ => h d
    · split_ifs
      · exact (h c).setCamp_erase hq i
      · exact (h c).setCamp_setNum hq i _
    · exact fun d hd => sameCamp_setCamp hd _

theorem armed_delSoliders (h : ∀ d, b.Armed d) (ht : b.delSoliders sm now e c = some t)
    (d : Text) : t.Armed d := by
  unfold delSoliders at ht
  split at ht
  · next p q hp hq =>
    obtain ⟨refund, -, ht⟩ := Option.bind_eq_some_iff.mp ht
    cases hdeq : b.dequeue sm now e c q with
    | none =>
      rw [hdeq] at ht
      exact Option.some.inj ht ▸ h d
    | some u =>
      rw [hdeq] at ht
      obtain rfl := Option.some.inj ht
      have hu := armed_dequeue h hq hdeq d
      exact hu.of_same ⟨rfl, rfl⟩
  · exact Option.some.inj ht ▸ h d

theorem armed_completeAtOnce (h : ∀ d, b.Armed d) :
    ∀ d, (b.completeAtOnce sm now c).Armed d := by
  unfold completeAtOnce
  cases hq : b.campQueue c with
  | none => exact h
  | some q =>
    dsimp only
    split
    · exact fun d => (h d).of_same ⟨rfl, rfl⟩
    · generalize hu : ({ b with asset := _, army := _ } : Barracks) = u
      apply armed_of_others fun d _ => h d
      · -- nobody is left to be waited for
        intro q' hq' hne
        rw [setCamp_campQueue, if_pos rfl] at hq'
        obtain rfl := Option.some.inj hq'
        exact absurd rfl hne
      · intro d hd
        have hsame : SameCamp d b u := hu ▸ ⟨rfl, rfl⟩
        exact (hsame.trans (sameCamp_cancelTimer hd)).trans (sameCamp_setCamp hd _)

/-! ## The timers -/

theorem armed_timeIsUp (h : ∀ d, d ≠ c → b.Armed d)
    (htime : ∀ q, b.campQueue c = some q → q.armysQueue ≠ [] → q.expiresAt ≠ none) :
    ∀ d, (b.timeIsUp sm c).Armed d := by
  have hnothing : b.queue c = [] → ∀ d, b.Armed d := by
    intro hqueue
    apply armed_of_others h
    · exact fun q hq hne => absurd ((queue_of_some hq).symm.trans hqueue) hne
    · exact fun d _ => ⟨rfl, rfl⟩
  unfold timeIsUp
  cases hq : b.campQueue c with
  | none =>
    apply hnothing
    rw [queue, hq]
    rfl
  | some q =>
    dsimp only
    rcases hx : q.armysQueue with _ | ⟨x, rest⟩
    · exact hnothing ((queue_of_some hq).trans hx)
    have hexpires : q.expiresAt ≠ none := htime q hq (hx ▸ List.cons_ne_nil x rest)
    have harmy : ∀ army d, SameCamp d b { b with army } := fun army d => ⟨rfl, rfl⟩
    dsimp only
    rcases b.army.insertToBuildedArmyQueue sm.arms x.soldierType x.soldierLevel with ⟨_ | _, army⟩
    · apply armed_of_others h
      · apply armed_registerTime (Function.update_self _ _ _)
        exact fun _ => hexpires
      · intro d hd
        exact ((harmy army d).trans (sameCamp_setCamp hd _)).trans (sameCamp_registerTime hd _ _)
    · dsimp only
      have hexpires' : (if x.soldierNum = 1 then q.erase 0
          else q.setNum 0 (short (x.soldierNum - 1))).expiresAt ≠ none := by
        split_ifs <;> exact hexpires
      generalize (if x.soldierNum = 1 then q.erase 0
        else q.setNum 0 (short (x.soldierNum - 1))) = q' at hexpires' ⊢
      have hcamp :
          (({ b with army } : Barracks).setCamp c { q' with isBlock := false }).campQueue c =
            some { q' with isBlock := false } := Function.update_self _ _ _
      split_ifs with hnil
      · apply armed_of_others h
        · intro q₁ hq₁ hne
          obtain rfl := Option.some.inj (hcamp.symm.trans hq₁)
          exact absurd hnil hne
        · exact fun d hd => (harmy army d).trans (sameCamp_setCamp hd _)
      · apply armed_of_others h
        · apply armed_registerTime hcamp
          exact fun _ => hexpires'
        · intro d hd
          exact ((harmy army d).trans (sameCamp_setCamp hd _)).trans (sameCamp_registerTime hd _ _)

end Barracks

namespace Worker
variable {sm : SmallMap} {uid : UInt32} {toIsoString : Option Int → Text}
  {fromIsoString : Text → Int} {s t : Worker}
open Barracks

theorem armed_expire {i : ℕ} (h : ∀ c, s.barracks.Armed c) (ht : s.expire i = some t) (c : Text) :
    t.barracks.Armed c := by
  obtain ⟨w, hw, ht⟩ := Option.bind_eq_some_iff.mp ht
  split_ifs at ht
  obtain rfl := Option.some.inj ht
  obtain ⟨pre, post, hsplit, -, hset⟩ := split_at hw
  rw [hset]
  -- the wait that expires is one of those that are handled without an error
  refine (h c).replaced [{ w with status := .expired }] hsplit fun hcamp _ hexpiry => ?_
  exact ⟨_, List.mem_singleton_self _, hcamp, fun h => WaitStatus.noConfusion h, hexpiry⟩

theorem armed_handle {i : ℕ} (h : ∀ c, s.barracks.Armed c) (ht : s.handle sm i = some t)
    (c : Text) : t.barracks.Armed c := by
  obtain ⟨w, hw, ht⟩ := Option.bind_eq_some_iff.mp ht
  obtain ⟨pre, post, hsplit, herase, -⟩ := split_at hw
  rw [herase] at ht
  cases hstatus : w.status with
  | pending =>
    rw [hstatus] at ht
    exact absurd ht.symm (Option.some_ne_none t)
  | cancelled =>
    rw [hstatus] at ht
    obtain rfl := Option.some.inj ht
    exact (h c).replaced [] hsplit fun _ hlive => absurd hstatus hlive
  | expired =>
    rw [hstatus] at ht
    obtain rfl := Option.some.inj ht
    refine armed_timeIsUp (b := { s.barracks with waits := pre ++ post }) ?_ ?_ c
    · intro d hd
      exact (h d).replaced [] hsplit fun hcamp => absurd hcamp.symm hd
    · exact fun q hq hne => (h w.whichCamp q hq hne).1

theorem armed_loadCamp {b : Barracks} {stored : Text → Option Camp} {key : Text} {now : Int}
    (hb : ∀ d, b.Armed d) :
    ∀ d, (loadCamp sm toIsoString fromIsoString now stored b key).Armed d := by
  unfold loadCamp
  cases hq : stored key with
  | none => exact hb
  | some q =>
    dsimp only
    generalize afterLast '#' key = c
    split
    · exact fun d => (hb d).of_same ⟨rfl, rfl⟩
    · next tq htq =>
      have hloaded := (newTimerQueueFromRedis_loaded htq).2.1
      generalize hu : ({ b with army := _ } : Barracks) = u
      have hothers : ∀ d, d ≠ c →
          SameCamp d b ((u.cancel c).setCamp c (q.load sm.arms now tq)) := by
        intro d hd
        have hsame : SameCamp d b u := hu ▸ ⟨rfl, rfl⟩
        exact (hsame.trans (sameCamp_cancel hd)).trans (sameCamp_setCamp hd _)
      have hcamp := Function.update_self c (some (q.load sm.arms now tq)) (u.cancel c).campQueue
      rcases hloaded with ⟨hx, harmed⟩ | ⟨x, rest, hx, harmed, htimer⟩
      · rw [harmed, if_neg Bool.false_ne_true]
        apply armed_of_others (fun d _ => hb d) _ hothers
        intro q' hq' hne
        obtain rfl := Option.some.inj (hcamp.symm.trans hq')
        refine absurd ?_ hne
        rw [Camp.load, hx]
        rfl
      · rw [if_pos harmed]
        have hexpires : tq.expiresAt ≠ none := by
          rcases htimer with ⟨-, ht⟩ | ⟨-, start, -, ht⟩
          · rw [ht]
            exact Option.some_ne_none _
          · rw [ht]
            exact Option.some_ne_none _
        apply armed_of_others fun d _ => hb d
        · intro q' hq' _
          obtain rfl := Option.some.inj (hcamp.symm.trans hq')
          refine ⟨hexpires, _, List.mem_append_right _ List.mem_cons_self, rfl, ?_, hexpires⟩
          exact fun h => WaitStatus.noConfusion h
        · intro d hd
          refine (hothers d hd).trans ⟨rfl, ?_⟩
          rw [live_append]
          simp [Ne.symm hd]

theorem armed_login {keys : List Text} {b : Barracks} (h : ∀ c, b.Armed c) (c : Text) :
    (keys.foldl (loadCamp sm toIsoString fromIsoString s.now s.stored) b).Armed c := by
  induction keys generalizing b with
  | nil => exact h c
  | cons key keys ih => exact ih (armed_loadCamp h)

theorem armed_step (h : ∀ c, s.barracks.Armed c) {e : WorkerEvent}
    (ht : s.step sm uid toIsoString fromIsoString e = some t) : ∀ c, t.barracks.Armed c := by
  cases e with
  | login keys =>
    simp only [step] at ht
    split_ifs at ht
    obtain rfl := Option.some.inj ht
    exact armed_login h
  | addSoldiers type level num whichCamp =>
    obtain ⟨-, b, hb, rfl⟩ := request_of_some ht
    exact armed_addSoldiers h hb
  | delSoliders type level num whichCamp =>
    obtain ⟨-, b, hb, rfl⟩ := request_of_some ht
    exact armed_delSoliders h hb
  | completeAtOnce whichCamp =>
    obtain ⟨-, b, hb, rfl⟩ := request_of_some ht
    obtain rfl := Option.some.inj hb
    exact armed_completeAtOnce h
  | logout =>
    simp only [step] at ht
    split_ifs at ht
    obtain rfl := Option.some.inj ht
    exact fun c q hq => absurd hq.symm (Option.some_ne_none q)
  | tick secs =>
    obtain rfl := Option.some.inj ht
    exact h
  | expire i => exact armed_expire h ht
  | handle i => exact armed_handle h ht
  | handleOrphan i =>
    simp only [step] at ht
    split_ifs at ht
    obtain rfl := Option.some.inj ht
    exact h
  | others popu curPopu count places asset combatUnionUid =>
    obtain rfl := Option.some.inj ht
    exact fun c => (h c).of_same ⟨rfl, rfl⟩
  | otherCamp key q =>
    simp only [step] at ht
    split_ifs at ht
    obtain rfl := Option.some.inj ht
    exact h

def Producing (s : Worker) : Prop := ∀ c, s.barracks.queue c ≠ [] → s.barracks.Awaited c

theorem producing_of_armed (h : ∀ c, s.barracks.Armed c) : s.Producing := by
  intro c hne
  cases hq : s.barracks.campQueue c with
  | none =>
    refine absurd ?_ hne
    rw [queue, hq]
    rfl
  | some q =>
    rw [queue_of_some hq] at hne
    exact (h c q hq hne).2

theorem Start.armed (h : s.Start) (c : Text) : s.barracks.Armed c := by
  intro q hq
  rw [h.campQueue] at hq
  exact absurd hq.symm (Option.some_ne_none q)

/-- From the first login on, whatever is loaded, asked for, refused and handled in whichever
order, production goes on. -/
theorem producing_run (sm : SmallMap) (uid : UInt32) (toIsoString : Option Int → Text)
    (fromIsoString : Text → Int) (hs : s.Start) (es : List WorkerEvent) :
    Run.Always (step sm uid toIsoString fromIsoString) Producing s es := by
  have hrun : Run.Always (step sm uid toIsoString fromIsoString)
      (fun s => ∀ c, s.barracks.Armed c) s es :=
    Run.always_of_invariant (fun _ _ _ h ht => armed_step h ht) hs.armed es
  exact hrun.mono fun _ => producing_of_armed

theorem producing_run_stale : Run.Always (step barrack 1 (fun _ => []) fun _ => 0) Producing {}
    [.login [], .addSoldiers 1 1 1 "a".toList, .addSoldiers 1 2 1 "a".toList, .tick 60, .expire 0,
      .delSoliders 1 1 1 "a".toList, .handle 0, .completeAtOnce "a".toList, .logout] :=
  producing_run barrack 1 _ _ start_offline _

end Worker

end IceBridge.Army
