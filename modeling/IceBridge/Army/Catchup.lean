import IceBridge.Army.CampQueue
import Mathlib.Tactic.Linarith

/-! Loading a stored queue against running its timer. The loop of `newTimerQueueFromRedis`
tries one soldier more than an entry holds, so the two agree exactly while the head entry
is not finished. -/

namespace IceBridge.Army
open Text

def expand (queue : List SoldierInfo) : List Soldier := queue.flatMap SoldierInfo.soldiers

@[simp] theorem expand_nil : expand [] = [] := rfl

@[simp] theorem expand_cons (e : SoldierInfo) (queue : List SoldierInfo) :
    expand (e :: queue) = e.soldiers ++ expand queue := rfl

@[simp] theorem expand_append (p q : List SoldierInfo) : expand (p ++ q) = expand p ++ expand q :=
  List.flatMap_append

structure SoldierInfo.Positive (e : SoldierInfo) : Prop where
  type : 0 < e.soldierType ∧ e.soldierType ≤ 32767
  level : 0 < e.soldierLevel ∧ e.soldierLevel ≤ 32767
  num : 0 < e.soldierNum ∧ e.soldierNum ≤ 32767

/-! ## The timer -/

section Timer
variable {arms : Arms} {now : Int} {tq : TimerQueue} {army : BuildedArmy}
  {e : SoldierInfo} {rest : List SoldierInfo}

def trained (e : SoldierInfo) (rest : List SoldierInfo) : List SoldierInfo :=
  if e.soldierNum = 1 then rest else { e with soldierNum := e.soldierNum - 1 } :: rest

theorem soldier_expand_trained (rest : List SoldierInfo) (h : 0 < e.soldierNum) :
    e.soldier :: expand (trained e rest) = expand (e :: rest) := by
  have hnum : e.soldierNum.toNat = (e.soldierNum - 1).toNat + 1 := by omega
  have hsplit : e.soldiers = e.soldier :: List.replicate (e.soldierNum - 1).toNat e.soldier := by
    rw [SoldierInfo.soldiers, hnum, List.replicate_succ]
  unfold trained
  split_ifs with hone
  · simp [hsplit, hone]
  · rw [expand_cons, expand_cons, hsplit]
    rfl

theorem pos_of_mem_trained (h : ∀ x ∈ e :: rest, 0 < x.soldierNum) :
    ∀ x ∈ trained e rest, 0 < x.soldierNum := by
  intro x hx
  unfold trained at hx
  split_ifs at hx with hone
  · exact h x (.tail _ hx)
  · rcases List.mem_cons.mp hx with rfl | hx
    · have := h e (.head _)
      show 0 < e.soldierNum - 1
      omega
    · exact h x (.tail _ hx)

theorem TimerQueue.registerTime_queue (arms : Arms) (tq : TimerQueue) (b : Option Int) (secs : Int) :
    (tq.registerTime arms b secs).armysQueue = tq.armysQueue := by
  unfold registerTime
  split <;> simp_all

theorem TimerQueue.registerTime_isBlock (arms : Arms) (tq : TimerQueue) (b : Option Int)
    (secs : Int) : (tq.registerTime arms b secs).isBlock = tq.isBlock := by
  unfold TimerQueue.registerTime
  cases tq.armysQueue <;> rfl

theorem TimerQueue.registerTime_of_nil (h : tq.armysQueue = []) (b : Option Int) (secs : Int) :
    tq.registerTime arms b secs = tq := by
  simp [registerTime, h]

theorem TimerQueue.registerTime_cons (h : tq.armysQueue = e :: rest) (b : Int) :
    tq.registerTime arms (some b) 0 =
      { tq with
        beginBuildTime := some b
        expiresAt := some (b + arms.buildTime e.soldierType e.soldierLevel)
        armed := true } := by
  simp [registerTime, h]

theorem TimerQueue.timeIsUp_of_accepted {army' : BuildedArmy} (h : tq.armysQueue = e :: rest)
    (hins : army.insertToBuildedArmyQueue arms e.soldierType e.soldierLevel = (true, army')) :
    tq.timeIsUp arms army =
      ({ tq with armed := false, isBlock := false, armysQueue := trained e rest }.registerTime
        arms none 0, army') := by
  simp only [timeIsUp, h, hins]
  change (if trained e rest = [] then _ else _) = _
  by_cases hnil : trained e rest = []
  · rw [if_pos hnil, registerTime_of_nil hnil]
    rfl
  · rw [if_neg hnil]
    rfl

theorem TimerQueue.timeIsUp_army (h : tq.armysQueue = e :: rest) :
    (tq.timeIsUp arms army).2 =
      (army.insertToBuildedArmyQueue arms e.soldierType e.soldierLevel).2 := by
  rcases hins : army.insertToBuildedArmyQueue arms e.soldierType e.soldierLevel with ⟨_ | _, a⟩
  · simp [timeIsUp, h, hins]
  · rw [timeIsUp_of_accepted h hins]

theorem BuildedArmy.accepted_of_refused_eq_nil {type level : Int}
    (h : (army.insertToBuildedArmyQueue arms type level).2.refused = []) :
    ∃ army', army.insertToBuildedArmyQueue arms type level = (true, army') ∧
      army'.inserted = army.inserted ++ [⟨type, level⟩] ∧ army.refused = [] := by
  rcases army.insertToBuildedArmyQueue_cases arms type level with
    ⟨army', hins, hlog, href⟩ | ⟨army', hins, -, href⟩
  · exact ⟨army', hins, hlog, by rw [← href, ← h, hins]⟩
  · rw [hins] at h
    exact absurd (href.symm.trans h) (by simp)

theorem TimerQueue.refused_timeIsUp (h : (tq.timeIsUp arms army).2.refused = []) :
    army.refused = [] := by
  rcases hq : tq.armysQueue with _ | ⟨e, rest⟩
  · simpa [timeIsUp, hq] using h
  · rw [timeIsUp_army hq] at h
    obtain ⟨-, -, -, href⟩ := BuildedArmy.accepted_of_refused_eq_nil h
    exact href

theorem TimerQueue.refused_timerLoop (n : ℕ) (h : (timerLoop arms now n (tq, army)).2.refused = []) :
    army.refused = [] := by
  induction n generalizing tq army with
  | zero => exact h
  | succ n ih =>
    unfold timerLoop at h
    split_ifs at h with hdue
    · exact refused_timeIsUp (ih h)
    · exact h

theorem TimerQueue.timerLoop_of_due {n : ℕ} (hq : tq.armysQueue = e :: rest) (hdue : tq.due now)
    (href : (timerLoop arms now (n + 1) (tq, army)).2.refused = []) :
    ∃ army', army.insertToBuildedArmyQueue arms e.soldierType e.soldierLevel = (true, army') ∧
      army'.inserted = army.inserted ++ [e.soldier] ∧
      timerLoop arms now (n + 1) (tq, army) = timerLoop arms now n
        ({ tq with armed := false, isBlock := false, armysQueue := trained e rest }.registerTime
          arms none 0, army') := by
  have hstep : timerLoop arms now (n + 1) (tq, army)
      = timerLoop arms now n (tq.timeIsUp arms army) := if_pos hdue
  have hup : (tq.timeIsUp arms army).2.refused = [] := refused_timerLoop n (hstep ▸ href)
  rw [timeIsUp_army hq] at hup
  obtain ⟨army', hins, hlog, -⟩ := BuildedArmy.accepted_of_refused_eq_nil hup
  exact ⟨army', hins, hlog, by rw [hstep, timeIsUp_of_accepted hq hins]⟩

structure TimerQueue.Running (tq : TimerQueue) : Prop where
  pos : ∀ e ∈ tq.armysQueue, 0 < e.soldierNum
  armed : tq.armed → tq.armysQueue ≠ []

theorem TimerQueue.Running.registerTime (arms : Arms) (hpos : ∀ e ∈ tq.armysQueue, 0 < e.soldierNum)
    (harmed : tq.armed = false) (b : Option Int) (secs : Int) :
    (tq.registerTime arms b secs).Running := by
  refine ⟨by rwa [registerTime_queue], fun h => ?_⟩
  rw [registerTime_queue]
  intro hnil
  simp [TimerQueue.registerTime, hnil, harmed] at h

theorem TimerQueue.timerLoop_spec {army : BuildedArmy} (n : ℕ) (htq : tq.Running)
    (hn : (expand tq.armysQueue).length ≤ n)
    (href : (timerLoop arms now n (tq, army)).2.refused = []) :
    let s := timerLoop arms now n (tq, army)
    s.1.Running ∧ ¬ s.1.due now ∧
      s.2.inserted ++ expand s.1.armysQueue = army.inserted ++ expand tq.armysQueue := by
  induction n generalizing tq army with
  | zero =>
    refine ⟨htq, fun hdue => ?_, rfl⟩
    obtain ⟨e, rest, hq⟩ := List.exists_cons_of_ne_nil (htq.armed hdue.1)
    have hlen : (expand (e :: rest)).length ≤ 0 := hq ▸ hn
    rw [← soldier_expand_trained rest (htq.pos e (by simp [hq]))] at hlen
    simp at hlen
  | succ n ih =>
    by_cases hdue : tq.due now
    · obtain ⟨e, rest, hq⟩ := List.exists_cons_of_ne_nil (htq.armed hdue.1)
      have hexp := soldier_expand_trained rest (htq.pos e (by simp [hq]))
      obtain ⟨army', -, hlog, hstep⟩ := timerLoop_of_due hq hdue href
      rw [hstep] at href ⊢
      have hrun : Running ({ tq with
          armed := false, isBlock := false, armysQueue := trained e rest }.registerTime arms none 0) :=
        .registerTime arms (pos_of_mem_trained (hq ▸ htq.pos)) rfl none 0
      have hlen : (expand (trained e rest)).length ≤ n := by
        have := congrArg List.length hexp
        rw [hq] at hn
        simp only [List.length_cons] at this
        omega
      obtain ⟨h₁, h₂, h₃⟩ := ih hrun (by rwa [registerTime_queue]) href
      refine ⟨h₁, h₂, h₃.trans ?_⟩
      rw [registerTime_queue, hlog, hq, ← hexp]
      simp
    · have hstop : timerLoop arms now (n + 1) (tq, army) = (tq, army) := if_neg hdue
      rw [hstop]
      exact ⟨htq, hdue, rfl⟩

end Timer

/-! ## The loop of the catch-up -/

section Catchup
variable {arms : Arms} {now type level : Int} {s : Loading} {queue : List SoldierInfo}

def Loading.total (s : Loading) : ℕ := s.army.inserted.length + (expand s.tq.armysQueue).length

theorem refused_insertLoop (n : ℕ) (h : (insertLoop arms now type level n s).army.refused = []) :
    s.army.refused = [] := by
  induction n generalizing s with
  | zero => exact h
  | succ n ih =>
    unfold insertLoop at h
    split_ifs at h with htd
    · exact h
    · rcases s.army.insertToBuildedArmyQueue_cases arms type level with
        ⟨army', hins, -, href⟩ | ⟨army', hins, -, href⟩
      · rw [hins] at h
        exact href ▸ ih h
      · rw [hins] at h
        exact absurd (href.symm.trans h) (by simp)

theorem insertLoop_cases {n : ℕ}
    (h : (insertLoop arms now type level (n + 1) s).army.refused = []) :
    (s.td < arms.buildTime type level ∧ insertLoop arms now type level (n + 1) s =
      { s with
        markInsertDirectly := true
        tq := (s.tq.pushBack ⟨type, level, n⟩).registerTime arms (some (now - s.td)) 0 }) ∨
    (arms.buildTime type level ≤ s.td ∧ ∃ army',
      s.army.insertToBuildedArmyQueue arms type level = (true, army') ∧
      army'.inserted = s.army.inserted ++ [⟨type, level⟩] ∧
      insertLoop arms now type level (n + 1) s = insertLoop arms now type level n
        { s with td := s.td - arms.buildTime type level, army := army',
                 tq := { s.tq with isBlock := false } }) := by
  by_cases htd : s.td - arms.buildTime type level < 0
  · exact .inl ⟨by omega, if_pos htd⟩
  · rcases s.army.insertToBuildedArmyQueue_cases arms type level with
      ⟨army', hins, hlog, -⟩ | ⟨army', hins, -, href⟩
    · refine .inr ⟨by omega, army', hins, hlog, ?_⟩
      rw [insertLoop, if_neg htd, hins]
    · rw [insertLoop, if_neg htd, hins] at h
      exact absurd (href.symm.trans h) (by simp)

theorem isPrefix_insertLoop (n : ℕ) :
    s.tq.armysQueue <+: (insertLoop arms now type level n s).tq.armysQueue := by
  induction n generalizing s with
  | zero => exact List.prefix_rfl
  | succ n ih =>
    unfold insertLoop
    split_ifs with htd
    · rw [TimerQueue.registerTime_queue]
      exact List.prefix_append _ _
    · rcases s.army.insertToBuildedArmyQueue arms type level with ⟨_ | _, army'⟩
      · exact List.prefix_append _ _
      · exact ih (s := { s with td := s.td - arms.buildTime type level, army := army',
                                tq := { s.tq with isBlock := false } })

theorem total_insertLoop (n : ℕ)
    (h : (insertLoop arms now type level (n + 1) s).army.refused = []) :
    s.total + n ≤ (insertLoop arms now type level (n + 1) s).total := by
  induction n generalizing s with
  | zero =>
    rcases insertLoop_cases h with ⟨-, hstep⟩ | ⟨-, army', -, hlog, hstep⟩
    · rw [hstep, Loading.total, Loading.total, TimerQueue.registerTime_queue]
      simp [TimerQueue.pushBack]
    · rw [hstep]
      simp only [insertLoop, Loading.total, hlog, List.length_append]
      omega
  | succ n ih =>
    rcases insertLoop_cases h with ⟨-, hstep⟩ | ⟨-, army', -, hlog, hstep⟩
    · rw [hstep, Loading.total, Loading.total, TimerQueue.registerTime_queue]
      simp [TimerQueue.pushBack, SoldierInfo.soldiers]
      omega
    · rw [hstep] at h ⊢
      have := ih h
      simp only [Loading.total, hlog, List.length_append, List.length_singleton] at this ⊢
      omega

theorem overshoot_insertLoop (n : ℕ) (h₀ : 0 ≤ s.td) (htd : n * arms.buildTime type level ≤ s.td)
    (h : (insertLoop arms now type level (n + 1) s).army.refused = []) :
    (∃ e ∈ (insertLoop arms now type level (n + 1) s).tq.armysQueue, e.soldierNum = 0) ∨
      s.total + (n + 1) ≤ (insertLoop arms now type level (n + 1) s).total := by
  induction n generalizing s with
  | zero =>
    rcases insertLoop_cases h with ⟨-, hstep⟩ | ⟨-, army', -, hlog, hstep⟩
    · refine .inl ⟨⟨type, level, 0⟩, ?_, rfl⟩
      rw [hstep, TimerQueue.registerTime_queue]
      simp [TimerQueue.pushBack]
    · refine .inr ?_
      rw [hstep]
      simp only [insertLoop, Loading.total, hlog, List.length_append, List.length_singleton]
      omega
  | succ n ih =>
    push_cast at htd
    rcases insertLoop_cases h with ⟨hlt, -⟩ | ⟨hle, army', -, hlog, hstep⟩
    · -- a negative remainder contradicts the time there is
      have hbt : 0 ≤ n * arms.buildTime type level :=
        mul_nonneg (Int.natCast_nonneg n) (h₀.trans hlt.le)
      linarith
    · rw [hstep] at h ⊢
      rcases ih (by linarith) (by linarith) h with hzero | hmore
      · exact .inl hzero
      · refine .inr ?_
        simp only [Loading.total, hlog, List.length_append, List.length_singleton] at hmore ⊢
        omega

/-! ## The entries one after another -/

theorem parseEntry_text {e : SoldierInfo} (he : e.Positive) : parseEntry e.text = some e := by
  obtain ⟨⟨ht, ht'⟩, ⟨hl, hl'⟩, hn, hn'⟩ := he
  have hsplit : split '#' e.text =
      [formatInt e.soldierType, formatInt e.soldierLevel, formatInt e.soldierNum] :=
    split_three ⟨formatInt_ne_nil _, sharp_notMem_formatInt _⟩
      ⟨formatInt_ne_nil _, sharp_notMem_formatInt _⟩
      ⟨formatInt_ne_nil _, sharp_notMem_formatInt _⟩
  simp only [parseEntry, hsplit, atoi_formatInt]
  rw [short_of_mem (by omega) ht', short_of_mem (by omega) hl', short_of_mem (by omega) hn']
  exact if_neg (by show ¬ (_ ∨ _ ∨ _); omega)

theorem loadEntry_text (arms : Arms) (now : Int) (s : Loading) {e : SoldierInfo} (he : e.Positive) :
    loadEntry arms now s e.text =
      if s.markInsertDirectly then { s with tq := s.tq.pushBack e }
      else insertLoop arms now e.soldierType e.soldierLevel (e.soldierNum.toNat + 1) s := by
  have hnum : (e.soldierNum + 1).toNat = e.soldierNum.toNat + 1 := by
    have := he.num
    omega
  simp only [loadEntry, parseEntry_text he, hnum]

theorem foldl_loadEntry_mark (tokens : List Text) (hs : s.markInsertDirectly) :
    tokens.foldl (loadEntry arms now) s =
      { s with tq := { s.tq with
          armysQueue := s.tq.armysQueue ++ tokens.filterMap parseEntry } } := by
  induction tokens generalizing s with
  | nil => simp
  | cons token rest ih =>
    rw [List.foldl_cons]
    cases hparse : parseEntry token with
    | none =>
      have hload : loadEntry arms now s token = s := by
        rw [loadEntry, hparse]
      rw [hload, ih hs, List.filterMap_cons_none hparse]
    | some e =>
      have hload : loadEntry arms now s token = { s with tq := s.tq.pushBack e } := by
        rw [loadEntry, hparse]
        exact if_pos hs
      rw [hload, ih (s := { s with tq := s.tq.pushBack e }) hs, List.filterMap_cons_some hparse]
      simp [TimerQueue.pushBack]

theorem filterMap_parseEntry_text (hq : ∀ e ∈ queue, e.Positive) :
    (queue.map SoldierInfo.text).filterMap parseEntry = queue := by
  induction queue with
  | nil => rfl
  | cons e rest ih =>
    rw [List.map_cons, List.filterMap_cons_some (parseEntry_text (hq e (.head _))),
      ih fun x hx => hq x (.tail _ hx)]

theorem foldl_loadEntry_of_mark (hq : ∀ e ∈ queue, e.Positive) (hs : s.markInsertDirectly) :
    (queue.map SoldierInfo.text).foldl (loadEntry arms now) s =
      { s with tq := { s.tq with armysQueue := s.tq.armysQueue ++ queue } } := by
  rw [foldl_loadEntry_mark _ hs, filterMap_parseEntry_text hq]

/-- No soldier is lost, and what is queued stays queued. -/
theorem foldl_loadEntry_spec (hq : ∀ e ∈ queue, e.Positive)
    (href : ((queue.map SoldierInfo.text).foldl (loadEntry arms now) s).army.refused = []) :
    let r := (queue.map SoldierInfo.text).foldl (loadEntry arms now) s
    s.army.refused = [] ∧ s.tq.armysQueue <+: r.tq.armysQueue ∧
      s.total + (expand queue).length ≤ r.total := by
  induction queue generalizing s with
  | nil => exact ⟨href, List.prefix_rfl, le_rfl⟩
  | cons e rest ih =>
    have he := hq e (.head _)
    obtain ⟨h₁, h₂, h₃⟩ := ih (fun x hx => hq x (.tail _ hx)) href
    have hlen : (expand (e :: rest)).length = e.soldierNum.toNat + (expand rest).length := by
      simp [SoldierInfo.soldiers]
    rw [List.map_cons, List.foldl_cons]
    rw [loadEntry_text _ _ _ he] at h₁ h₂ h₃ ⊢
    split_ifs at h₁ h₂ h₃ ⊢ with hmark
    · refine ⟨h₁, (List.prefix_append _ _).trans h₂, le_trans (le_of_eq ?_) h₃⟩
      simp [Loading.total, TimerQueue.pushBack, SoldierInfo.soldiers, Nat.add_assoc]
    · refine ⟨refused_insertLoop _ h₁, (isPrefix_insertLoop _).trans h₂, ?_⟩
      have := total_insertLoop e.soldierNum.toNat h₁
      omega

end Catchup

/-! ## The two side by side -/

section Compare
variable {arms : Arms} {now : Int} {army : BuildedArmy} {e : SoldierInfo}
  {rest queue : List SoldierInfo}

def TimerQueue.training (arms : Arms) (e : SoldierInfo) (rest : List SoldierInfo) (t : Int) :
    TimerQueue where
  armysQueue := e :: rest
  beginBuildTime := some t
  expiresAt := some (t + arms.buildTime e.soldierType e.soldierLevel)
  armed := true

theorem TimerQueue.due_training {t : Int} :
    (training arms e rest t).due now ↔ t + arms.buildTime e.soldierType e.soldierLevel ≤ now := by
  simp [due, training]

theorem TimerQueue.timerLoop_of_not_due {tq : TimerQueue} (n : ℕ) (h : ¬ tq.due now) :
    timerLoop arms now n (tq, army) = (tq, army) := by
  cases n with
  | zero => rfl
  | succ n => exact if_neg h

/-- While the entry is not finished, its loop does what the timer does. -/
theorem insertLoop_eq_timerLoop {type level td : Int} (rest : List SoldierInfo) (k : ℕ) (h₀ : 0 ≤ td)
    (htd : td < (k + 1) * arms.buildTime type level)
    (href : (insertLoop arms now type level (k + 2) ⟨{}, army, td, false⟩).army.refused = []) :
    ∃ (j : Int) (td' : Int) (army' : BuildedArmy),
      insertLoop arms now type level (k + 2) ⟨{}, army, td, false⟩ =
        ⟨.training arms ⟨type, level, j⟩ [] (now - td'), army', td', true⟩ ∧
      ∀ n, k ≤ n →
        TimerQueue.timerLoop arms now n
            (.training arms ⟨type, level, (k : Int) + 1⟩ rest (now - td), army) =
          (.training arms ⟨type, level, j⟩ rest (now - td'), army') := by
  induction k generalizing td army with
  | zero =>
    have hlt : td < arms.buildTime type level := by simpa using htd
    rcases insertLoop_cases href with ⟨-, hstep⟩ | ⟨hle, -⟩
    · refine ⟨1, td, army, ?_, fun n _ => ?_⟩
      · rw [hstep]
        rfl
      · apply TimerQueue.timerLoop_of_not_due
        rw [TimerQueue.due_training]
        show ¬ now - td + arms.buildTime type level ≤ now
        omega
    · exact absurd hlt (not_lt_of_ge hle)
  | succ k ih =>
    rcases insertLoop_cases href with ⟨hlt, hstep⟩ | ⟨hle, army', hins, -, hstep⟩
    · dsimp only at hlt
      refine ⟨(k : Int) + 1 + 1, td, army, ?_, fun n _ => ?_⟩
      · rw [hstep]
        rfl
      · push_cast
        apply TimerQueue.timerLoop_of_not_due
        rw [TimerQueue.due_training]
        show ¬ now - td + arms.buildTime type level ≤ now
        omega
    · dsimp only at hle
      rw [hstep] at href ⊢
      push_cast at htd
      obtain ⟨j, td', army'', hoff, hon⟩ := ih
        (show 0 ≤ td - arms.buildTime type level by omega) (by linarith) href
      refine ⟨j, td', army'', hoff, fun n hn => ?_⟩
      obtain ⟨m, rfl⟩ : ∃ m, n = m + 1 := ⟨n - 1, by omega⟩
      rw [← hon m (by omega)]
      -- the wait has expired, and the next soldier of the entry begins where it ended
      have hdue : TimerQueue.due now (.training arms
          ⟨type, level, ((k + 1 : ℕ) : Int) + 1⟩ rest (now - td)) := by
        rw [TimerQueue.due_training]
        show now - td + arms.buildTime type level ≤ now
        omega
      have hnum : ((k + 1 : ℕ) : Int) + 1 ≠ 1 := by omega
      have hbegin : now - td + arms.buildTime type level =
          now - (td - arms.buildTime type level) := by omega
      have hone : ((k + 1 : ℕ) : Int) + 1 - 1 = (k : Int) + 1 := by omega
      rw [TimerQueue.timerLoop, if_pos hdue, TimerQueue.timeIsUp_of_accepted (by rfl) hins]
      simp only [trained, if_neg hnum, TimerQueue.registerTime, TimerQueue.training,
        Option.none_or, Option.map_some, if_true, hbegin, hone]

def online (arms : Arms) (b now : Int) (queue : List SoldierInfo) (army : BuildedArmy) :
    TimerQueue × BuildedArmy :=
  TimerQueue.timerLoop arms now (expand queue).length
    (({ armysQueue := queue } : TimerQueue).registerTime arms (some b) 0, army)

def offline (arms : Arms) (toIsoString : Int → Text) (fromIsoString : Text → Int) (uid : UInt32)
    (whichCamp : Text) (b now : Int) (queue : List SoldierInfo) (army : BuildedArmy) :
    ArmysBuildQueue :=
  newTimerQueueFromRedis arms fromIsoString now (campKey uid whichCamp)
    (writeIntoRedis (toIsoString b) false queue) { army := army }

namespace ArmysBuildQueue

def remaining (q : ArmysBuildQueue) (whichCamp : Text) : List SoldierInfo :=
  ((q.campQueue whichCamp).map TimerQueue.armysQueue).getD []

def beginBuildTime (q : ArmysBuildQueue) (whichCamp : Text) : Option Int :=
  (q.campQueue whichCamp).bind TimerQueue.beginBuildTime

end ArmysBuildQueue

/-- Loading gave what the timer gave, which waits for nothing that is due. -/
structure Agree (q : ArmysBuildQueue) (s : TimerQueue × BuildedArmy) (whichCamp : Text)
    (now : Int) (queue : List SoldierInfo) (army : BuildedArmy) : Prop where
  inserted : q.army.inserted = s.2.inserted
  remaining : q.remaining whichCamp = s.1.armysQueue
  beginBuildTime : q.beginBuildTime whichCamp = s.1.beginBuildTime
  conserved : q.army.inserted ++ expand (q.remaining whichCamp) = army.inserted ++ expand queue
  settled : ¬ s.1.due now

def HeadUnfinished (arms : Arms) (whichCamp : Text) (b now : Int) : List SoldierInfo → Prop
  | [] => True
  | e :: _ => whichCamp ≠ [] ∧ '#' ∉ whichCamp ∧
      now - b < e.soldierNum * arms.buildTime e.soldierType e.soldierLevel

theorem online_spec {b : Int} (hq : ∀ e ∈ queue, e.Positive)
    (href : (online arms b now queue army).2.refused = []) :
    (online arms b now queue army).1.Running ∧ ¬ (online arms b now queue army).1.due now ∧
      (online arms b now queue army).2.inserted ++ expand (online arms b now queue army).1.armysQueue
        = army.inserted ++ expand queue := by
  have hrun : TimerQueue.Running
      (({ armysQueue := queue } : TimerQueue).registerTime arms (some b) 0) :=
    .registerTime arms (fun e he => (hq e he).num.1) rfl (some b) 0
  have h := TimerQueue.timerLoop_spec (expand queue).length hrun
    (by rw [TimerQueue.registerTime_queue]) href
  rw [TimerQueue.registerTime_queue] at h
  exact h

theorem TimerQueue.registerTime_isSome {tq : TimerQueue} {b : Option Int} {secs : Int}
    (h : (b.or tq.expiresAt).isSome) (hs : tq.beginBuildTime.isSome ∧ tq.expiresAt.isSome) :
    (tq.registerTime arms b secs).beginBuildTime.isSome ∧
      (tq.registerTime arms b secs).expiresAt.isSome := by
  unfold registerTime
  split
  · exact hs
  · exact ⟨h, by simpa using h⟩

theorem TimerQueue.timeIsUp_isSome {tq : TimerQueue}
    (h : tq.beginBuildTime.isSome ∧ tq.expiresAt.isSome) :
    (tq.timeIsUp arms army).1.beginBuildTime.isSome ∧
      (tq.timeIsUp arms army).1.expiresAt.isSome := by
  unfold timeIsUp
  dsimp only
  rcases tq.armysQueue with _ | ⟨sir, rest⟩
  · exact h
  · dsimp only
    rcases army.insertToBuildedArmyQueue arms sir.soldierType sir.soldierLevel with ⟨_ | _, army'⟩
    · exact registerTime_isSome h.2 h
    · dsimp only
      split_ifs
      all_goals first | exact h | exact registerTime_isSome h.2 h

theorem TimerQueue.timerLoop_isSome (arms : Arms) (now : Int) (army : BuildedArmy)
    {tq : TimerQueue} (n : ℕ)
    (h : tq.beginBuildTime.isSome ∧ tq.expiresAt.isSome) :
    (timerLoop arms now n (tq, army)).1.beginBuildTime.isSome := by
  induction n generalizing tq army with
  | zero => exact h.1
  | succ n ih =>
    unfold timerLoop
    split_ifs with hdue
    · exact ih _ (timeIsUp_isSome h)
    · exact h.1

section
variable {toIsoString : Int → Text} {fromIsoString : Text → Int} {uid : UInt32}
  {whichCamp : Text} {b : Int}

theorem offline_cons (arms : Arms) (now : Int) (army : BuildedArmy) (e : SoldierInfo)
    (rest : List SoldierInfo) (hiso : fromIsoString (toIsoString b) = b)
    (hid : afterLast '#' (campKey uid whichCamp) ≠ []) :
    let s := ((e :: rest).map SoldierInfo.text).foldl (loadEntry arms now)
      ⟨{}, army, now - b, false⟩
    let tq := if s.tq.isBlock then s.tq.registerTime arms (some now) 30 else s.tq
    offline arms toIsoString fromIsoString uid whichCamp b now (e :: rest) army =
      { campQueue := Function.update (fun _ => none) (afterLast '#' (campKey uid whichCamp))
          (some tq),
        army := s.army } := by
  have hblock : decide (atoi (formatInt false.toInt) ≠ 0) = false := by
    rw [atoi_formatInt]
    rfl
  simp only [offline, newTimerQueueFromRedis, writeIntoRedis, List.reverse_reverse, List.map_cons,
    if_neg hid, hblock, hiso]

theorem offline_of_not_found (h : ¬ (whichCamp ≠ [] ∧ '#' ∉ whichCamp)) :
    (offline arms toIsoString fromIsoString uid whichCamp b now queue army).campQueue whichCamp
      = none := by
  unfold offline newTimerQueueFromRedis
  split
  · by_cases hid : afterLast '#' (campKey uid whichCamp) = []
    · simp only [hid, if_true]
    · simp only [hid, if_false]
      apply Function.update_of_ne
      rintro heq
      exact h ⟨heq ▸ hid, heq ▸ notMem_afterLast _⟩
  · rfl

theorem overshoot_of_finished (hq : ∀ x ∈ e :: rest, x.Positive) {td : Int} (h₀ : 0 ≤ td)
    (htd : e.soldierNum * arms.buildTime e.soldierType e.soldierLevel ≤ td)
    (href : (((e :: rest).map SoldierInfo.text).foldl (loadEntry arms now)
      ⟨{}, army, td, false⟩).army.refused = []) :
    let r := ((e :: rest).map SoldierInfo.text).foldl (loadEntry arms now) ⟨{}, army, td, false⟩
    (∃ x ∈ r.tq.armysQueue, x.soldierNum = 0) ∨
      army.inserted.length + (expand (e :: rest)).length < r.total := by
  have he := hq e (.head _)
  have hnum : (e.soldierNum.toNat : Int) = e.soldierNum := Int.toNat_of_nonneg he.num.1.le
  have hload := loadEntry_text arms now ⟨{}, army, td, false⟩ he
  obtain ⟨h₁, h₂, h₃⟩ := foldl_loadEntry_spec (fun x hx => hq x (.tail _ hx)) href
  rw [hload, if_neg (by simp)] at h₁ h₂ h₃
  rw [List.map_cons, List.foldl_cons, hload, if_neg (by simp)]
  rcases overshoot_insertLoop e.soldierNum.toNat h₀ (hnum ▸ htd) h₁ with ⟨x, hx, hzero⟩ | hmore
  · exact .inl ⟨x, h₂.subset hx, hzero⟩
  · refine .inr ?_
    have hlen : (expand (e :: rest)).length = e.soldierNum.toNat + (expand rest).length := by
      simp [SoldierInfo.soldiers]
    have hstart : Loading.total ⟨{}, army, td, false⟩ = army.inserted.length := rfl
    omega

/-- While the head entry is not finished, loading leaves the very state of the timer. -/
theorem foldl_loadEntry_eq_online {b : Int} (hq : ∀ x ∈ e :: rest, x.Positive) (hb : b ≤ now)
    (htd : now - b < e.soldierNum * arms.buildTime e.soldierType e.soldierLevel)
    (href : (((e :: rest).map SoldierInfo.text).foldl (loadEntry arms now)
      ⟨{}, army, now - b, false⟩).army.refused = []) :
    let r := ((e :: rest).map SoldierInfo.text).foldl (loadEntry arms now)
      ⟨{}, army, now - b, false⟩
    online arms b now (e :: rest) army = (r.tq, r.army) ∧ r.tq.isBlock = false := by
  have he := hq e (.head _)
  have hload := loadEntry_text arms now ⟨{}, army, now - b, false⟩ he
  obtain ⟨k, hk⟩ : ∃ k, e.soldierNum.toNat = k + 1 := ⟨e.soldierNum.toNat - 1, by
    have := he.num
    omega⟩
  have hnum : e.soldierNum = (k : Int) + 1 := by omega
  obtain ⟨href₁, -, -⟩ := foldl_loadEntry_spec (fun x hx => hq x (.tail _ hx)) href
  rw [hload, if_neg (by simp), hk] at href₁
  obtain ⟨j, td', army', hoff, hon⟩ := insertLoop_eq_timerLoop rest k (by omega)
    (hnum ▸ htd) href₁
  have hstart : (({ armysQueue := e :: rest } : TimerQueue).registerTime arms (some b) 0) =
      .training arms e rest b := TimerQueue.registerTime_cons (by rfl) b
  have hlen : k ≤ (expand (e :: rest)).length := by
    simp [SoldierInfo.soldiers]
    omega
  have hentry : (⟨e.soldierType, e.soldierLevel, (k : Int) + 1⟩ : SoldierInfo) = e := by
    rw [← hnum]
  have hbegin : now - (now - b) = b := by omega
  rw [List.map_cons, List.foldl_cons, hload, if_neg (by simp), hk, hoff,
    foldl_loadEntry_of_mark (fun x hx => hq x (.tail _ hx)) (by rfl), online, hstart]
  have hrun := hon _ hlen
  rw [hentry, hbegin] at hrun
  exact ⟨hrun, rfl⟩

/-- Logging in gives the soldiers and the queue that staying online would have given, if
and only if the first entry of the stored queue is not finished by then. -/
theorem agree_iff (hq : ∀ e ∈ queue, e.Positive) (hb : b ≤ now)
    (hiso : fromIsoString (toIsoString b) = b)
    (hoff : (offline arms toIsoString fromIsoString uid whichCamp b now queue army).army.refused = [])
    (hon : (online arms b now queue army).2.refused = []) :
    Agree (offline arms toIsoString fromIsoString uid whichCamp b now queue army)
        (online arms b now queue army) whichCamp now queue army ↔
      HeadUnfinished arms whichCamp b now queue := by
  obtain ⟨hrun, hsettled, hcons⟩ := online_spec hq hon
  rcases queue with _ | ⟨e, rest⟩
  · refine iff_of_true ⟨?_, ?_, ?_, ?_, hsettled⟩ trivial <;> rfl
  by_cases hcamp : whichCamp ≠ [] ∧ '#' ∉ whichCamp
  · have hkey : afterLast '#' (campKey uid whichCamp) = whichCamp := afterLast_campKey hcamp.2
    have hload := offline_cons arms now army e rest hiso (hkey ▸ hcamp.1)
    rw [hkey] at hload
    rw [hload] at hoff ⊢
    have hqueue := TimerQueue.registerTime_queue arms
      (((e :: rest).map SoldierInfo.text).foldl (loadEntry arms now)
        ⟨{}, army, now - b, false⟩).tq (some now) 30
    constructor
    · rintro ⟨-, hremain, -, htotal, -⟩
      refine ⟨hcamp.1, hcamp.2, lt_of_not_ge fun hfin => ?_⟩
      simp only [ArmysBuildQueue.remaining, Function.update_self, Option.map_some,
        Option.getD_some, apply_ite TimerQueue.armysQueue, hqueue, ite_self] at hremain htotal
      rcases overshoot_of_finished hq (by omega) hfin hoff with ⟨x, hx, hzero⟩ | hmore
      · have := hrun.pos x (hremain ▸ hx)
        omega
      · have := congrArg List.length htotal
        rw [List.length_append, List.length_append] at this
        exact absurd hmore (by rw [Loading.total]; omega)
    · rintro ⟨-, -, htd⟩
      obtain ⟨heq, hblock⟩ := foldl_loadEntry_eq_online hq hb htd hoff
      rw [heq] at hcons hsettled ⊢
      rw [hblock]
      refine ⟨rfl, ?_, ?_, ?_, hsettled⟩
      all_goals simp only [ArmysBuildQueue.remaining, ArmysBuildQueue.beginBuildTime,
        Function.update_self]
      exacts [rfl, rfl, hcons]
  · refine iff_of_false (fun h => ?_) fun h => hcamp ⟨h.1, h.2.1⟩
    have hbegin : (online arms b now (e :: rest) army).1.beginBuildTime.isSome :=
      TimerQueue.timerLoop_isSome arms now army _ ⟨rfl, rfl⟩
    have hnone := h.beginBuildTime
    rw [ArmysBuildQueue.beginBuildTime, offline_of_not_found hcamp] at hnone
    rw [← hnone] at hbegin
    cases hbegin

end

def infantry : Arms := [[], [⟨0, 0⟩, ⟨1, 60⟩]]

def newYear : Int := 1356998400

theorem agree_after_one_of_two :
    Agree (offline infantry (fun _ => "20130101T000000".toList) (fun _ => newYear) 7 "a".toList
        newYear (newYear + 60) [⟨1, 1, 2⟩] {})
      (online infantry newYear (newYear + 60) [⟨1, 1, 2⟩] {}) "a".toList (newYear + 60)
      [⟨1, 1, 2⟩] {} :=
  (agree_iff (by rintro e (_ | ⟨_, ⟨⟩⟩); exact ⟨by decide, by decide, by decide⟩)
    (by decide) (by rfl) (by decide) (by decide)).mpr ⟨by decide, by decide, by decide⟩

/-- At the moment the last soldier of the entry is due, the queue keeps an entry of none. -/
theorem not_agree_after_two_of_two :
    (offline infantry (fun _ => "20130101T000000".toList) (fun _ => newYear) 7 "a".toList
      newYear (newYear + 120) [⟨1, 1, 2⟩] {}).army.refused = [] ∧
    (online infantry newYear (newYear + 120) [⟨1, 1, 2⟩] {}).2.refused = [] ∧
    ¬ Agree (offline infantry (fun _ => "20130101T000000".toList) (fun _ => newYear) 7 "a".toList
        newYear (newYear + 120) [⟨1, 1, 2⟩] {})
      (online infantry newYear (newYear + 120) [⟨1, 1, 2⟩] {}) "a".toList (newYear + 120)
      [⟨1, 1, 2⟩] {} :=
  ⟨by decide, by decide, fun h => absurd h.remaining (by decide)⟩

end Compare

end IceBridge.Army
