import IceBridge.Router.Preservation

/-! The round-robin position of a `ServiceDoNotWaitResponse`. It is kept between calls
while workers leave the list it points into, and `pop_worker` only tests it against the
end of the list. -/

namespace IceBridge.Router
open ServiceType

/-! ## Only the loop dereferences the position -/

section
variable {α β : Type} {f : Fault}

theorem bind_ne_fault {x : Result α} {g : α → Result β} (hx : x ≠ .error f)
    (hg : ∀ a, g a ≠ .error f) : x >>= g ≠ .error f := by
  cases x with
  | error e => exact fun h => hx (by simpa [bind, Except.bind] using h)
  | ok a => exact hg a

theorem popCstr_ne_fault (msg : Zmsg) : popCstr msg ≠ .error .cursorOutOfRange := by
  cases msg <;> simp [popCstr]

theorem popFront_ne_fault (msg : Zmsg) : popFront msg ≠ .error .cursorOutOfRange := by
  cases msg <;> simp [popFront]

theorem unwrap_ne_fault (msg : Zmsg) : unwrap msg ≠ .error .cursorOutOfRange := by
  unfold unwrap
  split <;> simp

theorem body_ne_fault (msg : Zmsg) : body msg ≠ .error .cursorOutOfRange := by
  unfold body
  split <;> simp

end

namespace Broker
variable {b b' : Broker}

theorem deref_ne_fault (b : Broker) (p : ServicePtr) : b.deref p ≠ .error .cursorOutOfRange := by
  unfold deref
  split
  · split_ifs <;> simp
  · simp

theorem serviceRequire_ne_fault (b : Broker) (n t : Frame) :
    b.serviceRequire n t ≠ .error .cursorOutOfRange := by
  unfold serviceRequire
  split_ifs
  · simp
  · split
    · split_ifs <;> simp
    · split <;> simp

theorem send_ne_fault (b : Broker) (frames : Zmsg) :
    b.send frames ≠ .error .cursorOutOfRange := by
  refine bind_ne_fault ?_ fun _ => nofun
  unfold Router.send
  split_ifs <;> simp

theorem serviceInternal_ne_fault (b : Broker) (n : Frame) (msg : Zmsg) :
    b.serviceInternal n msg ≠ .error .cursorOutOfRange := by
  have hreply : b.internalReply n msg ≠ .error .cursorOutOfRange := by
    unfold internalReply
    split_ifs
    · refine bind_ne_fault (body_ne_fault msg) fun name => ?_
      split
      · simp
      · split_ifs <;> simp [pure, Except.pure]
    · simp [pure, Except.pure]
  refine bind_ne_fault hreply fun msg => bind_ne_fault (unwrap_ne_fault msg) fun _ => ?_
  exact send_ne_fault _ _

theorem workerDelete_ne_fault (b : Broker) (w : Frame) (disconnect : Bool) :
    b.workerDelete w disconnect ≠ .error .cursorOutOfRange := by
  unfold workerDelete
  dsimp only
  split
  · simp
  · exact bind_ne_fault (deref_ne_fault _ _) fun _ => nofun

theorem workerWaiting_ne_fault (b : Broker) (w : Frame) (now : Int) :
    b.workerWaiting w now ≠ .error .cursorOutOfRange := by
  unfold workerWaiting
  dsimp only
  split
  · simp
  · exact bind_ne_fault (deref_ne_fault _ _) fun _ => nofun

theorem workerReady_ne_fault (b : Broker) (w : Frame) (msg : Zmsg) (now : Int) :
    b.workerReady w msg now ≠ .error .cursorOutOfRange := by
  refine bind_ne_fault (popCstr_ne_fault msg) fun ⟨n, msg⟩ => ?_
  dsimp only
  split_ifs
  · nofun
  refine bind_ne_fault (popCstr_ne_fault msg) fun ⟨t, _⟩ => ?_
  refine bind_ne_fault (serviceRequire_ne_fault _ _ _) fun ⟨p, b⟩ => ?_
  exact bind_ne_fault (workerWaiting_ne_fault _ _ _) fun _ => nofun

theorem workerReply_ne_fault (b : Broker) (w : Frame) (msg : Zmsg) (now : Int) :
    b.workerReply w msg now ≠ .error .cursorOutOfRange := by
  refine bind_ne_fault (unwrap_ne_fault msg) fun ⟨client, msg⟩ => ?_
  dsimp only
  split
  · simp
  · refine bind_ne_fault (deref_ne_fault _ _) fun srv => ?_
    refine bind_ne_fault (send_ne_fault _ _) fun b => ?_
    exact bind_ne_fault (workerWaiting_ne_fault _ _ _) fun _ => nofun

theorem workerProcess_ne_fault (b : Broker) (w : Frame) (msg : Zmsg) (now : Int) :
    b.workerProcess w msg now ≠ .error .cursorOutOfRange := by
  unfold workerProcess
  split
  · simp
  refine bind_ne_fault (popCstr_ne_fault msg) fun ⟨command, msg⟩ => ?_
  dsimp only
  split
  · split
    · exact bind_ne_fault (workerDelete_ne_fault _ _ _) fun _ => nofun
    · exact workerReady_ne_fault _ _ _ _
  split
  · exact workerReply_ne_fault _ _ _ _
  split
  · split
    · exact bind_ne_fault (workerWaiting_ne_fault _ _ _) fun _ => nofun
    · exact bind_ne_fault (workerDelete_ne_fault _ _ _) fun _ => nofun
  split
  · exact bind_ne_fault (workerDelete_ne_fault _ _ _) fun _ => nofun
  · nofun

theorem clientProcess_ne_fault (b : Broker) (client : Frame) (msg : Zmsg) :
    b.clientProcess client msg ≠ .error .cursorOutOfRange := by
  unfold clientProcess
  split
  · simp
  refine bind_ne_fault (popCstr_ne_fault msg) fun ⟨n, msg⟩ => ?_
  dsimp only
  split
  · nofun
  split
  · nofun
  refine bind_ne_fault (serviceRequire_ne_fault _ _ _) fun ⟨p, b⟩ => ?_
  dsimp only
  split
  · exact bind_ne_fault (serviceInternal_ne_fault _ _ _) fun _ => nofun
  · nofun

theorem accept_ne_fault (b : Broker) (r : Received) :
    b.accept r ≠ .error .cursorOutOfRange := by
  refine bind_ne_fault (popCstr_ne_fault r.msg) fun ⟨s, msg⟩ => ?_
  refine bind_ne_fault (popFront_ne_fault msg) fun ⟨e, msg⟩ => ?_
  refine bind_ne_fault (popCstr_ne_fault msg) fun ⟨h, msg⟩ => ?_
  dsimp only
  split
  · exact clientProcess_ne_fault _ _ _
  split
  · exact workerProcess_ne_fault _ _ _ _
  · nofun

end Broker

/-! ## The position along one dispatch -/

namespace Service
variable {srv : Service} {expiry : Frame → Int} {clk : ℕ → Int}

def position (srv : Service) : ℕ := if srv.ifPosInit then srv.pos else 0

/-- The same as an iterator of `m_waiting`; none, if the list has moved from under it. -/
def cursor (srv : Service) : Option ℕ :=
  if srv.ifPosInit ∧ srv.dangling then none else some srv.position

def InRange (srv : Service) : Prop := ∃ pos ∈ srv.cursor, pos ≤ srv.waiting.length

def advance (srv : Service) : Service :=
  { srv with pos := srv.nextPos + 1, ifPosInit := true, dangling := false }

def remaining : ServiceType → List Frame → List Frame
  | serviceWaitResponse, waiting => waiting.tail
  | serviceDoNotWaitResponse, waiting => waiting

end Service

/-- The requests that `pop_worker` is called for while workers last: the first that `send` asserts
wrong is the last one. -/
def tried : List Zmsg → List Zmsg
  | [] => []
  | msg :: rest => msg :: if Sendable msg then tried rest else []

/-- How many workers wait, not expired, when each of the next requests is looked at; an expired
worker does not come back. -/
def liveCounts (ty : ServiceType) (expiry : Frame → Int) :
    ℕ → (ℕ → Int) → List Frame → List ℕ
  | 0, _, _ => []
  | k + 1, clk, waiting =>
    let live := waiting.filter fun w => ¬ expiry w < clk 0
    live.length :: liveCounts ty expiry k (fun i => clk (i + 1)) (Service.remaining ty live)

/-- The position stays at most the number of workers while it goes round them, or no worker
is left. -/
def Fits : Option ℕ → List ℕ → Prop
  | _, [] => True
  | none, count :: _ => count = 0
  | some pos, count :: counts =>
    count = 0 ∨ pos ≤ count ∧ Fits (some ((if pos = count then 0 else pos) + 1)) counts

instance Fits.decidable : ∀ pos counts, Decidable (Fits pos counts)
  | none, [] => inferInstanceAs (Decidable True)
  | some _, [] => inferInstanceAs (Decidable True)
  | none, count :: _ => inferInstanceAs (Decidable (count = 0))
  | some pos, count :: counts =>
    have := Fits.decidable (some ((if pos = count then 0 else pos) + 1)) counts
    inferInstanceAs (Decidable (count = 0 ∨ pos ≤ count ∧ _))

theorem fits_zero (pos : Option ℕ) (counts : List ℕ) : Fits pos (0 :: counts) := by
  cases pos with
  | none => exact rfl
  | some pos => exact Or.inl rfl

namespace Service
variable {srv : Service} {expiry : Frame → Int} {clk : ℕ → Int}

def CursorFits (srv : Service) (expiry : Frame → Int) (k : ℕ) (clk : ℕ → Int) : Prop :=
  srv.type = serviceDoNotWaitResponse →
    Fits srv.cursor (liveCounts srv.type expiry k clk srv.waiting)

def Serves (srv : Service) (expiry : Frame → Int) (i : ℕ) (clk : ℕ → Int) : Prop :=
  0 ∉ liveCounts srv.type expiry (i + 1) clk srv.waiting ∧ srv.CursorFits expiry (i + 1) clk

theorem nextPos_of_position (srv : Service) :
    srv.nextPos = if srv.position = srv.waiting.length then 0 else srv.position := by
  unfold nextPos position
  cases srv.ifPosInit with
  | true => simp
  | false => simp

theorem cursor_advance (srv : Service) : srv.advance.cursor =
    some ((if srv.position = srv.waiting.length then 0 else srv.position) + 1) := by
  rw [← nextPos_of_position]
  rfl

theorem cursor_eq_some {pos : ℕ} (h : srv.cursor = some pos) :
    ¬ (srv.ifPosInit ∧ srv.dangling) ∧ srv.position = pos := by
  unfold cursor at h
  split_ifs at h with hd
  exact ⟨hd, Option.some.inj h⟩

theorem InRange.position (h : srv.InRange) :
    srv.cursor = some srv.position ∧ srv.position ≤ srv.waiting.length := by
  obtain ⟨pos, hpos, hle⟩ := h
  obtain ⟨-, rfl⟩ := cursor_eq_some hpos
  exact ⟨hpos, hle⟩

theorem popWorker_doNotWait (ht : srv.type = serviceDoNotWaitResponse) (hne : srv.waiting ≠ [])
    (h : srv.InRange) : ∃ w, srv.waiting[srv.nextPos]? = some w ∧
      srv.popWorker = .ok (some w, srv.advance) := by
  obtain ⟨hcur, hle⟩ := h.position
  have hpos : 0 < srv.waiting.length := List.length_pos_of_ne_nil hne
  have hlt : srv.nextPos < srv.waiting.length := by
    rw [srv.nextPos_of_position]
    split_ifs <;> omega
  refine ⟨srv.waiting.get ⟨srv.nextPos, hlt⟩, List.getElem?_eq_getElem hlt, ?_⟩
  unfold popWorker
  split
  · next hw => exact absurd (ht.symm.trans hw) (by decide)
  · rw [if_neg hne, if_neg (cursor_eq_some hcur).1, List.getElem?_eq_getElem hlt]
    rfl

theorem popWorker_outOfRange (ht : srv.type = serviceDoNotWaitResponse) (hne : srv.waiting ≠ [])
    (h : ¬ srv.InRange) : srv.popWorker = .error .cursorOutOfRange := by
  rw [popWorker, ht]
  dsimp only
  rw [if_neg hne]
  split_ifs with hd
  · rfl
  · have hlt : srv.waiting.length < srv.position := by
      by_contra hle
      exact h ⟨srv.position, if_neg hd, not_lt.mp hle⟩
    have hge : srv.waiting.length ≤ srv.nextPos := by
      rw [srv.nextPos_of_position, if_neg hlt.ne']
      exact hlt.le
    rw [List.getElem?_eq_none hge]

theorem popWorker_waitResponse (ht : srv.type = serviceWaitResponse) (hne : srv.waiting ≠ []) :
    ∃ w, srv.popWorker = .ok (some w, { srv with waiting := srv.waiting.tail }) := by
  rw [popWorker, ht]
  cases hw : srv.waiting with
  | nil => exact absurd hw hne
  | cons w rest => exact ⟨w, rfl⟩

/-- One turn of the loop: no worker is left, the position is of no use, or a worker gets the
request and the loop goes on with the service that `pop_worker` leaves. -/
theorem turn (srv : Service) (expiry : Frame → Int) (clk : ℕ → Int) :
    (srv.hasActivedWorker expiry (clk 0)).waiting = [] ∨
    (srv.hasActivedWorker expiry (clk 0)).waiting ≠ [] ∧
      (srv.hasActivedWorker expiry (clk 0)).popWorker = .error .cursorOutOfRange ∧
      (∀ k, ¬ srv.CursorFits expiry (k + 1) clk) ∨
    ∃ w next, (srv.hasActivedWorker expiry (clk 0)).waiting ≠ [] ∧
      (srv.hasActivedWorker expiry (clk 0)).popWorker = .ok (some w, next) ∧
      (∀ k, srv.CursorFits expiry (k + 1) clk ↔
        next.CursorFits expiry k fun i => clk (i + 1)) ∧
      ∀ k, liveCounts srv.type expiry (k + 1) clk srv.waiting =
        (srv.hasActivedWorker expiry (clk 0)).waiting.length ::
          liveCounts next.type expiry k (fun i => clk (i + 1)) next.waiting := by
  obtain ⟨live, hlive⟩ : ∃ live, live = srv.hasActivedWorker expiry (clk 0) := ⟨_, rfl⟩
  have htype : live.type = srv.type := by rw [hlive]; rfl
  have hcursor : live.cursor = srv.cursor := by rw [hlive]; rfl
  have hcounts : ∀ k, liveCounts srv.type expiry (k + 1) clk srv.waiting =
      live.waiting.length :: liveCounts srv.type expiry k (fun i => clk (i + 1))
        (remaining srv.type live.waiting) := by
    intro k
    rw [hlive]
    rfl
  rw [← hlive]
  by_cases hne : live.waiting = []
  · exact Or.inl hne
  have hpos : live.waiting.length ≠ 0 := fun h => hne (List.length_eq_zero_iff.mp h)
  right
  cases ht : srv.type with
  | serviceWaitResponse =>
    obtain ⟨w, hpop⟩ := popWorker_waitResponse (htype.trans ht) hne
    have hnot : ∀ k, srv.CursorFits expiry k clk := by
      intro k h
      rw [ht] at h
      cases h
    refine Or.inr ⟨w, _, hne, hpop, fun k => iff_of_true (hnot _) ?_, fun k => ?_⟩
    · intro h
      exact absurd (h.symm.trans (htype.trans ht)) (by decide)
    · have hk := hcounts k
      rw [ht] at hk
      dsimp only
      rw [hk, htype, ht]
      rfl
  | serviceDoNotWaitResponse =>
    by_cases hin : live.InRange
    · obtain ⟨w, -, hpop⟩ := popWorker_doNotWait (htype.trans ht) hne hin
      obtain ⟨hcur, hle⟩ := hin.position
      refine Or.inr ⟨w, _, hne, hpop, fun k => ?_, fun k => ?_⟩
      · have hnext : live.advance.type = serviceDoNotWaitResponse := htype.trans ht
        unfold CursorFits
        rw [cursor_advance, ← hcursor, hcur, hcounts, hnext, ht]
        constructor
        · intro h _
          exact ((h rfl).resolve_left hpos).2
        · intro h _
          exact Or.inr ⟨hle, h rfl⟩
      · have hnext : live.advance.type = serviceDoNotWaitResponse := htype.trans ht
        have hk := hcounts k
        rw [ht] at hk
        rw [hk, hnext]
        rfl
    · refine Or.inl ⟨hne, popWorker_outOfRange (htype.trans ht) hne hin, fun k h => hin ?_⟩
      have hfits := h ht
      rw [hcounts, ← hcursor] at hfits
      cases hc : live.cursor with
      | none =>
        rw [hc] at hfits
        exact absurd hfits hpos
      | some pos =>
        rw [hc] at hfits
        exact ⟨pos, hc, (hfits.resolve_left hpos).1⟩

theorem cursorFits_of_noWorker (h : (srv.hasActivedWorker expiry (clk 0)).waiting = []) (k : ℕ) :
    srv.CursorFits expiry k clk := by
  intro _
  cases k with
  | zero => cases srv.cursor <;> trivial
  | succ k =>
    have hzero : (srv.hasActivedWorker expiry (clk 0)).waiting.length = 0 := by rw [h]; rfl
    rw [liveCounts]
    exact hzero.symm ▸ fits_zero _ _

end Service

theorem bind_pure_eq_error {α β : Type} {x : Result α} {g : α → β} {f : Fault} :
    (do let a ← x; return g a) = .error f ↔ x = .error f := by
  cases x with
  | error e =>
    rw [error_bind]
    exact ⟨fun h => congrArg _ (Except.error.inj h), fun h => congrArg _ (Except.error.inj h)⟩
  | ok a => exact iff_of_false nofun nofun

theorem dispatchLoop_of_popWorker {expiry : Frame → Int} {msg : Zmsg} {rest : List Zmsg}
    {clk : ℕ → Int} {srv next : Service} {w : Frame}
    (hne : (srv.hasActivedWorker expiry (clk 0)).waiting ≠ [])
    (hpop : (srv.hasActivedWorker expiry (clk 0)).popWorker = .ok (some w, next)) :
    dispatchLoop expiry (msg :: rest) clk srv =
      if Sendable msg then do
        let r ← dispatchLoop expiry rest (fun i => clk (i + 1)) next
        return (r.1, ⟨srv.name, srv.serial, w, msg, (srv.hasActivedWorker expiry (clk 0)).waiting,
          expiry w, clk 0⟩ :: r.2)
      else .error .assertion := by
  simp only [dispatchLoop]
  rw [if_neg hne, hpop, ok_bind]
  dsimp only
  split_ifs with hs
  · rw [send, if_pos (sendable_workerFrames.mpr hs), ok_bind]
  · rw [send, if_neg (mt sendable_workerFrames.mp hs), error_bind]

/-- The position is used outside the list exactly when it does not fit. -/
theorem dispatchLoop_outOfRange_iff (expiry : Frame → Int) (reqs : List Zmsg) (clk : ℕ → Int)
    (srv : Service) : dispatchLoop expiry reqs clk srv = .error .cursorOutOfRange ↔
      ¬ srv.CursorFits expiry (tried reqs).length clk := by
  induction reqs generalizing clk srv with
  | nil =>
    refine iff_of_false (by simp [dispatchLoop]) (not_not.mpr fun _ => ?_)
    cases srv.cursor <;> trivial
  | cons msg rest ih =>
    obtain hnil | ⟨hne, hpop, hnot⟩ | ⟨w, next, hne, hpop, hfits, -⟩ := srv.turn expiry clk
    · refine iff_of_false ?_ (not_not.mpr (Service.cursorFits_of_noWorker hnil _))
      simp only [dispatchLoop]
      rw [if_pos hnil]
      simp
    · refine iff_of_true ?_ (hnot _)
      simp only [dispatchLoop]
      rw [if_neg hne, hpop, error_bind]
    · rw [dispatchLoop_of_popWorker hne hpop, tried, List.length_cons, hfits]
      split_ifs with hs
      · exact bind_pure_eq_error.trans (ih _ next)
      · refine iff_of_false (by simp) (not_not.mpr fun _ => ?_)
        cases next.cursor <;> trivial

/-- `send` asserts wrong exactly when the loop gives a worker a request that cannot be sent. -/
theorem dispatchLoop_assertion_iff (expiry : Frame → Int) (reqs : List Zmsg) (clk : ℕ → Int)
    (srv : Service) : dispatchLoop expiry reqs clk srv = .error .assertion ↔
      ∃ i msg, reqs[i]? = some msg ∧ ¬ Sendable msg ∧ srv.Serves expiry i clk := by
  induction reqs generalizing clk srv with
  | nil => exact iff_of_false (by simp [dispatchLoop]) (by simp)
  | cons msg rest ih =>
    obtain hnil | ⟨hne, hpop, hnot⟩ | ⟨w, next, hne, hpop, hfits, hcounts⟩ := srv.turn expiry clk
    · refine iff_of_false ?_ ?_
      · simp only [dispatchLoop]
        rw [if_pos hnil]
        simp
      · rintro ⟨i, -, -, -, hzero, -⟩
        have hlength : (srv.hasActivedWorker expiry (clk 0)).waiting.length = 0 := by rw [hnil]; rfl
        exact hzero (hlength ▸ List.mem_cons_self)
    · refine iff_of_false ?_ ?_
      · simp only [dispatchLoop]
        rw [if_neg hne, hpop, error_bind]
        simp
      · rintro ⟨i, -, -, -, -, hfits⟩
        exact hnot i hfits
    · have hpos : 0 ≠ (srv.hasActivedWorker expiry (clk 0)).waiting.length := fun h =>
        hne (List.length_eq_zero_iff.mp h.symm)
      rw [dispatchLoop_of_popWorker hne hpop]
      split_ifs with hs
      · refine bind_pure_eq_error.trans ((ih _ next).trans ?_)
        have hnext : ∀ i, srv.Serves expiry (i + 1) clk ↔
            next.Serves expiry i fun i => clk (i + 1) := by
          intro i
          rw [Service.Serves, Service.Serves, hcounts, hfits, List.mem_cons, not_or,
            and_iff_right hpos]
        constructor
        · rintro ⟨i, m, hi, hm, h⟩
          exact ⟨i + 1, m, hi, hm, (hnext i).mpr h⟩
        · rintro ⟨_ | i, m, hi, hm, h⟩
          · exact absurd (Option.some.inj hi ▸ hs) hm
          · exact ⟨i, m, hi, hm, (hnext i).mp h⟩
      · refine iff_of_true rfl ⟨0, msg, rfl, hs, ?_, ?_⟩
        · rw [hcounts]
          exact List.not_mem_cons_of_ne_of_not_mem hpos List.not_mem_nil
        · refine (hfits 0).mpr fun _ => ?_
          cases next.cursor <;> trivial

theorem dispatchLoop_error {expiry : Frame → Int} {reqs : List Zmsg} {clk : ℕ → Int}
    {srv : Service} {f : Fault} (h : dispatchLoop expiry reqs clk srv = .error f) :
    f = .cursorOutOfRange ∨ f = .assertion := by
  induction reqs generalizing clk srv with
  | nil => cases h
  | cons msg rest ih =>
    obtain hnil | ⟨hne, hpop, -⟩ | ⟨w, next, hne, hpop, -⟩ := srv.turn expiry clk
    · simp only [dispatchLoop] at h
      rw [if_pos hnil] at h
      cases h
    · simp only [dispatchLoop] at h
      rw [if_neg hne, hpop, error_bind] at h
      exact Or.inl (Except.error.inj h).symm
    · rw [dispatchLoop_of_popWorker hne hpop] at h
      split_ifs at h
      · exact ih (bind_pure_eq_error.mp h)
      · exact Or.inr (Except.error.inj h).symm

namespace Broker
variable {b b' : Broker}

def SentToLive (b : Broker) : Prop :=
  ∀ d, Action.request d ∈ b.log → d.worker ∈ d.waiting ∧ ¬ d.expiry < d.clock

/-- `pop_worker` dereferences no position outside the list while the message is processed,
and every REQUEST goes to a worker that is waiting and has not expired. -/
def PicksLive (b : Broker) (r : Received) : Prop :=
  b.recv r ≠ .error .cursorOutOfRange ∧ ∀ b', b.recv r = .ok b' → b'.SentToLive

def PositionFits (b : Broker) (r : Received) : Prop :=
  ∀ b₁ call p srv, b.accept r = .ok (b₁, some call) → call.service = some p →
    b₁.deref p = .ok srv →
      srv.CursorFits b₁.expiry (tried (srv.requests ++ call.msg.toList)).length
        fun i => r.clock (i + 1)

theorem sentToLive_serviceDispatch {call : DispatchCall} {clk : ℕ → Int} (hb : b.SentToLive)
    (h : b.serviceDispatch call clk = .ok b') : b'.SentToLive := by
  obtain ⟨p, srv, last, sent, -, -, hloop, rfl⟩ := serviceDispatch_eq_ok h
  have hd := dispatchLoop_spec hloop
  intro d hmem
  obtain hold | hnew := List.mem_append.mp hmem
  · exact hb d hold
  · obtain hq | hs := List.mem_append.mp hnew
    · simp at hq
    · obtain ⟨d', hd', heq⟩ := List.mem_map.mp hs
      obtain rfl := Action.request.inj heq
      exact ⟨hd.worker d' hd', (hd.alive d' hd').2⟩

theorem Keeps.sentToLive (h : b.Keeps b') (hb : b.SentToLive) : b'.SentToLive := by
  intro d hmem
  obtain ⟨frames, hlog, -⟩ := h.log
  rw [hlog] at hmem
  obtain hold | hnew := List.mem_append.mp hmem
  · exact hb d hold
  · simp at hnew

theorem sentToLive_recv {r : Received} (hb : b.SentToLive) (h : b.recv r = .ok b') :
    b'.SentToLive := by
  obtain ⟨⟨b₁, call⟩, hacc, hd⟩ := bind_eq_ok.mp h
  have hb₁ := (accepted_of_accept hacc).keeps.sentToLive hb
  cases call with
  | none => exact Except.ok.inj hd ▸ hb₁
  | some call => exact sentToLive_serviceDispatch hb₁ hd

theorem step_eq_ok {r : Received} (h : b.step r = some b') : b.recv r = .ok b' := by
  unfold step at h
  cases hr : b.recv r with
  | error f => simp [hr, Except.toOption] at h
  | ok c => simpa [hr, Except.toOption] using h

theorem serviceDispatch_fault_iff {call : DispatchCall} {clk : ℕ → Int} :
    b.serviceDispatch call clk = .error .cursorOutOfRange ↔
      ∃ p srv, call.service = some p ∧ b.deref p = .ok srv ∧
        ¬ srv.CursorFits b.expiry (tried (srv.requests ++ call.msg.toList)).length clk := by
  unfold serviceDispatch
  cases hp : call.service with
  | none => simp
  | some p =>
    dsimp only
    cases hd : b.deref p with
    | error f =>
      have hne : f ≠ .cursorOutOfRange := fun h => deref_ne_fault b p (h ▸ hd)
      rw [error_bind]
      refine iff_of_false (fun h => hne (Except.error.inj h)) ?_
      rintro ⟨q, srv, hq, hd', -⟩
      obtain rfl := Option.some.inj hq
      exact absurd (hd.symm.trans hd') (by simp)
    | ok srv =>
      have hloop := dispatchLoop_outOfRange_iff b.expiry (srv.requests ++ call.msg.toList) clk srv
      rw [ok_bind]
      refine bind_pure_eq_error.trans (hloop.trans ⟨fun h => ⟨p, srv, rfl, hd, h⟩, ?_⟩)
      rintro ⟨q, srv', hq, hd', hfits⟩
      obtain rfl := Option.some.inj hq
      obtain rfl := Except.ok.inj (hd.symm.trans hd')
      exact hfits

theorem picksLive_iff {r : Received} (hb : b.SentToLive) : b.PicksLive r ↔ b.PositionFits r := by
  have hlive : ∀ b', b.recv r = .ok b' → b'.SentToLive := fun b' h => sentToLive_recv hb h
  rw [PicksLive, and_iff_left hlive, ← not_iff_not, not_not]
  unfold recv
  cases hacc : b.accept r with
  | error f =>
    have hne : f ≠ .cursorOutOfRange := fun h => accept_ne_fault b r (h ▸ hacc)
    simp [error_bind, hne, PositionFits, hacc]
  | ok res =>
    obtain ⟨b₁, call⟩ := res
    rw [ok_bind]
    cases call with
    | none => simp [dispatchPending, PositionFits, hacc]
    | some call =>
      refine serviceDispatch_fault_iff.trans ?_
      simp [PositionFits, hacc]

/-- Along a run from the empty broker every REQUEST goes to a waiting worker that has not
expired, by a position inside the list, exactly as long as at each dispatch the remembered
position fits the workers still alive. -/
theorem picksLive_run_iff (rs : List Received) :
    Run.EachEvent step PicksLive initial rs ↔ Run.EachEvent step PositionFits initial rs :=
  Run.eachEvent_congr (fun _ _ _ hb h => sentToLive_recv hb (step_eq_ok h))
    (fun _ _ hb => picksLive_iff hb) (by simp [SentToLive, initial]) rs

/-- Two workers of the service `a` have each had a request, so the position is past both;
then one disconnects, and the next request dereferences position 2 of a list of one. -/
theorem not_picksLive_after_disconnect :
    ¬ Run.EachEvent step PicksLive initial
      [⟨[[119, 49], [], mdpwWorker, mdpwReady, [97], []], fun _ => 0⟩,
       ⟨[[119, 50], [], mdpwWorker, mdpwReady, [97], []], fun _ => 0⟩,
       ⟨[[103], [], mdpcClient, [97], [65]], fun _ => 0⟩,
       ⟨[[103], [], mdpcClient, [97], [66]], fun _ => 0⟩,
       ⟨[[119, 50], [], mdpwWorker, mdpwDisconnect], fun _ => 0⟩,
       ⟨[[103], [], mdpcClient, [97], [67]], fun _ => 0⟩] := by
  rintro ⟨-, h₁⟩
  obtain ⟨-, h₂⟩ := h₁ _ rfl
  obtain ⟨-, h₃⟩ := h₂ _ rfl
  obtain ⟨-, h₄⟩ := h₃ _ rfl
  obtain ⟨-, h₅⟩ := h₄ _ rfl
  obtain ⟨⟨hsafe, -⟩, -⟩ := h₅ _ rfl
  exact hsafe rfl

end Broker

end IceBridge.Router
