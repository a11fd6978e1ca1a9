import IceBridge.Gateway.Handover
import Mathlib.Data.List.Nodup

/-! The pass of `HeartCheck` over the table of the players' handlers. It erases the entries of the
silent ones while an iterator stands on them. -/

namespace IceBridge.Gateway

inductive HeartFault
  | nullHandler
  /-- The entry of the player is used after it has been erased. -/
  | erased (uuid : UInt32)

namespace Logins

def entry (s : Logins) (uuid : UInt32) : Except HeartFault (Option ℕ) :=
  match s.uuidHandler uuid with
  | some value => .ok value
  | none => .error (.erased uuid)

end Logins

def deref : Option ℕ → Except HeartFault ℕ
  | some h => .ok h
  | none => .error .nullHandler

/-- The table during the pass, and the handlers whose last activity has been looked at. -/
structure HeartPass where
  logins : Logins
  examined : List ℕ := []

/-- One round, from the entry under the iterator to the next one. `const_pair value` is a copy of
the entry, `const_pair& value` is the entry. -/
def HeartPass.round (copy : Bool) (now : Int) (p : HeartPass) (uuid : UInt32) :
    Except HeartFault HeartPass := do
  let value ← p.logins.entry uuid
  let p ←
    if value.isSome then do
      let h ← deref value
      let s := p.logins.heartCheck uuid now
      if copy then
        -- the buildings of the handler, which the copy keeps
        let _ ← deref value
      else if p.logins.expired now h then
        -- the use count is printed
        let _ ← s.entry uuid
      .ok { logins := s, examined := p.examined ++ [h] }
    else .ok p
  -- the iterator goes on from where it stands
  let _ ← p.logins.entry uuid
  .ok p

structure Gate where
  logins : Logins := {}
  curCount : ℕ := 0

inductive GateEvent
  | session (e : LoginEvent)
  /-- A call of `HeartCheck`, which finds the entries in the order `order`. -/
  | tick (order : List UInt32) (now : Int)

namespace Gate

def heartCheck (g : Gate) (order : List UInt32) (now : Int) : Except HeartFault HeartPass :=
  order.foldlM (HeartPass.round (decide (200 ≤ g.curCount + 1)) now) { logins := g.logins }

def step (accounts : Accounts) (g : Gate) : GateEvent → Option Gate
  | .session (.heartCheck _ _) => none
  | .session e => (g.logins.step accounts e).map fun s => { g with logins := s }
  | .tick order now =>
    match g.heartCheck order now with
    | .ok p => some { logins := p.logins, curCount := if 200 ≤ g.curCount + 1 then 0 else g.curCount + 1 }
    | .error _ => none

end Gate

namespace Logins
variable {s t : Logins} {now : Int} {uuid : UInt32} {h : ℕ}

structure Lists (s : Logins) (order : List UInt32) : Prop where
  nodup : order.Nodup
  mem : ∀ uuid, uuid ∈ order ↔ (s.uuidHandler uuid).isSome = true

def Quiet (s : Logins) (now : Int) : Prop :=
  ∀ uuid h, s.uuidHandler uuid = some (some h) → ¬ s.expired now h

/-- What a tick is for: each registered handler is looked at once, those that have been silent for
too long are asked to close and leave the table, and nothing else changes. -/
structure Checked (s : Logins) (now : Int) (p : HeartPass) : Prop where
  once : p.examined.Nodup
  examined : ∀ h, h ∈ p.examined ↔ ∃ uuid, s.uuidHandler uuid = some (some h)
  removed : ∀ uuid h, s.uuidHandler uuid = some (some h) →
    p.logins.uuidHandler uuid = if s.expired now h then none else some (some h)
  closed : ∀ uuid h, s.uuidHandler uuid = some (some h) → p.logins.handler h =
    if s.expired now h then Handler.close { s.handler h with isClientOff := false }
    else s.handler h
  others : (∀ uuid, (∀ h, s.uuidHandler uuid ≠ some (some h)) →
      p.logins.uuidHandler uuid = s.uuidHandler uuid) ∧
    ∀ h, (∀ uuid, s.uuidHandler uuid ≠ some (some h)) → p.logins.handler h = s.handler h

theorem heartCheck_of_quiet (hh : s.uuidHandler uuid = some (some h))
    (hquiet : ¬ s.expired now h) : s.heartCheck uuid now = s := by
  simp [heartCheck, hh, hquiet]

theorem entry_heartCheck (hh : s.uuidHandler uuid = some (some h)) (hexpired : s.expired now h) :
    (s.heartCheck uuid now).entry uuid = .error (.erased uuid) := by
  simp [heartCheck, hh, hexpired, entry]

end Logins

namespace HeartPass
variable {p q : HeartPass} {now : Int} {copy : Bool} {uuid : UInt32} {h : ℕ}

theorem round_of_null (hnull : p.logins.uuidHandler uuid = some none) :
    p.round copy now uuid = .ok p := by
  simp [round, Logins.entry, hnull, bind, Except.bind]

theorem round_of_quiet (hh : p.logins.uuidHandler uuid = some (some h))
    (hquiet : ¬ p.logins.expired now h) :
    p.round copy now uuid = .ok { p with examined := p.examined ++ [h] } := by
  cases copy <;>
    simp [round, Logins.entry, deref, hh, hquiet, Logins.heartCheck_of_quiet hh hquiet, bind,
      Except.bind]

theorem round_of_expired (hh : p.logins.uuidHandler uuid = some (some h))
    (hexpired : p.logins.expired now h) :
    p.round copy now uuid = .error (.erased uuid) := by
  have hentry : p.logins.entry uuid = .ok (some h) := by simp [Logins.entry, hh]
  have hgone := Logins.entry_heartCheck hh hexpired
  -- at the print of the use count, or at the end of the round
  cases copy <;> simp [round, hentry, deref, hexpired, hgone, bind, Except.bind]

theorem round_ok (hround : p.round copy now uuid = .ok q) : q.logins = p.logins ∧
    ∀ h, p.logins.uuidHandler uuid = some (some h) → ¬ p.logins.expired now h := by
  cases hvalue : p.logins.uuidHandler uuid with
  | none => simp [round, Logins.entry, hvalue, bind, Except.bind] at hround
  | some value =>
    cases value with
    | none =>
      rw [round_of_null hvalue] at hround
      cases hround
      exact ⟨rfl, fun h hh => by simp at hh⟩
    | some h =>
      by_cases hexpired : p.logins.expired now h
      · rw [round_of_expired hvalue hexpired] at hround
        cases hround
      · rw [round_of_quiet hvalue hexpired] at hround
        cases hround
        refine ⟨rfl, fun h' hh => ?_⟩
        obtain rfl := Option.some.inj (Option.some.inj hh)
        exact hexpired

/-- A pass that gets through has met no silent handler. -/
theorem foldlM_ok {order : List UInt32} (hpass : order.foldlM (round copy now) p = .ok q) :
    q.logins = p.logins ∧ ∀ uuid ∈ order, ∀ h, p.logins.uuidHandler uuid = some (some h) →
      ¬ p.logins.expired now h := by
  induction order generalizing p with
  | nil =>
    cases hpass
    exact ⟨rfl, fun uuid huuid => absurd huuid List.not_mem_nil⟩
  | cons uuid order ih =>
    rw [List.foldlM_cons] at hpass
    cases hround : p.round copy now uuid with
    | error fault =>
      rw [hround] at hpass
      cases hpass
    | ok p' =>
      rw [hround] at hpass
      obtain ⟨hsame, hquiet⟩ := round_ok hround
      obtain ⟨hlogins, hrest⟩ := ih hpass
      rw [hsame] at hlogins hrest
      exact ⟨hlogins, List.forall_mem_cons.mpr ⟨hquiet, hrest⟩⟩

theorem foldlM_of_quiet {order : List UInt32} (hquiet : p.logins.Quiet now)
    (hthere : ∀ uuid ∈ order, (p.logins.uuidHandler uuid).isSome = true) :
    order.foldlM (round copy now) p = .ok { p with
      examined := p.examined ++ order.filterMap fun uuid => (p.logins.uuidHandler uuid).join } := by
  induction order generalizing p with
  | nil => simp [pure, Except.pure]
  | cons uuid order ih =>
    obtain ⟨value, hvalue⟩ := Option.isSome_iff_exists.mp (hthere uuid List.mem_cons_self)
    have hrest : ∀ uuid ∈ order, (p.logins.uuidHandler uuid).isSome = true :=
      fun v hv => hthere v (List.mem_cons_of_mem uuid hv)
    rw [List.foldlM_cons]
    cases value with
    | none =>
      rw [round_of_null hvalue]
      refine (ih hquiet hrest).trans ?_
      simp [hvalue]
    | some h =>
      rw [round_of_quiet hvalue (hquiet uuid h hvalue)]
      refine (ih (p := { p with examined := p.examined ++ [h] }) hquiet hrest).trans ?_
      simp [hvalue]

end HeartPass

namespace Logins
variable {s t : Logins} {accounts : Accounts} {h : ℕ}

structure Owned (s : Logins) : Prop where
  registered : ∀ uuid h, s.uuidHandler uuid = some (some h) →
    (s.handler h).playerUuid = uuid ∧ (s.handler h).loginStatus = true ∧
      (s.handler h).life ≠ .fresh
  waits : ∀ a w, (s.handler a).offlineHandler = some w →
    (s.handler w).loginStatus = true ∧ (s.handler w).life ≠ .fresh

theorem owned_initial : ({} : Logins).Owned := by
  constructor <;> simp

theorem Owned.setHandler {x : Handler} (hs : s.Owned)
    (hkept : (s.handler h).loginStatus = true → (s.handler h).life ≠ .fresh →
      x.playerUuid = (s.handler h).playerUuid ∧ x.loginStatus = true ∧ x.life ≠ .fresh)
    (hoffline : ∀ w, x.offlineHandler = some w →
      (s.handler w).loginStatus = true ∧ (s.handler w).life ≠ .fresh) :
    (s.setHandler h x).Owned := by
  constructor
  · intro uuid k hk
    obtain ⟨huuid, hlogin, hlife⟩ := hs.registered uuid k hk
    rw [setHandler_handler]
    split_ifs with hkh
    · rw [hkh] at huuid hlogin hlife
      obtain ⟨hplayer, hlogin', hlife'⟩ := hkept hlogin hlife
      exact ⟨hplayer.trans huuid, hlogin', hlife'⟩
    · exact ⟨huuid, hlogin, hlife⟩
  · intro a w haw
    have hwaits : (s.handler w).loginStatus = true ∧ (s.handler w).life ≠ .fresh := by
      rw [setHandler_handler] at haw
      split_ifs at haw
      · exact hoffline w haw
      · exact hs.waits a w haw
    rw [setHandler_handler]
    split_ifs with hwh
    · rw [hwh] at hwaits
      exact (hkept hwaits.1 hwaits.2).2
    · exact hwaits

theorem Owned.setEntry {uuid : UInt32} {entry : Option (Option ℕ)} (hs : s.Owned)
    (hentry : ∀ k, entry = some (some k) → (s.handler k).playerUuid = uuid ∧
      (s.handler k).loginStatus = true ∧ (s.handler k).life ≠ .fresh) :
    (s.setEntry uuid entry).Owned := by
  refine ⟨fun v k hv => ?_, hs.waits⟩
  rw [setEntry_uuidHandler] at hv
  split_ifs at hv with hvu
  · rw [hvu]
    exact hentry k hv
  · exact hs.registered v k hv

theorem Owned.setEntry_none {uuid : UInt32} (hs : s.Owned) : (s.setEntry uuid none).Owned :=
  hs.setEntry fun _ hnone => absurd hnone.symm (Option.some_ne_none _)

theorem Owned.loginHandle2 (hs : s.Owned) (hlife : (s.handler h).life ≠ .fresh) :
    (s.loginHandle2 h).Owned := by
  have hset : (s.setHandler h { s.handler h with loginStatus := true, loggedIn := true }).Owned :=
    hs.setHandler (fun _ hlife => ⟨rfl, rfl, hlife⟩) fun w hw => hs.waits h w hw
  have hentry : s.loginHandle2 h = (s.setHandler h { s.handler h with
      loginStatus := true, loggedIn := true }).setEntry (s.handler h).playerUuid
        (some (some h)) := rfl
  rw [hentry]
  refine hset.setEntry fun k hk => ?_
  obtain rfl := Option.some.inj (Option.some.inj hk)
  rw [setHandler_handler, if_pos rfl]
  exact ⟨rfl, rfl, hlife⟩

theorem close_fields (x : Handler) : x.close.playerUuid = x.playerUuid ∧
    x.close.loginStatus = x.loginStatus ∧ x.close.life = x.life ∧
    x.close.offlineHandler = x.offlineHandler := by
  unfold Handler.close
  split_ifs <;> exact ⟨rfl, rfl, rfl, rfl⟩

theorem Owned.loginHandle (hs : s.Owned) (hlogin : (s.handler h).loginStatus = true)
    (hlife : (s.handler h).life ≠ .fresh) : (s.loginHandle h).Owned := by
  unfold Logins.loginHandle
  split
  · next g hg =>
    obtain ⟨huuid, hstatus, hlives, hoffline⟩ :=
      close_fields { s.handler g with isClientOff := false, offlineHandler := some h }
    refine (hs.setHandler (fun hglogin hglife => ?_) fun w hw => ?_).setEntry_none
    · exact ⟨huuid, hstatus.trans hglogin, hlives.symm ▸ hglife⟩
    · obtain rfl := Option.some.inj (hoffline.symm.trans hw)
      exact ⟨hlogin, hlife⟩
  · exact hs.loginHandle2 hlife

theorem Owned.loginRequest {account passwd : String} (hs : s.Owned)
    (hopen : (s.handler h).life = .opened) : (s.loginRequest accounts h account passwd).Owned := by
  unfold Logins.loginRequest
  split_ifs with hlogin
  · exact hs
  · split
    · exact hs
    · next uuid _ =>
      -- no entry has the handler yet, so it may still get its player
      have hset : (s.setHandler h { s.handler h with
          playerUuid := uuid, loginStatus := true }).Owned :=
        hs.setHandler (fun hin => absurd hin hlogin) fun w hw => hs.waits h w hw
      exact hset.loginHandle (by simp) (by simp [hopen])

theorem Owned.dispose (hs : s.Owned) : (s.dispose h).Owned := by
  refine hs.setHandler (fun hlogin _ => ⟨rfl, hlogin, ?_⟩) fun w hw => ?_
  · exact fun hlife => Life.noConfusion hlife
  · exact absurd hw.symm (Option.some_ne_none w)

theorem Owned.onClose (hs : s.Owned) : (s.onClose h).Owned := by
  have herased : (if (s.uuidHandler (s.handler h).playerUuid).isSome ∧ (s.handler h).isClientOff
      then s.setEntry (s.handler h).playerUuid none else s).Owned := by
    split_ifs
    · exact hs.setEntry_none
    · exact hs
  unfold Logins.onClose
  dsimp only
  split
  · next w hw =>
    -- the handler that has waited takes the entry
    refine herased.dispose.loginHandle2 ?_
    have hlife := (hs.waits h w hw).2
    by_cases hwh : w = h
    · simp [Logins.dispose, hwh]
    · split_ifs <;> simpa [Logins.dispose, hwh] using hlife
  · exact herased.dispose

theorem Owned.setLastTime (hs : s.Owned) (now : Int) :
    (s.setHandler h { s.handler h with lastTime := now }).Owned :=
  hs.setHandler (fun hlogin hlife => ⟨rfl, hlogin, hlife⟩) fun w hw => hs.waits h w hw

theorem Owned.connect (hs : s.Owned) (hfresh : (s.handler h).life = .fresh) :
    (s.setHandler h { life := .opened }).Owned :=
  hs.setHandler (fun _ hlife => absurd hfresh hlife) fun w hw =>
    absurd hw.symm (Option.some_ne_none w)

theorem Owned.heartCheck (hs : s.Owned) (uuid : UInt32) (now : Int) :
    (s.heartCheck uuid now).Owned := by
  unfold Logins.heartCheck
  split
  · next h hh =>
    split_ifs
    · obtain ⟨huuid, hstatus, hlives, hoffline⟩ :=
        close_fields { s.handler h with isClientOff := false }
      refine (hs.setHandler (fun hlogin hlife => ?_) fun w hw => ?_).setEntry_none
      · exact ⟨huuid, hstatus.trans hlogin, hlives.symm ▸ hlife⟩
      · exact hs.waits h w (hoffline.symm.trans hw)
    · exact hs
  · exact hs

theorem Owned.step {e : LoginEvent} (hs : s.Owned) (ht : s.step accounts e = some t) :
    t.Owned := by
  cases e with
  | connect h =>
    simp only [Logins.step] at ht
    split_ifs at ht with hfresh
    exact Option.some.inj ht ▸ hs.connect hfresh
  | login h account passwd =>
    simp only [Logins.step] at ht
    split_ifs at ht with hopen
    exact Option.some.inj ht ▸ hs.loginRequest hopen
  | message h now =>
    simp only [Logins.step] at ht
    split_ifs at ht
    · exact Option.some.inj ht ▸ hs.setLastTime now
    · exact Option.some.inj ht ▸ hs
  | heartBeat h now =>
    simp only [Logins.step] at ht
    split_ifs at ht
    exact Option.some.inj ht ▸ hs.setLastTime now
  | onClose h =>
    simp only [Logins.step] at ht
    split_ifs at ht
    exact Option.some.inj ht ▸ hs.onClose
  | heartCheck uuid now => exact Option.some.inj ht ▸ hs.heartCheck uuid now
  | reply uuid =>
    simp only [Logins.step] at ht
    split_ifs at ht
    · obtain rfl := Option.some.inj ht
      exact hs.setEntry fun k hk => absurd (Option.some.inj hk).symm (Option.some_ne_none k)
    · exact Option.some.inj ht ▸ hs

theorem Owned.checked (hs : s.Owned) {order : List UInt32} (horder : s.Lists order) {now : Int}
    (hquiet : s.Quiet now) : s.Checked now ⟨s, order.filterMap fun uuid => (s.uuidHandler uuid).join⟩ := by
  have hjoin : ∀ uuid h, (s.uuidHandler uuid).join = some h ↔ s.uuidHandler uuid = some (some h) :=
    fun uuid h => Option.join_eq_some_iff
  refine ⟨?_, fun h => ?_, fun uuid h hh => ?_, fun uuid h hh => ?_, fun _ _ => rfl, fun _ _ => rfl⟩
  · -- two entries with one handler would be of one player
    apply List.Nodup.filterMap _ horder.nodup
    intro u v h hu hv
    obtain ⟨hu, -⟩ := hs.registered u h ((hjoin u h).mp hu)
    obtain ⟨hv, -⟩ := hs.registered v h ((hjoin v h).mp hv)
    exact hu.symm.trans hv
  · rw [List.mem_filterMap]
    constructor
    · rintro ⟨uuid, -, hh⟩
      exact ⟨uuid, (hjoin uuid h).mp hh⟩
    · rintro ⟨uuid, hh⟩
      exact ⟨uuid, (horder.mem uuid).mpr (by rw [hh]; rfl), (hjoin uuid h).mpr hh⟩
  · rw [if_neg (hquiet uuid h hh)]
    exact hh
  · rw [if_neg (hquiet uuid h hh)]

end Logins

namespace Gate
variable {g t : Gate} {accounts : Accounts}

def Walks (g : Gate) : GateEvent → Prop
  | .tick order _ => g.logins.Lists order
  | _ => True

def Sound (g : Gate) : GateEvent → Prop
  | .tick order now => ∃ p, g.heartCheck order now = .ok p ∧ g.logins.Checked now p
  | _ => True

def NoneSilent (g : Gate) : GateEvent → Prop
  | .tick _ now => g.logins.Quiet now
  | _ => True

theorem heartCheck_ok {order : List UInt32} {now : Int} {p : HeartPass}
    (hp : g.heartCheck order now = .ok p) : p.logins = g.logins :=
  (HeartPass.foldlM_ok hp).1

theorem owned_step {e : GateEvent} (hg : g.logins.Owned) (ht : g.step accounts e = some t) :
    t.logins.Owned := by
  cases e with
  | tick order now =>
    simp only [step] at ht
    split at ht
    · next p hp =>
      rw [← Option.some.inj ht]
      exact (heartCheck_ok hp).symm ▸ hg
    · exact absurd ht.symm (Option.some_ne_none t)
  | session e =>
    have hsome : (g.logins.step accounts e).map (fun s => { g with logins := s }) = some t := by
      cases e with
      | heartCheck uuid now => exact absurd ht.symm (Option.some_ne_none t)
      | _ => exact ht
    obtain ⟨s, hs, rfl⟩ := Option.map_eq_some_iff.mp hsome
    exact hg.step hs

theorem sound_iff {e : GateEvent} (hg : g.logins.Owned) (hwalks : g.Walks e) :
    g.Sound e ↔ g.NoneSilent e := by
  cases e with
  | session e => exact Iff.rfl
  | tick order now =>
    constructor
    · rintro ⟨p, hp, -⟩ uuid h hh
      have huuid := (hwalks.mem uuid).mpr (by rw [hh]; rfl)
      exact (HeartPass.foldlM_ok hp).2 uuid huuid h hh
    · intro hquiet
      exact ⟨_, HeartPass.foldlM_of_quiet hquiet fun uuid huuid => (hwalks.mem uuid).mp huuid,
        hg.checked hwalks hquiet⟩

/-- Whatever logins, closes, replies and ticks there are: the ticks do what they are for exactly
as long as none of them finds a silent handler. -/
theorem ticks_sound_iff {es : List GateEvent}
    (hwalks : Run.EachEvent (step accounts) Walks {} es) :
    Run.EachEvent (step accounts) Sound {} es ↔ Run.EachEvent (step accounts) NoneSilent {} es :=
  hwalks.congr_of (I := fun g => g.logins.Owned) (fun _ _ _ hg ht => owned_step hg ht)
    (fun _ _ hg hw => sound_iff hg hw) Logins.owned_initial

def onePlayer : Accounts := ⟨fun _ _ => some 7, Accounts.seven_ne_zero⟩

def tickAt (now : Int) : List GateEvent :=
  [.session (.connect 0), .session (.login 0 "guest" "passwd"), .session (.message 0 100),
    .tick [7] now]

theorem walks_tickAt (now : Int) : Run.EachEvent (step onePlayer) Walks {} (tickAt now) := by
  refine ⟨trivial, fun t ht => ?_⟩
  obtain rfl := Option.some.inj ht
  refine ⟨trivial, fun t ht => ?_⟩
  obtain rfl := Option.some.inj ht
  refine ⟨trivial, fun t ht => ?_⟩
  obtain rfl := Option.some.inj ht
  refine ⟨⟨List.nodup_singleton 7, fun uuid => ?_⟩, fun _ _ => trivial⟩
  rw [List.mem_singleton]
  show uuid = 7 ↔ (Function.update (fun _ => none) (7 : UInt32) (some (some 0)) uuid).isSome = true
  by_cases huuid : uuid = 7 <;> simp [huuid]

theorem ticks_sound_iff_tickAt : Run.EachEvent (step onePlayer) Sound {} (tickAt 300) ↔
    Run.EachEvent (step onePlayer) NoneSilent {} (tickAt 300) :=
  ticks_sound_iff (walks_tickAt 300)

theorem not_ticks_sound_tickAt : ¬ ∀ (accounts : Accounts) (es : List GateEvent),
    Run.EachEvent (step accounts) Walks {} es → Run.EachEvent (step accounts) Sound {} es := by
  intro h
  obtain ⟨-, hrun⟩ := h onePlayer (tickAt 700) (walks_tickAt 700)
  obtain ⟨-, hrun⟩ := hrun _ rfl
  obtain ⟨-, hrun⟩ := hrun _ rfl
  obtain ⟨⟨p, hp, -⟩, -⟩ := hrun _ rfl
  have hquiet := (HeartPass.foldlM_ok hp).2 7 (List.mem_singleton_self 7) 0 rfl
  exact hquiet ⟨by decide, by decide⟩

end Gate

end IceBridge.Gateway
