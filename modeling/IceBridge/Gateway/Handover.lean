import IceBridge.Gateway.Login

/-! One live handler a player. A second login waits for the end of the first handler, whose
entry is gone at once; the table and the handlers agree as long as nothing happens to that
player or to the waiting connection in between. -/

namespace IceBridge.Gateway

namespace Handler

def Live (x : Handler) : Prop := x.life = .opened ∧ x.loggedIn = true ∧ x.closing = false

def Waits (x : Handler) : Prop := x.life = .opened ∧ x.loginStatus = true ∧ x.loggedIn = false

end Handler

namespace Logins
variable {s t : Logins} {accounts : Accounts} {h : ℕ}

@[simp] theorem setHandler_handler (x : Handler) (k : ℕ) :
    (s.setHandler h x).handler k = if k = h then x else s.handler k :=
  Function.update_apply _ _ _ _

@[simp] theorem setHandler_uuidHandler (x : Handler) :
    (s.setHandler h x).uuidHandler = s.uuidHandler := rfl

@[simp] theorem setEntry_uuidHandler (uuid : UInt32) (entry : Option (Option ℕ)) (u : UInt32) :
    (s.setEntry uuid entry).uuidHandler u = if u = uuid then entry else s.uuidHandler u :=
  Function.update_apply _ _ _ _

@[simp] theorem setEntry_handler (uuid : UInt32) (entry : Option (Option ℕ)) :
    (s.setEntry uuid entry).handler = s.handler := rfl

def Pending (s : Logins) (a w : ℕ) : Prop :=
  (s.handler a).life = .opened ∧ (s.handler a).offlineHandler = some w

theorem pending_loginHandle2 {a w : ℕ} : (s.loginHandle2 h).Pending a w ↔ s.Pending a w := by
  by_cases ha : a = h <;> simp [Pending, loginHandle2, ha]

theorem loginHandle2_playerUuid (k : ℕ) :
    ((s.loginHandle2 h).handler k).playerUuid = (s.handler k).playerUuid := by
  by_cases hk : k = h <;> simp [loginHandle2, hk]

theorem pending_dispose {a w : ℕ} : (s.dispose h).Pending a w ↔ a ≠ h ∧ s.Pending a w := by
  by_cases ha : a = h <;> simp [Pending, dispose, ha]

theorem dispose_playerUuid (k : ℕ) :
    ((s.dispose h).handler k).playerUuid = (s.handler k).playerUuid := by
  by_cases hk : k = h <;> simp [dispose, hk]

/-- At most one live handler a player, and a player's entry is an open handler of the player. -/
structure Single (s : Logins) : Prop where
  one : ∀ a b, (s.handler a).Live → (s.handler b).Live →
    (s.handler a).playerUuid = (s.handler b).playerUuid → a = b
  registered : ∀ uuid h, s.uuidHandler uuid = some (some h) →
    (s.handler h).life = .opened ∧ (s.handler h).playerUuid = uuid

structure Orderly (s : Logins) : Prop where
  fresh : ∀ h, (s.handler h).life = .fresh → s.handler h = {}
  guest : ∀ h, (s.handler h).loginStatus = false → (s.handler h).playerUuid = 0 ∧
    (s.handler h).loggedIn = false ∧ (s.handler h).closing = false ∧
    (s.handler h).isClientOff = true ∧ (s.handler h).offlineHandler = none
  player : ∀ h, (s.handler h).loginStatus = true → (s.handler h).playerUuid ≠ 0
  closing : ∀ h, (s.handler h).closing = true → (s.handler h).isClientOff = false
  registered : ∀ uuid h, s.uuidHandler uuid = some (some h) → (s.handler h).Live ∧
    (s.handler h).playerUuid = uuid ∧ (s.handler h).isClientOff = true ∧
    (s.handler h).offlineHandler = none
  live : ∀ h, (s.handler h).Live → s.uuidHandler (s.handler h).playerUuid = some (some h)
  waits : ∀ w, (s.handler w).Waits → (s.handler w).closing = false ∧
    (s.handler w).isClientOff = true ∧ (s.handler w).offlineHandler = none ∧ ∃ a, s.Pending a w
  pending : ∀ a w, s.Pending a w → (s.handler a).closing = true ∧ (s.handler w).Waits ∧
    (s.handler a).playerUuid = (s.handler w).playerUuid ∧
    ∀ h, s.uuidHandler (s.handler w).playerUuid ≠ some (some h)
  unique : ∀ a a' w w', s.Pending a w → s.Pending a' w' →
    (s.handler w).playerUuid = (s.handler w').playerUuid → a = a'

theorem Orderly.single (hs : s.Orderly) : s.Single := by
  constructor
  · intro a b ha hb huuid
    have hla := hs.live a ha
    rw [huuid, hs.live b hb] at hla
    exact (Option.some.inj (Option.some.inj hla)).symm
  · intro uuid h hreg
    obtain ⟨hlive, huuid, -⟩ := hs.registered uuid h hreg
    exact ⟨hlive.1, huuid⟩

theorem orderly_initial : ({} : Logins).Orderly := by
  constructor <;> simp [Handler.Live, Handler.Waits, Pending]

/-- No hand-over of the player is pending when a login succeeds, and no connection that waits
for a hand-over closes. -/
def Undisturbed (accounts : Accounts) (s : Logins) : LoginEvent → Prop
  | .login h account passwd => (s.handler h).loginStatus = false →
      ∀ uuid, accounts.verifyUser account passwd = some uuid →
        ∀ a w, s.Pending a w → (s.handler w).playerUuid ≠ uuid
  | .onClose h => ∀ a, ¬ s.Pending a h
  | _ => True

theorem forall_of_two {P : ℕ → Prop} (g h : ℕ) (hg : P g) (hh : P h)
    (hothers : ∀ k, k ≠ g → k ≠ h → P k) (k : ℕ) : P k := by
  by_cases hkg : k = g
  · exact hkg ▸ hg
  · by_cases hkh : k = h
    · exact hkh ▸ hh
    · exact hothers k hkg hkh

theorem forall_handler {x : Handler}
    (hhandler : ∀ k, t.handler k = if k = h then x else s.handler k)
    {P : Handler → ℕ → Prop} (hself : P x h) (hothers : ∀ k, k ≠ h → P (s.handler k) k) (k : ℕ) :
    P (t.handler k) k := by
  rw [hhandler]
  split_ifs with hk
  · rw [hk]
    exact hself
  · exact hothers k hk

structure Detached (x : Handler) : Prop where
  fresh : x.life ≠ .fresh
  guest : x.loginStatus = false → x.playerUuid = 0 ∧ x.loggedIn = false ∧ x.closing = false ∧
    x.isClientOff = true
  player : x.loginStatus = true → x.playerUuid ≠ 0
  closing : x.closing = true → x.isClientOff = false
  live : ¬ x.Live
  waits : ¬ x.Waits
  offline : x.offlineHandler = none

/-- One handler that takes part in no hand-over becomes a detached one, and loses its entry. -/
theorem Orderly.detach {x : Handler} (hs : s.Orderly) (hx : Detached x)
    (hnone : (s.handler h).offlineHandler = none) (hwaits : ∀ a, ¬ s.Pending a h)
    (hhandler : ∀ k, t.handler k = if k = h then x else s.handler k)
    (hentry : ∀ u k, t.uuidHandler u = some (some k) ↔
      s.uuidHandler u = some (some k) ∧ k ≠ h) : t.Orderly := by
  have hself : t.handler h = x := (hhandler h).trans (if_pos rfl)
  have hother : ∀ k, k ≠ h → t.handler k = s.handler k := fun k hk =>
    (hhandler k).trans (if_neg hk)
  have hpending : ∀ a w, t.Pending a w ↔ s.Pending a w := by
    intro a w
    by_cases ha : a = h
    · refine iff_of_false ?_ ?_ <;> rintro ⟨-, hoffline⟩
      · rw [ha, hself, hx.offline] at hoffline
        exact Option.some_ne_none w hoffline.symm
      · rw [ha, hnone] at hoffline
        exact Option.some_ne_none w hoffline.symm
    · rw [Pending, Pending, hother a ha]
  constructor
  case fresh =>
    refine forall_handler hhandler (P := fun y _ => y.life = .fresh → y = {}) ?_
      fun k _ => hs.fresh k
    exact fun hfresh => absurd hfresh hx.fresh
  case guest =>
    refine forall_handler hhandler (P := fun y _ => y.loginStatus = false → y.playerUuid = 0 ∧
      y.loggedIn = false ∧ y.closing = false ∧ y.isClientOff = true ∧ y.offlineHandler = none) ?_
      fun k _ => hs.guest k
    intro hguest
    obtain ⟨huuid, hlogged, hclosing, hoff⟩ := hx.guest hguest
    exact ⟨huuid, hlogged, hclosing, hoff, hx.offline⟩
  case player =>
    exact forall_handler hhandler (P := fun y _ => y.loginStatus = true → y.playerUuid ≠ 0)
      hx.player fun k _ => hs.player k
  case closing =>
    exact forall_handler hhandler (P := fun y _ => y.closing = true → y.isClientOff = false)
      hx.closing fun k _ => hs.closing k
  case registered =>
    intro uuid k hk
    obtain ⟨hreg, hkh⟩ := (hentry uuid k).mp hk
    rw [hother k hkh]
    exact hs.registered uuid k hreg
  case live =>
    refine forall_handler hhandler
      (P := fun y k => y.Live → t.uuidHandler y.playerUuid = some (some k)) ?_ ?_
    · exact fun hlive => absurd hlive hx.live
    · exact fun k hk hlive => (hentry _ k).mpr ⟨hs.live k hlive, hk⟩
  case waits =>
    refine forall_handler hhandler (P := fun y k => y.Waits → y.closing = false ∧
      y.isClientOff = true ∧ y.offlineHandler = none ∧ ∃ a, t.Pending a k) ?_ ?_
    · exact fun hwaits => absurd hwaits hx.waits
    · intro k _ hk
      obtain ⟨hclosing, hoff, hkNone, a, ha⟩ := hs.waits k hk
      exact ⟨hclosing, hoff, hkNone, a, (hpending a k).mpr ha⟩
  case pending =>
    intro a w hp
    have hold := (hpending a w).mp hp
    have hah : a ≠ h := by
      rintro rfl
      exact Option.some_ne_none w (hold.2.symm.trans hnone)
    have hwh : w ≠ h := by
      rintro rfl
      exact hwaits a hold
    rw [hother a hah, hother w hwh]
    obtain ⟨hclosing, hwait, huuid, hnot⟩ := hs.pending a w hold
    exact ⟨hclosing, hwait, huuid, fun k hk => hnot k ((hentry _ k).mp hk).1⟩
  case unique =>
    intro a a' w w' hp hp' huuid
    have hold := (hpending a w).mp hp
    have hold' := (hpending a' w').mp hp'
    have hwh : w ≠ h := by
      rintro rfl
      exact hwaits a hold
    have hwh' : w' ≠ h := by
      rintro rfl
      exact hwaits a' hold'
    rw [hother w hwh, hother w' hwh'] at huuid
    exact hs.unique a a' w w' hold hold' huuid

theorem orderly_connect (hs : s.Orderly) (hfresh : (s.handler h).life = .fresh) :
    (s.setHandler h { life := .opened }).Orderly := by
  have hinit := hs.fresh h hfresh
  have hnotOpen : (s.handler h).life ≠ .opened := fun hopen =>
    Life.noConfusion (hfresh.symm.trans hopen)
  have hx : Detached { life := .opened } := {
    fresh := fun hlife => Life.noConfusion hlife
    guest := fun _ => ⟨rfl, rfl, rfl, rfl⟩
    player := fun hlogin => Bool.noConfusion hlogin
    closing := fun hclosing => Bool.noConfusion hclosing
    live := fun hlive => Bool.noConfusion hlive.2.1
    waits := fun hwaits => Bool.noConfusion hwaits.2.1
    offline := rfl }
  refine hs.detach hx ?_ ?_ (setHandler_handler _) fun u k => (and_iff_left_of_imp ?_).symm
  · rw [hinit]
  · exact fun a hp => hnotOpen (hs.pending a h hp).2.1.1
  · rintro hreg rfl
    exact hnotOpen (hs.registered u k hreg).1.1

theorem Orderly.of_same (hs : s.Orderly) {f : ℕ → Int}
    (hhandler : ∀ k, t.handler k = { s.handler k with lastTime := f k })
    (hfresh : ∀ k, (s.handler k).life = .fresh → f k = 0)
    (hentry : ∀ u k, t.uuidHandler u = some (some k) ↔ s.uuidHandler u = some (some k)) :
    t.Orderly := by
  obtain ⟨handler, uuidHandler⟩ := t
  obtain rfl : handler = fun k => { s.handler k with lastTime := f k } := funext hhandler
  refine ⟨fun k hk => ?_, hs.guest, hs.player, hs.closing, fun u k hk => ?_, fun k hk => ?_,
    hs.waits, fun a w hp => ?_, hs.unique⟩
  · have hk : (s.handler k).life = .fresh := hk
    simp only [hs.fresh k hk, hfresh k hk]
  · exact hs.registered u k ((hentry u k).mp hk)
  · exact (hentry _ k).mpr (hs.live k hk)
  · obtain ⟨hclosing, hwaits, huuid, hnot⟩ := hs.pending a w hp
    exact ⟨hclosing, hwaits, huuid, fun h hh => hnot h ((hentry _ h).mp hh)⟩

theorem orderly_setLastTime (hs : s.Orderly) (hopen : (s.handler h).life = .opened) (now : Int) :
    (s.setHandler h { s.handler h with lastTime := now }).Orderly := by
  refine Orderly.of_same hs (f := fun k => if k = h then now else (s.handler k).lastTime)
    (fun k => ?_) (fun k hk => ?_) fun u k => Iff.rfl
  · rw [setHandler_handler]
    split_ifs with hkh
    · rw [hkh]
    · rfl
  · have hkh : k ≠ h := by
      rintro rfl
      exact absurd (hopen.symm.trans hk) (by decide)
    rw [if_neg hkh, hs.fresh k hk]

theorem loginHandle_of_registered {g : ℕ}
    (hreg : s.uuidHandler (s.handler h).playerUuid = some (some g)) :
    s.loginHandle h = (s.setHandler g (Handler.close
      { s.handler g with isClientOff := false, offlineHandler := some h })).setEntry
        (s.handler h).playerUuid none := by
  simp [loginHandle, hreg]

theorem loginHandle_of_not_registered
    (hreg : ∀ g, s.uuidHandler (s.handler h).playerUuid ≠ some (some g)) :
    s.loginHandle h = s.loginHandle2 h := by
  unfold loginHandle
  split
  · next g hg => exact absurd hg (hreg g)
  · rfl

def handOver (s : Logins) (h g : ℕ) (uuid : UInt32) : Logins :=
  ((s.setHandler h { s.handler h with playerUuid := uuid, loginStatus := true }).setHandler g
    { s.handler g with isClientOff := false, offlineHandler := some h, closing := true }).setEntry
      uuid none

theorem loginHandle_eq_handOver {g : ℕ} {uuid : UInt32} (hgh : g ≠ h)
    (hlife : (s.handler g).life = .opened) (hreg : s.uuidHandler uuid = some (some g)) :
    (s.setHandler h { s.handler h with playerUuid := uuid, loginStatus := true }).loginHandle h =
      s.handOver h g uuid := by
  rw [loginHandle_of_registered (g := g) (by simpa using hreg)]
  simp [handOver, Handler.close, hgh, hlife]

theorem pending_handOver {g : ℕ} {uuid : UInt32} (hgh : g ≠ h)
    (hnone : (s.handler h).offlineHandler = none) {a w : ℕ}
    (hp : (s.handOver h g uuid).Pending a w) : (a = g ∧ w = h) ∨ (a ≠ g ∧ s.Pending a w) := by
  obtain ⟨hlife, hoffline⟩ := hp
  by_cases ha : a = g
  · left
    simpa [handOver, ha, eq_comm] using hoffline
  · right
    have hah : a ≠ h := by
      rintro rfl
      simp [handOver, ha, hnone] at hoffline
    exact ⟨ha, by simpa [handOver, ha, hah] using hlife, by simpa [handOver, ha, hah] using hoffline⟩

theorem orderly_handOver {g : ℕ} {uuid : UInt32} (hs : s.Orderly)
    (hopen : (s.handler h).life = .opened) (hguest : (s.handler h).loginStatus = false)
    (huuid : uuid ≠ 0) (hreg : s.uuidHandler uuid = some (some g)) :
    (s.handOver h g uuid).Orderly := by
  obtain ⟨hlive, hg, hoff, hnone⟩ := hs.registered uuid g hreg
  obtain ⟨hzero, hlogged, hclosing, hclientOff, hoffline⟩ := hs.guest h hguest
  have hgh : g ≠ h := by
    rintro rfl
    exact absurd (hlogged.symm.trans hlive.2.1) (by decide)
  -- a hand-over that was pending before is one of another player
  have hother : ∀ a w, s.Pending a w → w ≠ g ∧ w ≠ h ∧ (s.handler w).playerUuid ≠ uuid := by
    intro a w hp
    obtain ⟨-, hw, -, hentry⟩ := hs.pending a w hp
    have hwu : (s.handler w).playerUuid ≠ uuid := by
      rintro rfl
      exact hentry g hreg
    refine ⟨?_, ?_, hwu⟩ <;> rintro rfl
    · exact hwu hg
    · exact absurd (hguest.symm.trans hw.2.1) (by decide)
  have hfirst : (s.handOver h g uuid).handler g =
      { s.handler g with isClientOff := false, offlineHandler := some h, closing := true } := by
    simp [handOver]
  have hsecond : (s.handOver h g uuid).handler h =
      { s.handler h with playerUuid := uuid, loginStatus := true } := by
    simp [handOver, hgh.symm]
  have hkept : ∀ k, k ≠ g → k ≠ h → (s.handOver h g uuid).handler k = s.handler k := by
    intro k hkg hkh
    simp [handOver, hkg, hkh]
  have htable : ∀ u, (s.handOver h g uuid).uuidHandler u =
      if u = uuid then none else s.uuidHandler u := fun u => setEntry_uuidHandler uuid none u
  have hwaiter : ((s.handOver h g uuid).handler h).playerUuid = uuid := by
    rw [hsecond]
  constructor
  case fresh =>
    refine forall_of_two g h ?_ ?_ fun k hkg hkh => ?_
    · rw [hfirst]
      exact fun hfresh => Life.noConfusion (hfresh.symm.trans hlive.1)
    · rw [hsecond]
      exact fun hfresh => Life.noConfusion (hfresh.symm.trans hopen)
    · rw [hkept k hkg hkh]
      exact hs.fresh k
  case guest =>
    refine forall_of_two g h ?_ ?_ fun k hkg hkh => ?_
    · rw [hfirst]
      exact fun hlogin => absurd ((hs.guest g hlogin).2.1.symm.trans hlive.2.1) (by decide)
    · rw [hsecond]
      exact fun hlogin => Bool.noConfusion hlogin
    · rw [hkept k hkg hkh]
      exact hs.guest k
  case player =>
    refine forall_of_two g h ?_ ?_ fun k hkg hkh => ?_
    · rw [hfirst]
      exact hs.player g
    · rw [hsecond]
      exact fun _ => huuid
    · rw [hkept k hkg hkh]
      exact hs.player k
  case closing =>
    refine forall_of_two g h ?_ ?_ fun k hkg hkh => ?_
    · rw [hfirst]
      exact fun _ => rfl
    · rw [hsecond]
      exact hs.closing h
    · rw [hkept k hkg hkh]
      exact hs.closing k
  case registered =>
    intro u k hk
    rw [htable] at hk
    split_ifs at hk with hu
    have hold := hs.registered u k hk
    have hkg : k ≠ g := by
      rintro rfl
      exact hu (hold.2.1.symm.trans hg)
    have hkh : k ≠ h := by
      rintro rfl
      exact absurd (hlogged.symm.trans hold.1.2.1) (by decide)
    rw [hkept k hkg hkh]
    exact hold
  case live =>
    refine forall_of_two g h ?_ ?_ fun k hkg hkh => ?_
    · rw [hfirst]
      exact fun hlive => Bool.noConfusion hlive.2.2
    · rw [hsecond]
      exact fun hlive => absurd (hlogged.symm.trans hlive.2.1) (by decide)
    · rw [hkept k hkg hkh, htable]
      intro hkLive
      have hold := hs.live k hkLive
      have hku : (s.handler k).playerUuid ≠ uuid := by
        intro hku
        rw [hku, hreg] at hold
        exact hkg (Option.some.inj (Option.some.inj hold)).symm
      rw [if_neg hku]
      exact hold
  case waits =>
    refine forall_of_two g h ?_ ?_ fun k hkg hkh => ?_
    · rw [hfirst]
      exact fun hwaits => absurd (hwaits.2.2.symm.trans hlive.2.1) (by decide)
    · rw [hsecond]
      refine fun _ => ⟨hclosing, hclientOff, hoffline, g, ?_⟩
      rw [Pending, hfirst]
      exact ⟨hlive.1, rfl⟩
    · rw [hkept k hkg hkh]
      intro hk
      obtain ⟨hkClosing, hkOff, hkNone, a, ha⟩ := hs.waits k hk
      have hag : a ≠ g := by
        rintro rfl
        exact Option.some_ne_none k (ha.2.symm.trans hnone)
      have hah : a ≠ h := by
        rintro rfl
        exact Option.some_ne_none k (ha.2.symm.trans hoffline)
      refine ⟨hkClosing, hkOff, hkNone, a, ?_⟩
      rw [Pending, hkept a hag hah]
      exact ha
  case pending =>
    intro a w hp
    rcases pending_handOver hgh hoffline hp with ⟨rfl, rfl⟩ | ⟨ha, hold⟩
    · rw [hfirst, hsecond]
      refine ⟨rfl, ⟨hopen, rfl, hlogged⟩, hg, fun k hk => ?_⟩
      rw [htable, if_pos rfl] at hk
      exact Option.some_ne_none _ hk.symm
    · obtain ⟨hwg, hwh, hwu⟩ := hother a w hold
      have hah : a ≠ h := by
        rintro rfl
        exact Option.some_ne_none w (hold.2.symm.trans hoffline)
      rw [hkept w hwg hwh, hkept a ha hah, htable, if_neg hwu]
      exact hs.pending a w hold
  case unique =>
    intro a a' w w' hp hp' huu
    rcases pending_handOver hgh hoffline hp with ⟨rfl, rfl⟩ | ⟨ha, hold⟩ <;>
      rcases pending_handOver hgh hoffline hp' with ⟨rfl, rfl⟩ | ⟨ha', hold'⟩
    · rfl
    · obtain ⟨hwg, hwh, hwu⟩ := hother a' w' hold'
      rw [hwaiter, hkept w' hwg hwh] at huu
      exact absurd huu.symm hwu
    · obtain ⟨hwg, hwh, hwu⟩ := hother a w hold
      rw [hwaiter, hkept w hwg hwh] at huu
      exact absurd huu hwu
    · obtain ⟨hwg, hwh, -⟩ := hother a w hold
      obtain ⟨hwg', hwh', -⟩ := hother a' w' hold'
      rw [hkept w hwg hwh, hkept w' hwg' hwh'] at huu
      exact hs.unique a a' w w' hold hold' huu

theorem orderly_login {uuid : UInt32} (hs : s.Orderly)
    (hopen : (s.handler h).life = .opened) (hguest : (s.handler h).loginStatus = false)
    (huuid : uuid ≠ 0) (hreg : ∀ g, s.uuidHandler uuid ≠ some (some g))
    (hothers : ∀ a w, s.Pending a w → (s.handler w).playerUuid ≠ uuid) :
    ((s.setHandler h { s.handler h with playerUuid := uuid, loginStatus := true }).loginHandle
      h).Orderly := by
  obtain ⟨-, -, hclosing, hoff, hnone⟩ := hs.guest h hguest
  rw [loginHandle_of_not_registered (by simpa using hreg)]
  generalize ht : (s.setHandler h { s.handler h with
    playerUuid := uuid, loginStatus := true }).loginHandle2 h = t
  have hhandler : ∀ k, t.handler k = if k = h then { s.handler h with
      playerUuid := uuid, loginStatus := true, loggedIn := true } else s.handler k := by
    intro k
    rw [← ht]
    by_cases hk : k = h <;> simp [loginHandle2, hk]
  have hother : ∀ k, k ≠ h → t.handler k = s.handler k := fun k hk =>
    (hhandler k).trans (if_neg hk)
  have htable : ∀ u, t.uuidHandler u = if u = uuid then some (some h) else s.uuidHandler u := by
    intro u
    rw [← ht]
    simp [loginHandle2]
  have hpending : ∀ a w, t.Pending a w ↔ s.Pending a w := by
    intro a w
    rw [Pending, Pending, hhandler]
    split_ifs with ha
    · rw [ha]
    · rfl
  -- nobody has waited for a guest, and no guest for anybody
  have hapart : ∀ a w, s.Pending a w → a ≠ h ∧ w ≠ h := by
    intro a w hp
    constructor
    · rintro rfl
      exact Option.some_ne_none w (hp.2.symm.trans hnone)
    · rintro rfl
      exact absurd (hguest.symm.trans (hs.pending a w hp).2.1.2.1) (by decide)
  constructor
  case fresh =>
    refine forall_handler hhandler (P := fun y _ => y.life = .fresh → y = {}) ?_
      fun k _ => hs.fresh k
    exact fun hfresh => Life.noConfusion (hfresh.symm.trans hopen)
  case guest =>
    refine forall_handler hhandler (P := fun y _ => y.loginStatus = false → y.playerUuid = 0 ∧
      y.loggedIn = false ∧ y.closing = false ∧ y.isClientOff = true ∧ y.offlineHandler = none) ?_
      fun k _ => hs.guest k
    exact fun hlogin => Bool.noConfusion hlogin
  case player =>
    exact forall_handler hhandler (P := fun y _ => y.loginStatus = true → y.playerUuid ≠ 0)
      (fun _ => huuid) fun k _ => hs.player k
  case closing =>
    exact forall_handler hhandler (P := fun y _ => y.closing = true → y.isClientOff = false)
      (hs.closing h) fun k _ => hs.closing k
  case registered =>
    intro u k hk
    rw [htable] at hk
    split_ifs at hk with hu
    · obtain rfl := Option.some.inj (Option.some.inj hk)
      rw [hhandler, if_pos rfl, hu]
      exact ⟨⟨hopen, rfl, hclosing⟩, rfl, hoff, hnone⟩
    · have hold := hs.registered u k hk
      have hkh : k ≠ h := by
        rintro rfl
        exact absurd ((hs.guest k hguest).2.1.symm.trans hold.1.2.1) (by decide)
      rw [hother k hkh]
      exact hold
  case live =>
    refine forall_handler hhandler
      (P := fun y k => y.Live → t.uuidHandler y.playerUuid = some (some k)) ?_ ?_
    · exact fun _ => (htable uuid).trans (if_pos rfl)
    · intro k hk hlive
      have hold := hs.live k hlive
      rw [htable, if_neg]
      · exact hold
      · rintro rfl
        exact hreg k hold
  case waits =>
    refine forall_handler hhandler (P := fun y k => y.Waits → y.closing = false ∧
      y.isClientOff = true ∧ y.offlineHandler = none ∧ ∃ a, t.Pending a k) ?_ ?_
    · exact fun hwaits => Bool.noConfusion hwaits.2.2
    · intro k _ hk
      obtain ⟨hkClosing, hkOff, hkNone, a, ha⟩ := hs.waits k hk
      exact ⟨hkClosing, hkOff, hkNone, a, (hpending a k).mpr ha⟩
  case pending =>
    intro a w hp
    have hold := (hpending a w).mp hp
    obtain ⟨hah, hwh⟩ := hapart a w hold
    obtain ⟨haClosing, hwait, heq, hnot⟩ := hs.pending a w hold
    rw [hother a hah, hother w hwh]
    refine ⟨haClosing, hwait, heq, fun k hk => ?_⟩
    rw [htable, if_neg (hothers a w hold)] at hk
    exact hnot k hk
  case unique =>
    intro a a' w w' hp hp' heq
    have hold := (hpending a w).mp hp
    have hold' := (hpending a' w').mp hp'
    rw [hother w (hapart a w hold).2, hother w' (hapart a' w' hold').2] at heq
    exact hs.unique a a' w w' hold hold' heq

theorem onClose_of_none (hnone : (s.handler h).offlineHandler = none) :
    s.onClose h = (if (s.uuidHandler (s.handler h).playerUuid).isSome ∧
      (s.handler h).isClientOff then s.setEntry (s.handler h).playerUuid none else s).dispose h := by
  simp only [onClose, hnone]

theorem onClose_of_some {w : ℕ} (hoff : (s.handler h).isClientOff = false)
    (hsome : (s.handler h).offlineHandler = some w) :
    s.onClose h = (s.dispose h).loginHandle2 w := by
  simp [onClose, hsome, hoff]

theorem Orderly.entry_eq {k : ℕ} (hs : s.Orderly) (hopen : (s.handler h).life = .opened)
    (hoff : (s.handler h).isClientOff = true) (hwaits : ∀ a, ¬ s.Pending a h)
    (hreg : s.uuidHandler (s.handler h).playerUuid = some (some k)) : k = h := by
  obtain ⟨hlive, huuid, -⟩ := hs.registered _ k hreg
  have hlogin : (s.handler h).loginStatus = true := by
    by_contra hguest
    have hzero := (hs.guest h (by simpa using hguest)).1
    have hk : (s.handler k).loginStatus = true := by
      by_contra hk
      exact absurd ((hs.guest k (by simpa using hk)).2.1.symm.trans hlive.2.1) (by decide)
    exact hs.player k hk (huuid.trans hzero)
  have hlogged : (s.handler h).loggedIn = true := by
    by_contra hlogged
    obtain ⟨-, -, -, a, ha⟩ := hs.waits h ⟨hopen, hlogin, by simpa using hlogged⟩
    exact hwaits a ha
  have hclosing : (s.handler h).closing = false := by
    by_contra hclosing
    exact absurd (hoff.symm.trans (hs.closing h (by simpa using hclosing))) (by decide)
  rw [hs.live h ⟨hopen, hlogged, hclosing⟩] at hreg
  exact (Option.some.inj (Option.some.inj hreg)).symm

theorem orderly_complete {w : ℕ} (hs : s.Orderly) (hph : s.Pending h w)
    (hwaits : ∀ a, ¬ s.Pending a h) : ((s.dispose h).loginHandle2 w).Orderly := by
  obtain ⟨hclosing, hwait, heq, hentry⟩ := hs.pending h w hph
  obtain ⟨hwclosing, hwoff, hwnone, -⟩ := hs.waits w hwait
  have hwh : w ≠ h := by
    rintro rfl
    exact hwaits w hph
  have hpending : ∀ a b, ((s.dispose h).loginHandle2 w).Pending a b ↔ a ≠ h ∧ s.Pending a b :=
    fun a b => pending_loginHandle2.trans pending_dispose
  have hw : ((s.dispose h).loginHandle2 w).handler w =
      { s.handler w with loginStatus := true, loggedIn := true } := by
    simp [loginHandle2, dispose, hwh]
  have hh : ((s.dispose h).loginHandle2 w).handler h =
      { s.handler h with life := .disposed, offlineHandler := none } := by
    simp [loginHandle2, dispose, hwh.symm]
  have hother : ∀ k, k ≠ w → k ≠ h →
      ((s.dispose h).loginHandle2 w).handler k = s.handler k := by
    intro k hkw hkh
    simp [loginHandle2, dispose, hkw, hkh]
  have htable : ∀ u, ((s.dispose h).loginHandle2 w).uuidHandler u =
      if u = (s.handler w).playerUuid then some (some w) else s.uuidHandler u := by
    intro u
    simp [loginHandle2, dispose, hwh]
  constructor
  case fresh =>
    refine forall_of_two w h ?_ ?_ fun k hkw hkh => ?_
    · rw [hw]
      exact fun hfresh => absurd (hwait.1.symm.trans hfresh) (by decide)
    · rw [hh]
      exact fun hfresh => Life.noConfusion hfresh
    · rw [hother k hkw hkh]
      exact hs.fresh k
  case guest =>
    refine forall_of_two w h ?_ ?_ fun k hkw hkh => ?_
    · rw [hw]
      exact fun hguest => Bool.noConfusion hguest
    · rw [hh]
      exact fun hguest => absurd ((hs.guest h hguest).2.2.1.symm.trans hclosing) (by decide)
    · rw [hother k hkw hkh]
      exact hs.guest k
  case player =>
    refine forall_of_two w h ?_ ?_ fun k hkw hkh => ?_
    · rw [hw]
      exact fun _ => hs.player w hwait.2.1
    · rw [hh]
      exact hs.player h
    · rw [hother k hkw hkh]
      exact hs.player k
  case closing =>
    refine forall_of_two w h ?_ ?_ fun k hkw hkh => ?_
    · rw [hw]
      exact hs.closing w
    · rw [hh]
      exact hs.closing h
    · rw [hother k hkw hkh]
      exact hs.closing k
  case registered =>
    intro uuid k hk
    rw [htable] at hk
    split_ifs at hk with huuid
    · obtain rfl := Option.some.inj (Option.some.inj hk)
      rw [hw, huuid]
      exact ⟨⟨hwait.1, rfl, hwclosing⟩, rfl, hwoff, hwnone⟩
    · have hold := hs.registered uuid k hk
      have hkw : k ≠ w := by
        rintro rfl
        exact huuid hold.2.1.symm
      have hkh : k ≠ h := by
        rintro rfl
        exact absurd (hold.1.2.2.symm.trans hclosing) (by decide)
      rw [hother k hkw hkh]
      exact hold
  case live =>
    refine forall_of_two w h ?_ ?_ fun k hkw hkh => ?_
    · rw [hw, htable]
      exact fun _ => if_pos rfl
    · rw [hh]
      exact fun hlive => Life.noConfusion hlive.1
    · rw [hother k hkw hkh, htable]
      intro hlive
      have hold := hs.live k hlive
      have huuid : (s.handler k).playerUuid ≠ (s.handler w).playerUuid := by
        intro huuid
        rw [huuid] at hold
        exact hentry k hold
      rwa [if_neg huuid]
  case waits =>
    refine forall_of_two w h ?_ ?_ fun k hkw hkh => ?_
    · rw [hw]
      exact fun hwaits => Bool.noConfusion hwaits.2.2
    · rw [hh]
      exact fun hwaits => Life.noConfusion hwaits.1
    · rw [hother k hkw hkh]
      intro hk
      obtain ⟨hkclosing, hkoff, hknone, a, ha⟩ := hs.waits k hk
      have hah : a ≠ h := by
        rintro rfl
        exact hkw (Option.some.inj (ha.2.symm.trans hph.2))
      exact ⟨hkclosing, hkoff, hknone, a, (hpending a k).mpr ⟨hah, ha⟩⟩
  case pending =>
    intro a b hp
    obtain ⟨hah, hold⟩ := (hpending a b).mp hp
    -- the player of `b` is not that of `w`
    have hbw : (s.handler b).playerUuid ≠ (s.handler w).playerUuid :=
      fun heq => hah (hs.unique a h b w hold hph heq)
    have hb : b ≠ w := by
      rintro rfl
      exact hbw rfl
    have hbh : b ≠ h := by
      rintro rfl
      exact hwaits a hold
    have haw : a ≠ w := by
      rintro rfl
      exact Option.some_ne_none b (hold.2.symm.trans hwnone)
    rw [hother a haw hah, hother b hb hbh, htable, if_neg hbw]
    exact hs.pending a b hold
  case unique =>
    intro a a' b b' hp hp' huu
    simp only [loginHandle2_playerUuid, dispose_playerUuid] at huu
    exact hs.unique a a' b b' ((hpending a b).mp hp).2 ((hpending a' b').mp hp').2 huu

theorem orderly_onClose (hs : s.Orderly) (hopen : (s.handler h).life = .opened)
    (hwaits : ∀ a, ¬ s.Pending a h) : (s.onClose h).Orderly := by
  have hown := fun hoff k => hs.entry_eq (k := k) hopen hoff hwaits
  cases hoffline : (s.handler h).offlineHandler with
  | none =>
    have hx : Detached { s.handler h with life := .disposed, offlineHandler := none } := {
      fresh := fun hlife => Life.noConfusion hlife
      guest := fun hguest =>
        have hold := hs.guest h hguest
        ⟨hold.1, hold.2.1, hold.2.2.1, hold.2.2.2.1⟩
      player := hs.player h
      closing := hs.closing h
      live := fun hlive => Life.noConfusion hlive.1
      waits := fun hwaits => Life.noConfusion hwaits.1
      offline := rfl }
    rw [onClose_of_none hoffline]
    split_ifs with herase
    · refine hs.detach hx hoffline hwaits (setHandler_handler _) fun u k => ?_
      show ((s.setEntry (s.handler h).playerUuid none).uuidHandler u = some (some k)) ↔ _
      rw [setEntry_uuidHandler]
      split_ifs with hu
      · -- the entry that is erased is that of the handler, if it is that of any
        refine iff_of_false id ?_
        rintro ⟨hreg, hkh⟩
        rw [hu] at hreg
        exact hkh (hown herase.2 k hreg)
      · refine (and_iff_left_of_imp ?_).symm
        rintro hreg rfl
        exact hu (hs.registered u k hreg).2.1.symm
    · refine hs.detach hx hoffline hwaits (setHandler_handler _) fun u k =>
        (and_iff_left_of_imp ?_).symm
      rintro hreg rfl
      obtain ⟨-, huuid, hoff, -⟩ := hs.registered u k hreg
      rw [← huuid] at hreg
      exact herase ⟨Option.isSome_of_eq_some hreg, hoff⟩
  | some w =>
    have hph : s.Pending h w := ⟨hopen, hoffline⟩
    rw [onClose_of_some (hs.closing h (hs.pending h w hph).1) hoffline]
    exact orderly_complete hs hph hwaits

theorem orderly_heartCheck (hs : s.Orderly) (uuid : UInt32) (now : Int) :
    (s.heartCheck uuid now).Orderly := by
  unfold heartCheck
  split
  · next h hreg =>
    split_ifs with hexp
    · obtain ⟨hlive, huuid, -, hnone⟩ := hs.registered uuid h hreg
      have hx : Detached (Handler.close { s.handler h with isClientOff := false }) := by
        rw [Handler.close, if_pos hlive.1]
        exact {
          fresh := fun hlife => Life.noConfusion (hlife.symm.trans hlive.1)
          guest := fun hguest =>
            absurd ((hs.guest h hguest).2.1.symm.trans hlive.2.1) (by decide)
          player := hs.player h
          closing := fun _ => rfl
          live := fun hlive => Bool.noConfusion hlive.2.2
          waits := fun hwaits => absurd (hwaits.2.2.symm.trans hlive.2.1) (by decide)
          offline := hnone }
      refine hs.detach hx hnone ?_ (setHandler_handler _) fun u k => ?_
      · intro a hp
        exact absurd ((hs.pending a h hp).2.1.2.2.symm.trans hlive.2.1) (by decide)
      rw [setEntry_uuidHandler, setHandler_uuidHandler]
      split_ifs with hu
      · refine iff_of_false id ?_
        rintro ⟨hk, hkh⟩
        rw [hu, hreg] at hk
        exact hkh (Option.some.inj (Option.some.inj hk)).symm
      · refine (and_iff_left_of_imp ?_).symm
        rintro hk rfl
        exact hu ((hs.registered u k hk).2.1.symm.trans huuid)
    · exact hs
  · exact hs

theorem orderly_reply {uuid : UInt32} (hs : s.Orderly) (hnone : s.uuidHandler uuid = none) :
    (s.setEntry uuid (some none)).Orderly := by
  refine Orderly.of_same hs (f := fun k => (s.handler k).lastTime) (fun k => rfl)
    (fun k hk => by rw [hs.fresh k hk]) fun u k => ?_
  rw [setEntry_uuidHandler]
  split_ifs with hu
  · rw [hu, hnone]
    simp
  · rfl

theorem orderly_loginRequest (hs : s.Orderly) (hopen : (s.handler h).life = .opened)
    {account passwd : String} (hC : s.Undisturbed accounts (.login h account passwd)) :
    (s.loginRequest accounts h account passwd).Orderly := by
  unfold loginRequest
  split_ifs with hstatus
  · exact hs
  · have hguest : (s.handler h).loginStatus = false := by simpa using hstatus
    split
    · exact hs
    · next uuid huuid =>
      have hne : uuid ≠ 0 := by
        rintro rfl
        exact accounts.ne_zero account passwd huuid
      by_cases hreg : ∃ g, s.uuidHandler uuid = some (some g)
      · obtain ⟨g, hg⟩ := hreg
        have hlive := (hs.registered uuid g hg).1
        have hgh : g ≠ h := by
          rintro rfl
          exact absurd ((hs.guest g hguest).2.1.symm.trans hlive.2.1) (by decide)
        rw [loginHandle_eq_handOver hgh hlive.1 hg]
        exact orderly_handOver hs hopen hguest hne hg
      · exact orderly_login hs hopen hguest hne (not_exists.mp hreg) (hC hguest uuid huuid)

theorem orderly_step {e : LoginEvent} (hs : s.Orderly) (ht : step accounts s e = some t)
    (hC : s.Undisturbed accounts e) : t.Orderly := by
  cases e with
  | connect h =>
    obtain ⟨hfresh, rfl⟩ := by simpa [step] using ht
    exact orderly_connect hs hfresh
  | login h account passwd =>
    obtain ⟨hopen, rfl⟩ := by simpa [step] using ht
    exact orderly_loginRequest hs hopen hC
  | message h now =>
    obtain ⟨hopen, rfl⟩ := by simpa [step] using ht
    split_ifs
    · exact orderly_setLastTime hs hopen now
    · exact hs
  | heartBeat h now =>
    obtain ⟨hopen, rfl⟩ := by simpa [step] using ht
    exact orderly_setLastTime hs hopen now
  | onClose h =>
    obtain ⟨hopen, rfl⟩ := by simpa [step] using ht
    exact orderly_onClose hs hopen hC
  | heartCheck uuid now =>
    obtain rfl := by simpa [step] using ht
    exact orderly_heartCheck hs uuid now
  | reply uuid =>
    obtain rfl := by simpa [step] using ht
    split_ifs with hnone
    · exact orderly_reply hs hnone
    · exact hs

/-- The end of any one connection leaves one live handler a player. -/
def SingleAfterClose (accounts : Accounts) (s : Logins) : Prop :=
  ∀ h t, step accounts s (.onClose h) = some t → t.Single

theorem Single.of_dispose (hs : s.Single) (hhandler : t.handler = (s.dispose h).handler)
    (hentry : ∀ u k, t.uuidHandler u = some (some k) →
      s.uuidHandler u = some (some k) ∧ k ≠ h) : t.Single := by
  have hother : ∀ k, k ≠ h → t.handler k = s.handler k := by
    intro k hk
    rw [hhandler]
    exact (setHandler_handler _ k).trans (if_neg hk)
  have hne : ∀ k, (t.handler k).Live → k ≠ h := by
    rintro k hlive rfl
    rw [hhandler, dispose, setHandler_handler, if_pos rfl] at hlive
    exact Life.noConfusion hlive.1
  constructor
  · intro a b ha hb huuid
    have hah := hother a (hne a ha)
    have hbh := hother b (hne b hb)
    rw [hah] at ha huuid
    rw [hbh] at hb huuid
    exact hs.one a b ha hb huuid
  · intro uuid k hk
    obtain ⟨hreg, hkh⟩ := hentry uuid k hk
    rw [hother k hkh]
    exact hs.registered uuid k hreg

theorem single_dispose_of_waits (hs : s.Orderly) (hwaits : (s.handler h).Waits)
    (hnone : (s.handler h).offlineHandler = none) : (s.onClose h).Single := by
  have hne : ∀ uuid k, s.uuidHandler uuid = some (some k) → k ≠ h := by
    rintro uuid k hk rfl
    have hlive := (hs.registered uuid k hk).1
    exact absurd (hwaits.2.2.symm.trans hlive.2.1) (by decide)
  rw [onClose_of_none hnone]
  split_ifs
  · refine hs.single.of_dispose rfl fun u k hk => ?_
    change (s.setEntry (s.handler h).playerUuid none).uuidHandler u = some (some k) at hk
    rw [setEntry_uuidHandler] at hk
    split_ifs at hk
    exact ⟨hk, hne u k hk⟩
  · exact hs.single.of_dispose rfl fun u k hk => ⟨hk, hne u k hk⟩

theorem Orderly.singleAfterClose (hs : s.Orderly) : s.SingleAfterClose accounts := by
  intro h t ht
  obtain ⟨hopen, rfl⟩ := by simpa [step] using ht
  by_cases hw : ∃ a, s.Pending a h
  · obtain ⟨a, ha⟩ := hw
    have hwaits := (hs.pending a h ha).2.1
    exact single_dispose_of_waits hs hwaits (hs.waits h hwaits).2.2.1
  · exact (orderly_onClose hs hopen (not_exists.mp hw)).single

theorem not_singleAfterClose_login {a w : ℕ} {uuid : UInt32} (hs : s.Orderly)
    (hopen : (s.handler h).life = .opened) (hguest : (s.handler h).loginStatus = false)
    (hp : s.Pending a w) (huuid : (s.handler w).playerUuid = uuid) :
    ¬ SingleAfterClose accounts
      ((s.setHandler h { s.handler h with playerUuid := uuid, loginStatus := true }).loginHandle
        h) := by
  obtain ⟨hclosing, hwaits, heq, hentry⟩ := hs.pending a w hp
  obtain ⟨hwclosing, -, hwnone, -⟩ := hs.waits w hwaits
  have hx := hs.guest h hguest
  have hah : a ≠ h := by
    rintro rfl
    exact Option.some_ne_none w (hp.2.symm.trans hx.2.2.2.2)
  have hwh : w ≠ h := by
    rintro rfl
    exact absurd (hguest.symm.trans hwaits.2.1) (by decide)
  have hwa : w ≠ a := by
    rintro rfl
    exact absurd (hwclosing.symm.trans hclosing) (by decide)
  rw [loginHandle_of_not_registered (by simpa [huuid] using hentry)]
  intro hsingle
  set t := (s.setHandler h { s.handler h with playerUuid := uuid, loginStatus := true }).loginHandle2
    h with ht
  have hta : t.handler a = s.handler a := by simp [ht, loginHandle2, hah]
  have htw : t.handler w = s.handler w := by simp [ht, loginHandle2, hwh]
  have hth : t.handler h = { s.handler h with
      playerUuid := uuid, loginStatus := true, loggedIn := true } := by
    simp [ht, loginHandle2]
  have hclose : t.onClose a = (t.dispose a).loginHandle2 w :=
    onClose_of_some (by rw [hta]; exact hs.closing a hclosing) (by rw [hta]; exact hp.2)
  have hone := (hsingle a _ (by simp [step, hta, hp.1]; rfl)).one w h
  rw [hclose] at hone
  refine hwh (hone ?_ ?_ ?_)
  · simp [loginHandle2, dispose, Handler.Live, hwa, htw, hwaits.1, hwclosing]
  · simp [loginHandle2, dispose, Handler.Live, hwh.symm, hah.symm, hth, hopen, hx]
  · simp [loginHandle2_playerUuid, dispose_playerUuid, htw, hth, huuid]

theorem not_singleAfterClose_onClose {a : ℕ} (hs : s.Orderly) (hp : s.Pending a h) :
    ¬ SingleAfterClose accounts (s.onClose h) := by
  obtain ⟨hclosing, hwaits, heq, hentry⟩ := hs.pending a h hp
  obtain ⟨hwclosing, -, hwnone, -⟩ := hs.waits h hwaits
  have hah : a ≠ h := by
    rintro rfl
    exact absurd (hwclosing.symm.trans hclosing) (by decide)
  intro hsingle
  set t := s.onClose h with ht
  rw [onClose_of_none hwnone] at ht
  have hta : t.handler a = s.handler a := by
    rw [ht]
    split_ifs <;> simp [dispose, hah]
  have hth : (t.handler h).life = .disposed := by
    rw [ht]
    split_ifs <;> simp [dispose]
  have hclose : t.onClose a = (t.dispose a).loginHandle2 h :=
    onClose_of_some (by rw [hta]; exact hs.closing a hclosing) (by rw [hta]; exact hp.2)
  have hreg := (hsingle a _ (by simp [step, hta, hp.1]; rfl)).registered (t.handler h).playerUuid h
  rw [hclose] at hreg
  have hlife := (hreg (by simp [loginHandle2, dispose, hah.symm])).1
  simp [loginHandle2, dispose, hah.symm, hth] at hlife

theorem not_singleAfterClose {e : LoginEvent} (hs : s.Orderly)
    (ht : step accounts s e = some t) (hC : ¬ s.Undisturbed accounts e) :
    ¬ t.SingleAfterClose accounts := by
  cases e with
  | login h account passwd =>
    obtain ⟨hopen, rfl⟩ := by simpa [step] using ht
    simp only [Undisturbed, not_forall, not_not] at hC
    obtain ⟨hguest, uuid, hverify, a, w, hp, huuid⟩ := hC
    rw [loginRequest, if_neg (by simp [hguest]), hverify]
    exact not_singleAfterClose_login hs hopen hguest hp huuid
  | onClose h =>
    obtain ⟨hopen, rfl⟩ := by simpa [step] using ht
    simp only [Undisturbed, not_forall, not_not] at hC
    obtain ⟨a, ha⟩ := hC
    exact not_singleAfterClose_onClose hs ha
  | connect | message | heartBeat | heartCheck | reply => exact absurd trivial hC

/-- A run in which no hand-over is disturbed has one live handler a player in every state. A
hand-over is disturbed exactly when the run reaches a state that one more `OnClose` turns
into one without. -/
theorem single_run (accounts : Accounts) (es : List LoginEvent) :
    (Run.EachStep (step accounts) (Undisturbed accounts) {} es →
      Run.Always (step accounts) Single {} es) ∧
    (Run.Always (step accounts) (fun s => s.Single ∧ s.SingleAfterClose accounts) {} es ↔
      Run.EachStep (step accounts) (Undisturbed accounts) {} es) := by
  have hiff : Run.Always (step accounts) (fun s => s.Single ∧ s.SingleAfterClose accounts) {} es ↔
      Run.EachStep (step accounts) (Undisturbed accounts) {} es := by
    refine Run.always_iff_eachStep_of_kept (J := Orderly) ?_ ?_ ?_ orderly_initial es
    · exact fun s hs => ⟨hs.single, hs.singleAfterClose⟩
    · exact fun s e t hs ht hC => orderly_step hs ht hC
    · exact fun s e t hs ht hC hP => not_singleAfterClose hs ht hC hP.2
  exact ⟨fun hC => (hiff.mpr hC).mono fun s hs => hs.1, hiff⟩

/-- Three logins to one account before the first connection has closed. -/
theorem not_single_three_logins :
    ¬ ∀ (accounts : Accounts) (es : List LoginEvent), Run.Always (step accounts) Single {} es := by
  intro h
  have hrun := h ⟨fun _ _ => some 7, fun _ _ => by decide⟩
    [.connect 0, .connect 1, .connect 2, .login 0 "guest" "passwd", .login 1 "guest" "passwd",
      .login 2 "guest" "passwd", .onClose 0]
  obtain ⟨-, hrun⟩ := hrun
  obtain ⟨-, hrun⟩ := hrun _ rfl
  obtain ⟨-, hrun⟩ := hrun _ rfl
  obtain ⟨-, hrun⟩ := hrun _ rfl
  obtain ⟨-, hrun⟩ := hrun _ rfl
  obtain ⟨-, hrun⟩ := hrun _ rfl
  obtain ⟨-, hrun⟩ := hrun _ rfl
  have hone := (hrun _ rfl).one 1 2 ⟨rfl, rfl, rfl⟩ ⟨rfl, rfl, rfl⟩ rfl
  exact absurd hone (by decide)

end Logins

end IceBridge.Gateway
