import IceBridge.Gateway.Handover
import IceBridge.Lib.Slots
import Mathlib.Data.List.Nodup

/-! The chat slots of the players (`_chat_worker.cpp`): one is taken when a login completes, and
given back when a connection ends whose player is still in `UuidHandlerPoitiner`. -/

namespace IceBridge.Gateway

def maxClient : ℕ := 20000

structure ChatPlayer where
  handerpointer : Option ℕ := none
  uuid : UInt32 := 0
  deriving DecidableEq

/-- The back of `remain_player_index` is the end of the list. -/
structure ChatWorker where
  remainPlayerIndex : List ℕ := (List.range maxClient).reverse
  onlinePlayerIndex : List ℕ := []
  uuidIndexMap : UInt32 → Option ℕ := fun _ => none
  player : ℕ → ChatPlayer := fun _ => {}

namespace ChatWorker

def onlineNotify (chat : ChatWorker) (registered : Bool) (uuid : UInt32) (h : ℕ) : ChatWorker :=
  match registered, chat.remainPlayerIndex.getLast? with
  | true, some index =>
    { remainPlayerIndex := chat.remainPlayerIndex.dropLast
      onlinePlayerIndex := chat.onlinePlayerIndex ++ [index]
      uuidIndexMap := Function.update chat.uuidIndexMap uuid (some index)
      player := Function.update chat.player index ⟨some h, uuid⟩ }
  | _, _ => chat

def offlineNotify (chat : ChatWorker) (uuid : UInt32) : ChatWorker :=
  match chat.uuidIndexMap uuid with
  | some index =>
    { remainPlayerIndex := chat.remainPlayerIndex ++ [index]
      onlinePlayerIndex := chat.onlinePlayerIndex.filter (· != index)
      uuidIndexMap := Function.update chat.uuidIndexMap uuid none
      player := Function.update chat.player index { chat.player index with handerpointer := none } }
  | none => chat

theorem onlineNotify_uuidIndexMap_of_ne {chat : ChatWorker} {registered : Bool} {uuid v : UInt32}
    {h : ℕ} (hv : v ≠ uuid) :
    (chat.onlineNotify registered uuid h).uuidIndexMap v = chat.uuidIndexMap v := by
  unfold onlineNotify
  split
  · exact Function.update_of_ne hv _ _
  · rfl

theorem length_sub_one_le_onlineNotify (chat : ChatWorker) (registered : Bool) (uuid : UInt32)
    (h : ℕ) : chat.remainPlayerIndex.length - 1 ≤
      (chat.onlineNotify registered uuid h).remainPlayerIndex.length := by
  unfold onlineNotify
  split
  · exact Nat.le_of_eq List.length_dropLast.symm
  · exact Nat.sub_le _ _

end ChatWorker

structure ChatLogins where
  logins : Logins := {}
  chat : ChatWorker := {}

namespace ChatLogins

def loginHandle2 (s : ChatLogins) (h : ℕ) : ChatLogins :=
  let logins := s.logins.loginHandle2 h
  let uuid := (s.logins.handler h).playerUuid
  { logins, chat := s.chat.onlineNotify (logins.uuidHandler uuid).isSome uuid h }

def loginHandle (s : ChatLogins) (h : ℕ) : ChatLogins :=
  match s.logins.uuidHandler (s.logins.handler h).playerUuid with
  | some (some _) => { s with logins := s.logins.loginHandle h }
  | _ => s.loginHandle2 h

def loginRequest (accounts : Accounts) (s : ChatLogins) (h : ℕ) (account passwd : String) :
    ChatLogins :=
  if (s.logins.handler h).loginStatus then s
  else
    match accounts.verifyUser account passwd with
    | none => s
    | some uuid =>
      let logins := s.logins.setHandler h
        { s.logins.handler h with playerUuid := uuid, loginStatus := true }
      ({ s with logins } : ChatLogins).loginHandle h

def onClose (s : ChatLogins) (h : ℕ) : ChatLogins :=
  let x := s.logins.handler h
  let found := (s.logins.uuidHandler x.playerUuid).isSome
  let chat := if found then s.chat.offlineNotify x.playerUuid else s.chat
  let logins := if found ∧ x.isClientOff then s.logins.setEntry x.playerUuid none else s.logins
  match x.offlineHandler with
  | some w => ({ logins := logins.dispose h, chat } : ChatLogins).loginHandle2 w
  | none => { logins := logins.dispose h, chat }

def step (accounts : Accounts) (s : ChatLogins) : LoginEvent → Option ChatLogins
  | .login h account passwd =>
    if (s.logins.handler h).life = .opened then some (s.loginRequest accounts h account passwd)
    else none
  | .onClose h => if (s.logins.handler h).life = .opened then some (s.onClose h) else none
  | e => (s.logins.step accounts e).map fun logins => { s with logins }

variable {accounts : Accounts} {s t : ChatLogins}

theorem loginHandle_logins (h : ℕ) : (s.loginHandle h).logins = s.logins.loginHandle h := by
  unfold loginHandle
  split
  · rfl
  · next hreg =>
    unfold Logins.loginHandle
    split
    · next g hg => exact absurd hg (hreg g)
    · rfl

theorem loginRequest_logins (h : ℕ) (account passwd : String) :
    (s.loginRequest accounts h account passwd).logins =
      s.logins.loginRequest accounts h account passwd := by
  unfold loginRequest Logins.loginRequest
  split_ifs
  · rfl
  · cases accounts.verifyUser account passwd with
    | none => rfl
    | some uuid => exact loginHandle_logins h

theorem onClose_logins (h : ℕ) : (s.onClose h).logins = s.logins.onClose h := by
  unfold onClose Logins.onClose
  dsimp only
  cases (s.logins.handler h).offlineHandler with
  | none => rfl
  | some w => rfl

theorem loginRequest_chat (s : ChatLogins) (h : ℕ) (account passwd : String) :
    (s.loginRequest accounts h account passwd).chat = s.chat ∨
      ∃ uuid, accounts.verifyUser account passwd = some uuid ∧
        (s.loginRequest accounts h account passwd).chat = s.chat.onlineNotify true uuid h := by
  unfold loginRequest
  split_ifs
  · exact Or.inl rfl
  split
  · exact Or.inl rfl
  next uuid huuid =>
  dsimp only
  unfold loginHandle
  split
  · exact Or.inl rfl
  · refine Or.inr ⟨uuid, huuid, ?_⟩
    simp [loginHandle2, Logins.loginHandle2]

theorem step_logins (s : ChatLogins) (e : LoginEvent) :
    (s.step accounts e).map logins = s.logins.step accounts e := by
  cases e with
  | login h account passwd =>
    simp only [step, Logins.step]
    split_ifs
    · exact congrArg some (loginRequest_logins h account passwd)
    · rfl
  | onClose h =>
    simp only [step, Logins.step]
    split_ifs
    · exact congrArg some (onClose_logins h)
    · rfl
  | _ => simp [step, Function.comp_def]

end ChatLogins

/-! ## What holds of the connections in every run -/

theorem Handler.close_same (x : Handler) : x.close.life = x.life ∧ x.close.loggedIn = x.loggedIn ∧
    x.close.playerUuid = x.playerUuid := by
  unfold Handler.close
  split_ifs
  · exact ⟨rfl, rfl, rfl⟩
  · exact ⟨rfl, rfl, rfl⟩

namespace Logins
variable {accounts : Accounts} {s t : Logins} {h : ℕ}

def Holds (s : Logins) (uuid : UInt32) (h : ℕ) : Prop :=
  (s.handler h).life = .opened ∧ (s.handler h).loggedIn = true ∧ (s.handler h).playerUuid = uuid

theorem holds_setHandler {x : Handler} (hx : x.life = (s.handler h).life ∧
    x.loggedIn = (s.handler h).loggedIn ∧ x.playerUuid = (s.handler h).playerUuid)
    (uuid : UInt32) (k : ℕ) : (s.setHandler h x).Holds uuid k ↔ s.Holds uuid k := by
  unfold Holds
  rw [setHandler_handler]
  split_ifs with hkh
  · rw [hx.1, hx.2.1, hx.2.2, hkh]
  · rfl

structure Sound (s : Logins) : Prop where
  fresh : ∀ h, (s.handler h).life = .fresh → s.handler h = {}
  loginStatus : ∀ h, (s.handler h).loggedIn = true → (s.handler h).loginStatus = true
  registered : ∀ uuid h, s.uuidHandler uuid = some (some h) →
    (s.handler h).loggedIn = true ∧ (s.handler h).playerUuid = uuid
  waits : ∀ h w, (s.handler h).offlineHandler = some w → (s.handler h).loggedIn = true ∧
    (s.handler w).loginStatus = true ∧ (s.handler w).playerUuid = (s.handler h).playerUuid ∧ w ≠ h

theorem sound_initial : ({} : Logins).Sound := by
  constructor
  · intro h hfresh
    rfl
  · intro h hlogged
    cases hlogged
  · intro uuid h hreg
    cases hreg
  · intro h w hoffline
    cases hoffline

theorem Sound.setHandler (hs : s.Sound) {x : Handler}
    (hfresh : x.life ≠ .fresh) (huuid : x.playerUuid = (s.handler h).playerUuid)
    (hstatus : (s.handler h).loginStatus = true → x.loginStatus = true)
    (hlogged : (s.handler h).loggedIn = true → x.loggedIn = true)
    (hlogin : x.loggedIn = true → x.loginStatus = true)
    (hoffline : ∀ w, x.offlineHandler = some w → x.loggedIn = true ∧ w ≠ h ∧
      (s.handler w).loginStatus = true ∧ (s.handler w).playerUuid = (s.handler h).playerUuid) :
    (s.setHandler h x).Sound := by
  constructor
  · intro k hk
    rw [setHandler_handler] at hk ⊢
    split_ifs at hk ⊢
    · exact absurd hk hfresh
    · exact hs.fresh k hk
  · intro k hk
    rw [setHandler_handler] at hk ⊢
    split_ifs at hk ⊢
    · exact hlogin hk
    · exact hs.loginStatus k hk
  · intro uuid k hreg
    obtain ⟨hk, hku⟩ := hs.registered uuid k hreg
    rw [setHandler_handler]
    split_ifs with hkh
    · exact ⟨hlogged (hkh ▸ hk), huuid.trans (hkh ▸ hku)⟩
    · exact ⟨hk, hku⟩
  · have hsame : ∀ k, ((s.setHandler h x).handler k).playerUuid = (s.handler k).playerUuid := by
      intro k
      rw [setHandler_handler]
      split_ifs with hkh
      · rw [huuid, hkh]
      · rfl
    have hverified : ∀ k, (s.handler k).loginStatus = true →
        ((s.setHandler h x).handler k).loginStatus = true := by
      intro k hk
      rw [setHandler_handler]
      split_ifs with hkh
      · exact hstatus (hkh ▸ hk)
      · exact hk
    intro k w hw
    rw [hsame, hsame]
    rw [setHandler_handler] at hw ⊢
    split_ifs at hw ⊢ with hkh
    · obtain ⟨hx, hne, hwaiting, hplayer⟩ := hoffline w hw
      exact ⟨hx, hverified w hwaiting, hkh ▸ hplayer, hkh ▸ hne⟩
    · obtain ⟨hk, hwaiting, hplayer, hne⟩ := hs.waits k w hw
      exact ⟨hk, hverified w hwaiting, hplayer, hne⟩

theorem Sound.setEntry (hs : s.Sound) {uuid : UInt32} {entry : Option (Option ℕ)}
    (hentry : ∀ h, entry = some (some h) →
      (s.handler h).loggedIn = true ∧ (s.handler h).playerUuid = uuid) :
    (s.setEntry uuid entry).Sound := by
  refine ⟨hs.fresh, hs.loginStatus, fun u h hreg => ?_, hs.waits⟩
  rw [setEntry_uuidHandler] at hreg
  split_ifs at hreg with hu
  · exact hu ▸ hentry h hreg
  · exact hs.registered u h hreg

theorem Sound.verify (hs : s.Sound) (hopen : (s.handler h).life = .opened)
    (hguest : (s.handler h).loginStatus = false) (uuid : UInt32) :
    (s.setHandler h { s.handler h with playerUuid := uuid, loginStatus := true }).Sound := by
  have hlogged : (s.handler h).loggedIn = false := by
    rcases hlogged : (s.handler h).loggedIn with _ | _
    · rfl
    · exact absurd (hguest.symm.trans (hs.loginStatus h hlogged)) (by decide)
  constructor
  · intro k hk
    rw [setHandler_handler] at hk ⊢
    split_ifs at hk ⊢
    · exact absurd (hopen.symm.trans hk) (by decide)
    · exact hs.fresh k hk
  · intro k hk
    rw [setHandler_handler] at hk ⊢
    split_ifs at hk ⊢
    · rfl
    · exact hs.loginStatus k hk
  · intro u k hreg
    have hk := hs.registered u k hreg
    have hkh : k ≠ h := by
      rintro rfl
      exact absurd (hlogged.symm.trans hk.1) (by decide)
    rwa [setHandler_handler, if_neg hkh]
  · intro k w hw
    have hkh : k ≠ h := by
      rintro rfl
      rw [setHandler_handler, if_pos rfl] at hw
      exact absurd (hlogged.symm.trans (hs.waits _ w hw).1) (by decide)
    rw [setHandler_handler, if_neg hkh] at hw
    have hwait := hs.waits k w hw
    have hwh : w ≠ h := by
      rintro rfl
      exact absurd (hguest.symm.trans hwait.2.1) (by decide)
    rw [setHandler_handler, setHandler_handler, if_neg hkh, if_neg hwh]
    exact hwait

theorem Sound.loginHandle2 (hs : s.Sound) (hopen : (s.handler h).life = .opened) :
    (s.loginHandle2 h).Sound := by
  have hset : (s.setHandler h { s.handler h with loginStatus := true, loggedIn := true }).Sound := by
    apply hs.setHandler
    · exact fun hfresh => absurd (hopen.symm.trans hfresh) (by decide)
    · rfl
    · exact fun _ => rfl
    · exact fun _ => rfl
    · exact fun _ => rfl
    · intro w hw
      obtain ⟨-, hwaiting, hplayer, hne⟩ := hs.waits h w hw
      exact ⟨rfl, hne, hwaiting, hplayer⟩
  apply hset.setEntry
  intro k hk
  obtain rfl := Option.some.inj (Option.some.inj hk)
  simp

theorem Sound.handOver (hs : s.Sound) {g : ℕ} (hstatus : (s.handler h).loginStatus = true)
    (hguest : (s.handler h).loggedIn = false)
    (hreg : s.uuidHandler (s.handler h).playerUuid = some (some g)) : (s.loginHandle h).Sound := by
  rw [loginHandle_of_registered hreg]
  obtain ⟨hg, huuid⟩ := hs.registered _ g hreg
  have hne : h ≠ g := by
    rintro rfl
    exact absurd (hguest.symm.trans hg) (by decide)
  have hlife : (s.handler g).life ≠ .fresh := by
    intro hfresh
    rw [hs.fresh g hfresh] at hg
    cases hg
  apply Sound.setEntry
  · unfold Handler.close
    split_ifs
    all_goals
      refine hs.setHandler hlife rfl id id (hs.loginStatus g) fun w hw => ?_
      obtain rfl := Option.some.inj hw
      exact ⟨hg, hne, hstatus, huuid.symm⟩
  · exact nofun

theorem Sound.dispose (hs : s.Sound) : (s.dispose h).Sound := by
  apply hs.setHandler
  · exact fun hfresh => Life.noConfusion hfresh
  · rfl
  · exact id
  · exact id
  · exact hs.loginStatus h
  · exact nofun

theorem Sound.heartCheck (hs : s.Sound) (uuid : UInt32) (now : Int) :
    (s.heartCheck uuid now).Sound := by
  unfold Logins.heartCheck
  split
  · next g hreg =>
    split_ifs
    · apply Sound.setEntry
      · obtain ⟨hg, -⟩ := hs.registered uuid g hreg
        have hlife : (s.handler g).life ≠ .fresh := by
          intro hfresh
          rw [hs.fresh g hfresh] at hg
          cases hg
        unfold Handler.close
        split_ifs
        all_goals
          refine hs.setHandler hlife rfl id id (hs.loginStatus g) fun w hw => ?_
          obtain ⟨hlogged, hwaiting, hplayer, hne⟩ := hs.waits g w hw
          exact ⟨hlogged, hne, hwaiting, hplayer⟩
      · exact nofun
    · exact hs
  · exact hs

theorem Sound.setLastTime (hs : s.Sound) (hopen : (s.handler h).life = .opened) (now : Int) :
    (s.setHandler h { s.handler h with lastTime := now }).Sound := by
  apply hs.setHandler
  · exact fun hfresh => absurd (hopen.symm.trans hfresh) (by decide)
  · rfl
  · exact id
  · exact id
  · exact hs.loginStatus h
  · intro w hw
    obtain ⟨hlogged, hwaiting, hplayer, hne⟩ := hs.waits h w hw
    exact ⟨hlogged, hne, hwaiting, hplayer⟩

theorem Sound.connect (hs : s.Sound) (hfresh : (s.handler h).life = .fresh) :
    (s.setHandler h { life := .opened }).Sound := by
  have hh := hs.fresh h hfresh
  apply hs.setHandler
  · exact fun hfresh => Life.noConfusion hfresh
  · rw [hh]
  · rw [hh]
    exact id
  · rw [hh]
    exact id
  · exact id
  · exact nofun

end Logins

/-! ## The slots -/

namespace ChatLogins
variable {accounts : Accounts} {s t : ChatLogins} {h : ℕ}

/-- The slots are those of the players that have a connection, one connection each. -/
structure Kept (s : ChatLogins) : Prop where
  sound : s.logins.Sound
  allots : Slots.Allots (List.range maxClient).reverse s.chat.remainPlayerIndex
    s.chat.onlinePlayerIndex s.chat.uuidIndexMap
  slot_iff : ∀ uuid, (∃ i, s.chat.uuidIndexMap uuid = some i) ↔ ∃ h, s.logins.Holds uuid h
  one : ∀ uuid h k, s.logins.Holds uuid h → s.logins.Holds uuid k → h = k

theorem kept_initial : ({} : ChatLogins).Kept := by
  constructor
  · exact Logins.sound_initial
  · dsimp only
    apply Slots.allots_all
    exact List.nodup_reverse.mpr List.nodup_range
  · intro uuid
    constructor
    · rintro ⟨i, hi⟩
      cases hi
    · rintro ⟨h, hopen, -⟩
      cases hopen
  · rintro uuid h k ⟨hopen, -⟩
    cases hopen

theorem Kept.of_same (hs : s.Kept) (hsound : t.logins.Sound) (hchat : t.chat = s.chat)
    (hholds : ∀ uuid k, t.logins.Holds uuid k ↔ s.logins.Holds uuid k) : t.Kept := by
  constructor
  · exact hsound
  · rw [hchat]
    exact hs.allots
  · intro uuid
    rw [hchat, hs.slot_iff]
    exact exists_congr fun k => (hholds uuid k).symm
  · intro uuid h k hh hk
    exact hs.one uuid h k ((hholds uuid h).mp hh) ((hholds uuid k).mp hk)

theorem Kept.loginHandle2 (hs : s.Kept) (hopen : (s.logins.handler h).life = .opened)
    (hslot : s.chat.uuidIndexMap (s.logins.handler h).playerUuid = none)
    (hfree : s.chat.remainPlayerIndex ≠ []) : (s.loginHandle2 h).Kept := by
  obtain ⟨uuid, huuid⟩ : ∃ uuid, uuid = (s.logins.handler h).playerUuid := ⟨_, rfl⟩
  obtain ⟨rest, index, hremain⟩ : ∃ rest index, s.chat.remainPlayerIndex = rest ++ [index] :=
    ⟨_, _, (List.dropLast_append_getLast hfree).symm⟩
  have hnone : ∀ k, ¬ s.logins.Holds uuid k := by
    intro k hk
    obtain ⟨i, hi⟩ := (hs.slot_iff uuid).mpr ⟨k, hk⟩
    rw [huuid, hslot] at hi
    cases hi
  have hchat : (s.loginHandle2 h).chat =
      { remainPlayerIndex := rest
        onlinePlayerIndex := s.chat.onlinePlayerIndex ++ [index]
        uuidIndexMap := Function.update s.chat.uuidIndexMap uuid (some index)
        player := Function.update s.chat.player index ⟨some h, uuid⟩ } := by
    simp [ChatLogins.loginHandle2, ChatWorker.onlineNotify, Logins.loginHandle2, hremain, huuid]
  have hholds : ∀ v k, (s.loginHandle2 h).logins.Holds v k ↔
      if k = h then v = uuid else s.logins.Holds v k := by
    intro v k
    simp only [ChatLogins.loginHandle2, Logins.loginHandle2, Logins.Holds, Logins.setHandler_handler,
      Logins.setEntry_handler]
    split_ifs with hkh
    · rw [huuid]
      simp [hopen, eq_comm]
    · rfl
  constructor
  · exact hs.sound.loginHandle2 hopen
  · rw [hchat]
    exact Slots.Allots.take (hremain ▸ hs.allots) (huuid ▸ hslot)
  · intro v
    rw [hchat]
    dsimp only
    rw [Function.update_apply]
    split_ifs with hv
    · constructor
      · exact fun _ => ⟨h, (hholds v h).mpr (by rw [if_pos rfl, hv])⟩
      · exact fun _ => ⟨index, rfl⟩
    · rw [hs.slot_iff]
      refine exists_congr fun k => ?_
      rw [hholds]
      split_ifs with hkh
      · constructor
        · rintro ⟨-, -, hk⟩
          rw [hkh, ← huuid] at hk
          exact hk.symm
        · exact fun hvu => absurd hvu hv
      · rfl
  · intro v k l hk hl
    rw [hholds] at hk hl
    split_ifs at hk hl with hkh hlh hlh
    · exact hkh.trans hlh.symm
    · exact absurd (hk ▸ hl) (hnone l)
    · exact absurd (hl ▸ hk) (hnone k)
    · exact hs.one v k l hk hl

/-- When `OnClose` runs for a connection whose login has completed, its player is still in the
table; when it runs for another one, it finds no slot of the player it is for. -/
def Finds (s : ChatLogins) (h : ℕ) : Prop :=
  let x := s.logins.handler h
  if x.loggedIn then s.logins.uuidHandler x.playerUuid ≠ none
  else s.logins.uuidHandler x.playerUuid = none ∨ s.chat.uuidIndexMap x.playerUuid = none

def closed (s : ChatLogins) (h : ℕ) : ChatLogins :=
  let x := s.logins.handler h
  let found := (s.logins.uuidHandler x.playerUuid).isSome
  let logins := if found ∧ x.isClientOff then s.logins.setEntry x.playerUuid none else s.logins
  { logins := logins.dispose h
    chat := if found then s.chat.offlineNotify x.playerUuid else s.chat }

theorem onClose_eq (s : ChatLogins) (h : ℕ) : s.onClose h =
    match (s.logins.handler h).offlineHandler with
    | some w => (s.closed h).loginHandle2 w
    | none => s.closed h := rfl

theorem closed_handler (k : ℕ) : (s.closed h).logins.handler k =
    if k = h then { s.logins.handler h with life := .disposed, offlineHandler := none }
    else s.logins.handler k := by
  unfold closed Logins.dispose
  dsimp only
  split_ifs <;> simp_all

theorem closed_holds (uuid : UInt32) (k : ℕ) :
    (s.closed h).logins.Holds uuid k ↔ k ≠ h ∧ s.logins.Holds uuid k := by
  unfold Logins.Holds
  rw [closed_handler]
  split_ifs with hkh
  · simp [hkh]
  · simp [hkh]

theorem Kept.closed (hs : s.Kept) (hopen : (s.logins.handler h).life = .opened)
    (hfinds : s.Finds h) : (s.closed h).Kept := by
  have hsound : (s.closed h).logins.Sound := by
    unfold ChatLogins.closed
    dsimp only
    split_ifs
    · apply Logins.Sound.dispose
      apply hs.sound.setEntry
      exact nofun
    · exact hs.sound.dispose
  obtain ⟨uuid, huuid⟩ : ∃ uuid, uuid = (s.logins.handler h).playerUuid := ⟨_, rfl⟩
  have hchat : (s.closed h).chat =
      if (s.logins.uuidHandler uuid).isSome then s.chat.offlineNotify uuid else s.chat := by
    rw [huuid]
    rfl
  unfold Finds at hfinds
  dsimp only at hfinds
  rw [← huuid] at hfinds
  rcases hlogged : (s.logins.handler h).loggedIn with _ | _
  · -- the connection had no slot, and none is given back
    rw [hlogged, if_neg (by decide)] at hfinds
    apply hs.of_same hsound
    · rw [hchat]
      obtain hnone | hnone := hfinds
      · rw [hnone]
        rfl
      · unfold ChatWorker.offlineNotify
        rw [hnone, ite_self]
    · intro v k
      rw [closed_holds, and_iff_right_iff_imp]
      rintro ⟨-, hk, -⟩ rfl
      exact absurd (hlogged.symm.trans hk) (by decide)
  · rw [hlogged, if_pos rfl] at hfinds
    have hh : s.logins.Holds uuid h := ⟨hopen, hlogged, huuid.symm⟩
    obtain ⟨index, hindex⟩ := (hs.slot_iff uuid).mpr ⟨h, hh⟩
    have hchat : (s.closed h).chat =
        { remainPlayerIndex := s.chat.remainPlayerIndex ++ [index]
          onlinePlayerIndex := s.chat.onlinePlayerIndex.filter (· != index)
          uuidIndexMap := Function.update s.chat.uuidIndexMap uuid none
          player := Function.update s.chat.player index
            { s.chat.player index with handerpointer := none } } := by
      rw [hchat, if_pos (Option.isSome_iff_ne_none.mpr hfinds), ChatWorker.offlineNotify, hindex]
    constructor
    · exact hsound
    · rw [hchat]
      exact hs.allots.give hindex
    · intro v
      rw [hchat]
      dsimp only
      rw [Function.update_apply]
      split_ifs with hv
      · constructor
        · rintro ⟨i, hi⟩
          cases hi
        · rintro ⟨k, hk⟩
          obtain ⟨hkh, hk⟩ := (closed_holds v k).mp hk
          exact absurd (hs.one uuid k h (hv ▸ hk) hh) hkh
      · rw [hs.slot_iff]
        refine exists_congr fun k => ?_
        rw [closed_holds, iff_and_self]
        rintro ⟨-, -, hk⟩ rfl
        exact hv (hk.symm.trans huuid.symm)
    · intro v k l hk hl
      exact hs.one v k l ((closed_holds v k).mp hk).2 ((closed_holds v l).mp hl).2

theorem offlineNotify_uuidIndexMap (chat : ChatWorker) (uuid : UInt32) :
    (chat.offlineNotify uuid).uuidIndexMap uuid = none := by
  unfold ChatWorker.offlineNotify
  split
  · exact Function.update_self _ _ _
  · next hnone => exact hnone

theorem Kept.onClose (hs : s.Kept) (hopen : (s.logins.handler h).life = .opened)
    (hfinds : s.Finds h)
    (hwaits : ∀ w, (s.logins.handler h).offlineHandler = some w →
      (s.logins.handler w).life = .opened) : (s.onClose h).Kept := by
  have hclosed := hs.closed hopen hfinds
  rw [onClose_eq]
  split
  · next w hw =>
    obtain ⟨hlogged, -, hplayer, hne⟩ := hs.sound.waits h w hw
    have hw' : (s.closed h).logins.handler w = s.logins.handler w := by
      rw [closed_handler, if_neg hne]
    unfold Finds at hfinds
    dsimp only at hfinds
    rw [hlogged, if_pos rfl] at hfinds
    obtain ⟨index, hindex⟩ :=
      (hs.slot_iff (s.logins.handler h).playerUuid).mpr ⟨h, hopen, hlogged, rfl⟩
    have hchat : (s.closed h).chat = s.chat.offlineNotify (s.logins.handler h).playerUuid :=
      if_pos (Option.isSome_iff_ne_none.mpr hfinds)
    apply hclosed.loginHandle2
    · rw [hw']
      exact hwaits w hw
    · rw [hw', hplayer, hchat]
      exact offlineNotify_uuidIndexMap _ _
    · rw [hchat, ChatWorker.offlineNotify, hindex]
      simp
  · exact hclosed

/-- A login that completes at once is for a player without a slot, while there is a free one.
An end finds what it gives back, and who waits for it is still connected. -/
def Slotwise (accounts : Accounts) (s : ChatLogins) : LoginEvent → Prop
  | .login h account passwd => (s.logins.handler h).loginStatus = false →
      ∀ uuid, accounts.verifyUser account passwd = some uuid →
        (∀ g, s.logins.uuidHandler uuid ≠ some (some g)) →
          s.chat.uuidIndexMap uuid = none ∧ s.chat.remainPlayerIndex ≠ []
  | .onClose h => s.Finds h ∧ ∀ w, (s.logins.handler h).offlineHandler = some w →
      (s.logins.handler w).life = .opened
  | _ => True

theorem Kept.loginRequest (hs : s.Kept) {account passwd : String}
    (hopen : (s.logins.handler h).life = .opened)
    (hC : s.Slotwise accounts (.login h account passwd)) :
    (s.loginRequest accounts h account passwd).Kept := by
  unfold ChatLogins.loginRequest
  split_ifs with hstatus
  · exact hs
  have hguest : (s.logins.handler h).loginStatus = false := by simpa using hstatus
  have hlogged : (s.logins.handler h).loggedIn = false := by
    rcases hlogged : (s.logins.handler h).loggedIn with _ | _
    · rfl
    · exact absurd (hs.sound.loginStatus h hlogged) hstatus
  split
  · exact hs
  next uuid huuid =>
  dsimp only
  generalize hu : ({ logins := _, chat := s.chat } : ChatLogins) = u
  have hhandler : ∀ k, u.logins.handler k = if k = h then
      { s.logins.handler h with playerUuid := uuid, loginStatus := true } else
        s.logins.handler k := by
    intro k
    rw [← hu]
    exact Logins.setHandler_handler _ k
  have hh := hhandler h
  rw [if_pos rfl] at hh
  have hverified : u.Kept := by
    rw [← hu]
    refine hs.of_same (hs.sound.verify hopen hguest uuid) rfl fun v k => ?_
    unfold Logins.Holds
    dsimp only
    rw [Logins.setHandler_handler]
    split_ifs with hkh
    · simp [hkh, hlogged]
    · rfl
  unfold ChatLogins.loginHandle
  split
  · next g hreg =>
    have hstatus : (u.logins.handler h).loginStatus = true := by rw [hh]
    have hsound := hverified.sound.handOver hstatus (by rw [hh]; exact hlogged) hreg
    refine hverified.of_same hsound rfl fun v k => ?_
    dsimp only
    rw [Logins.loginHandle_of_registered hreg]
    apply Logins.holds_setHandler
    exact Handler.close_same _
  · next hreg =>
    have hentry : ∀ g, s.logins.uuidHandler uuid ≠ some (some g) := by
      intro g hg
      refine hreg g ?_
      rw [hh, ← hu]
      exact hg
    obtain ⟨hslot, hfree⟩ := hC hguest uuid huuid hentry
    have hchat : u.chat = s.chat := by rw [← hu]
    apply hverified.loginHandle2
    · rw [hh]
      exact hopen
    · rw [hh, hchat]
      exact hslot
    · rw [hchat]
      exact hfree

theorem kept_step {e : LoginEvent} (hs : s.Kept) (hC : s.Slotwise accounts e)
    (ht : s.step accounts e = some t) : t.Kept := by
  cases e with
  | login h account passwd =>
    obtain ⟨hopen, rfl⟩ := by simpa [step] using ht
    exact hs.loginRequest hopen hC
  | onClose h =>
    obtain ⟨hopen, rfl⟩ := by simpa [step] using ht
    exact hs.onClose hopen hC.1 hC.2
  | connect h =>
    obtain ⟨logins, hlogins, rfl⟩ := Option.map_eq_some_iff.mp ht
    obtain ⟨hfresh, rfl⟩ := by simpa [Logins.step] using hlogins
    refine hs.of_same (hs.sound.connect hfresh) rfl fun uuid k => ?_
    have hh := hs.sound.fresh h hfresh
    unfold Logins.Holds
    dsimp only
    rw [Logins.setHandler_handler]
    split_ifs with hkh
    · simp [hkh, hh]
    · rfl
  | message h now =>
    obtain ⟨logins, hlogins, rfl⟩ := Option.map_eq_some_iff.mp ht
    obtain ⟨hopen, rfl⟩ := by simpa [Logins.step] using hlogins
    split_ifs
    · refine hs.of_same (hs.sound.setLastTime hopen now) rfl fun uuid k => ?_
      apply Logins.holds_setHandler
      exact ⟨rfl, rfl, rfl⟩
    · exact hs
  | heartBeat h now =>
    obtain ⟨logins, hlogins, rfl⟩ := Option.map_eq_some_iff.mp ht
    obtain ⟨hopen, rfl⟩ := by simpa [Logins.step] using hlogins
    refine hs.of_same (hs.sound.setLastTime hopen now) rfl fun uuid k => ?_
    apply Logins.holds_setHandler
    exact ⟨rfl, rfl, rfl⟩
  | heartCheck uuid now =>
    simp only [step, Logins.step, Option.map_some] at ht
    obtain rfl := Option.some.inj ht
    refine hs.of_same (hs.sound.heartCheck uuid now) rfl fun v k => ?_
    dsimp only
    unfold Logins.heartCheck
    split
    · split_ifs
      · apply Logins.holds_setHandler
        exact Handler.close_same _
      · rfl
    · rfl
  | reply uuid =>
    simp only [step, Logins.step, Option.map_some] at ht
    obtain rfl := Option.some.inj ht
    split_ifs
    · refine hs.of_same (hs.sound.setEntry ?_) rfl fun v k => Iff.rfl
      exact fun h hsome => absurd (Option.some.inj hsome).symm (Option.some_ne_none h)
    · exact hs

/-! ## The states between closes and hand-overs -/

def Settled (s : ChatLogins) : Prop :=
  ∀ h, (s.logins.handler h).life = .opened →
    (s.logins.handler h).closing = false ∧ (s.logins.handler h).offlineHandler = none

/-- The slots are free or online, and the online ones belong to the players that are logged in. -/
structure Partitioned (s : ChatLogins) : Prop where
  slots : (s.chat.remainPlayerIndex ++ s.chat.onlinePlayerIndex).Perm (List.range maxClient)
  online : ∀ i, i ∈ s.chat.onlinePlayerIndex ↔ ∃ uuid, s.chat.uuidIndexMap uuid = some i
  inj : ∀ u v i, s.chat.uuidIndexMap u = some i → s.chat.uuidIndexMap v = some i → u = v
  logged : ∀ uuid, (∃ i, s.chat.uuidIndexMap uuid = some i) ↔
    ∃ h, (s.logins.handler h).Live ∧ (s.logins.handler h).playerUuid = uuid

theorem Kept.partitioned (hs : s.Kept) (hsettled : s.Settled) : s.Partitioned := by
  constructor
  · exact hs.allots.perm.trans (List.reverse_perm _)
  · exact hs.allots.used_iff
  · exact hs.allots.inj
  · intro uuid
    rw [hs.slot_iff]
    refine exists_congr fun h => ?_
    constructor
    · rintro ⟨hopen, hlogged, huuid⟩
      exact ⟨⟨hopen, hlogged, (hsettled h hopen).1⟩, huuid⟩
    · rintro ⟨⟨hopen, hlogged, -⟩, huuid⟩
      exact ⟨hopen, hlogged, huuid⟩

/-- In a run whose logins and ends are in order, the slots are those of the players that are
logged in, in every state in which no close and no hand-over is pending. -/
theorem partitioned_run (accounts : Accounts) (es : List LoginEvent)
    (hC : Run.EachStep (step accounts) (Slotwise accounts) {} es) :
    Run.Always (step accounts) (fun s => s.Settled → s.Partitioned) {} es := by
  have hkept := Run.always_of_eachStep (I := Kept) (fun s e t hs hC ht => kept_step hs hC ht)
    kept_initial hC
  exact hkept.mono fun s hs hsettled => hs.partitioned hsettled

def twoPlayers : Accounts where
  verifyUser account _ := some (if account = "guest" then 7 else 8)
  ne_zero account _ := by split_ifs <;> decide

def visits : List LoginEvent :=
  [.connect 0, .login 0 "guest" "passwd", .connect 1, .login 1 "miner" "passwd", .message 1 5,
    .onClose 0]

theorem slotwise_visits : Run.EachStep (step twoPlayers) (Slotwise twoPlayers) {} visits := by
  intro s hs
  obtain rfl := Option.some.inj hs
  refine ⟨trivial, fun s hs => ?_⟩
  obtain rfl := Option.some.inj hs
  refine ⟨fun _ uuid huuid hentry => ⟨rfl, ?_⟩, fun s hs => ⟨trivial, fun t ht => ?_⟩⟩
  · exact List.ne_nil_of_length_pos (by simp [maxClient])
  obtain rfl := Option.some.inj hs
  obtain rfl := Option.some.inj ht
  refine ⟨fun _ uuid huuid _ => ?_, fun s hs => ⟨trivial, fun t ht => ?_⟩⟩
  · obtain rfl : 8 = uuid := Option.some.inj huuid
    dsimp only
    -- the first login takes one slot, for player 7
    obtain hchat | ⟨v, hv, hchat⟩ := @loginRequest_chat twoPlayers _ 0 "guest" "passwd"
    · rw [hchat]
      exact ⟨rfl, List.ne_nil_of_length_pos (by simp [maxClient])⟩
    · obtain rfl : 7 = v := Option.some.inj hv
      rw [hchat, ChatWorker.onlineNotify_uuidIndexMap_of_ne (by decide)]
      refine ⟨rfl, List.ne_nil_of_length_pos ?_⟩
      apply Nat.lt_of_lt_of_le _ (ChatWorker.length_sub_one_le_onlineNotify ..)
      simp [maxClient]
  obtain rfl := Option.some.inj hs
  obtain rfl := Option.some.inj ht
  exact ⟨⟨Option.some_ne_none _, nofun⟩, trivial⟩

theorem partitioned_visits :
    Run.Always (step twoPlayers) (fun s => s.Settled → s.Partitioned) {} visits :=
  partitioned_run twoPlayers visits slotwise_visits

def seven : Accounts := ⟨fun _ _ => some 7, Accounts.seven_ne_zero⟩

theorem Kept.not_partitioned_onClose {uuid : UInt32} (hs : s.Kept) (hh : s.logins.Holds uuid h)
    (hlost : s.logins.uuidHandler uuid = none)
    (hoffline : (s.logins.handler h).offlineHandler = none) : ¬ (s.onClose h).Partitioned := by
  intro hpart
  have hclose : s.onClose h = s.closed h := by rw [onClose_eq, hoffline]
  have hchat : (s.closed h).chat = s.chat := by
    unfold ChatLogins.closed
    dsimp only
    rw [hh.2.2, hlost]
    rfl
  rw [hclose] at hpart
  have hslot := (hs.slot_iff uuid).mpr ⟨h, hh⟩
  rw [← hchat] at hslot
  obtain ⟨k, hlive, hk⟩ := (hpart.logged uuid).mp hslot
  obtain ⟨hkh, hholds⟩ := (closed_holds uuid k).mp ⟨hlive.1, hlive.2.1, hk⟩
  exact hkh (hs.one uuid k h hholds hh)

/-- The connection of a silent player leaves the table before it ends, and keeps its slot. -/
theorem not_partitioned_heartCheck : ¬ ∀ (accounts : Accounts) (es : List LoginEvent),
    Run.Always (step accounts) (fun s => s.Settled → s.Partitioned) {} es := by
  intro h
  have hsilent : Run.EachStep (step seven) (Slotwise seven) {}
      [.connect 0, .login 0 "guest" "passwd", .message 0 1, .heartCheck 7 600] := by
    intro s hs
    obtain rfl := Option.some.inj hs
    refine ⟨trivial, fun t ht => ?_⟩
    obtain rfl := Option.some.inj ht
    refine ⟨fun _ uuid huuid hentry => ⟨rfl, ?_⟩, fun u _ => ⟨trivial, fun v _ => ⟨trivial, trivial⟩⟩⟩
    exact List.ne_nil_of_length_pos (by simp [maxClient])
  have hkept := Run.always_of_eachStep (I := Kept) (fun s e t hs hC ht => kept_step hs hC ht)
    kept_initial hsilent
  obtain ⟨-, hkept⟩ := hkept
  obtain ⟨-, hkept⟩ := hkept _ rfl
  obtain ⟨-, hkept⟩ := hkept _ rfl
  obtain ⟨-, hkept⟩ := hkept _ rfl
  have hbefore := hkept _ rfl
  obtain ⟨-, hrun⟩ := h seven
    [.connect 0, .login 0 "guest" "passwd", .message 0 1, .heartCheck 7 600, .onClose 0]
  obtain ⟨-, hrun⟩ := hrun _ rfl
  obtain ⟨-, hrun⟩ := hrun _ rfl
  obtain ⟨-, hrun⟩ := hrun _ rfl
  obtain ⟨-, hrun⟩ := hrun _ rfl
  refine hbefore.not_partitioned_onClose (h := 0) ⟨rfl, rfl, rfl⟩ rfl rfl (hrun _ rfl ?_)
  rintro (_ | k) hk
  · cases hk
  · cases hk

end ChatLogins

end IceBridge.Gateway
