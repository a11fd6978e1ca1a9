import IceBridge.Gateway.ChatSlots

/-! What the chat worker sends (`_chat_worker.cpp`): a message of the world channel to every slot
that is online, a private one to the slot that it names. -/

namespace IceBridge.Gateway

structure ChannelMsgResponse where
  msg : String
  playerIndex : Int
  deriving DecidableEq

namespace ChatWorker

/-- To which handlers it sends. The index behind the last slot passes the check. -/
def sendMessage (chat : ChatWorker) (message : ChannelMsgResponse) (index : Int) :
    Option (List (ℕ × ChannelMsgResponse)) :=
  if index < 0 ∨ maxClient < index then some []
  else if index = maxClient then none
  else some ((chat.player index.toNat).handerpointer.toList.map fun h => (h, message))

def worldChannelMsgRequestService (chat : ChatWorker) (myIndex : Int) (msg : String) :
    Option (List (ℕ × ChannelMsgResponse)) :=
  if 0 ≤ myIndex ∧ myIndex < maxClient then
    chat.onlinePlayerIndex.foldlM
      (fun sent (index : ℕ) =>
        (chat.sendMessage ⟨msg, myIndex⟩ index).map fun more => sent ++ more) []
  else some []

def privateChannelRequestService (chat : ChatWorker) (myIndex playerIndex : Int) (msg : String) :
    Option (List (ℕ × ChannelMsgResponse)) :=
  if myIndex < 0 ∨ maxClient < myIndex ∨ playerIndex < 0 ∨ maxClient < playerIndex then some []
  else if playerIndex = maxClient then none
  else if (chat.player playerIndex.toNat).handerpointer = none ∨ playerIndex = myIndex then some []
  else if myIndex = maxClient then none
  else chat.sendMessage ⟨msg, myIndex⟩ playerIndex

variable {chat : ChatWorker} {message : ChannelMsgResponse} {i : ℕ}

theorem sendMessage_of_lt (hi : i < maxClient) : chat.sendMessage message i =
    some ((chat.player i).handerpointer.toList.map fun h => (h, message)) := by
  have hint : (i : Int) < maxClient := Int.ofNat_lt.mpr hi
  unfold sendMessage
  rw [if_neg (by omega), if_neg (by omega), Int.toNat_natCast]

theorem foldlM_sendMessage {is : List ℕ} (his : ∀ i ∈ is, i < maxClient)
    (sent : List (ℕ × ChannelMsgResponse)) :
    is.foldlM (fun sent (index : ℕ) =>
        (chat.sendMessage message index).map fun more => sent ++ more) sent =
      some (sent ++ (is.filterMap fun i => (chat.player i).handerpointer).map
        fun h => (h, message)) := by
  induction is generalizing sent with
  | nil => simp
  | cons i is ih =>
    rw [List.foldlM_cons, sendMessage_of_lt (his i List.mem_cons_self)]
    show is.foldlM _ _ = _
    rw [ih fun j hj => his j (List.mem_cons_of_mem i hj), List.filterMap_cons]
    cases (chat.player i).handerpointer with
    | none => simp
    | some h => simp

end ChatWorker

theorem Logins.holds_verify {s : Logins} {h : ℕ} (hlogged : (s.handler h).loggedIn = false)
    (uuid v : UInt32) (k : ℕ) :
    (s.setHandler h { s.handler h with playerUuid := uuid, loginStatus := true }).Holds v k ↔
      s.Holds v k := by
  unfold Logins.Holds
  rw [Logins.setHandler_handler]
  split_ifs with hkh
  · simp [hkh, hlogged]
  · rfl

namespace ChatLogins
variable {accounts : Accounts} {s t : ChatLogins} {h : ℕ}

structure Points (s : ChatLogins) : Prop where
  used : ∀ uuid i, s.chat.uuidIndexMap uuid = some i →
    ∃ h, s.chat.player i = ⟨some h, uuid⟩ ∧ s.logins.Holds uuid h
  free : ∀ i, (∀ uuid, s.chat.uuidIndexMap uuid ≠ some i) →
    (s.chat.player i).handerpointer = none

theorem points_initial : ({} : ChatLogins).Points where
  used _ i hi := absurd hi (Option.some_ne_none i).symm
  free _ _ := rfl

theorem Points.of_same (hp : s.Points) (hchat : t.chat = s.chat)
    (hholds : ∀ uuid k, s.logins.Holds uuid k → t.logins.Holds uuid k) : t.Points := by
  constructor
  · intro uuid i hi
    rw [hchat] at hi ⊢
    obtain ⟨k, hplayer, hk⟩ := hp.used uuid i hi
    exact ⟨k, hplayer, hholds uuid k hk⟩
  · rw [hchat]
    exact hp.free

theorem loginHandle2_holds (hopen : (s.logins.handler h).life = .opened) (v : UInt32) (k : ℕ) :
    (s.loginHandle2 h).logins.Holds v k ↔
      if k = h then v = (s.logins.handler h).playerUuid else s.logins.Holds v k := by
  simp only [ChatLogins.loginHandle2, Logins.loginHandle2, Logins.Holds, Logins.setHandler_handler,
    Logins.setEntry_handler]
  split_ifs with hkh
  · simp [hopen, eq_comm]
  · rfl

theorem Points.loginHandle2 (hp : s.Points) (hs : s.Kept)
    (hopen : (s.logins.handler h).life = .opened)
    (hslot : s.chat.uuidIndexMap (s.logins.handler h).playerUuid = none)
    (hfree : s.chat.remainPlayerIndex ≠ []) : (s.loginHandle2 h).Points := by
  obtain ⟨uuid, huuid⟩ : ∃ uuid, uuid = (s.logins.handler h).playerUuid := ⟨_, rfl⟩
  obtain ⟨rest, index, hremain⟩ : ∃ rest index, s.chat.remainPlayerIndex = rest ++ [index] :=
    ⟨_, _, (List.dropLast_append_getLast hfree).symm⟩
  have hchat : (s.loginHandle2 h).chat =
      { remainPlayerIndex := rest
        onlinePlayerIndex := s.chat.onlinePlayerIndex ++ [index]
        uuidIndexMap := Function.update s.chat.uuidIndexMap uuid (some index)
        player := Function.update s.chat.player index ⟨some h, uuid⟩ } := by
    simp [ChatLogins.loginHandle2, ChatWorker.onlineNotify, Logins.loginHandle2, hremain, huuid]
  have hnew : ∀ v i, s.chat.uuidIndexMap v = some i → i ≠ index := by
    rintro v i hi rfl
    apply hs.allots.not_free hi
    rw [hremain]
    exact List.mem_append_right _ List.mem_cons_self
  rw [← huuid] at hslot
  constructor
  · intro v i hi
    rw [hchat] at hi ⊢
    dsimp only at hi ⊢
    rcases eq_or_ne v uuid with rfl | hv
    · rw [Function.update_self] at hi
      obtain rfl := Option.some.inj hi
      exact ⟨h, Function.update_self _ _ _, (loginHandle2_holds hopen v h).mpr (by simp [huuid])⟩
    · rw [Function.update_of_ne hv] at hi
      obtain ⟨k, hplayer, hk⟩ := hp.used v i hi
      refine ⟨k, ?_, (loginHandle2_holds hopen v k).mpr ?_⟩
      · rw [Function.update_of_ne (hnew v i hi), hplayer]
      · rw [if_neg]
        · exact hk
        · rintro rfl
          exact hv (hk.2.2.symm.trans huuid.symm)
  · intro i hi
    rw [hchat] at hi ⊢
    dsimp only at hi ⊢
    have hne : i ≠ index := by
      rintro rfl
      exact hi uuid (Function.update_self _ _ _)
    rw [Function.update_of_ne hne]
    apply hp.free
    intro v hv
    rcases eq_or_ne v uuid with rfl | hvu
    · rw [hslot] at hv
      exact Option.some_ne_none i hv.symm
    · exact hi v ((Function.update_of_ne hvu _ _).trans hv)

theorem Points.closed (hp : s.Points) (hs : s.Kept)
    (hopen : (s.logins.handler h).life = .opened) (hfinds : s.Finds h) : (s.closed h).Points := by
  obtain ⟨uuid, huuid⟩ : ∃ uuid, uuid = (s.logins.handler h).playerUuid := ⟨_, rfl⟩
  have hchat : (s.closed h).chat =
      if (s.logins.uuidHandler uuid).isSome then s.chat.offlineNotify uuid else s.chat := by
    rw [huuid]
    rfl
  unfold Finds at hfinds
  dsimp only at hfinds
  rw [← huuid] at hfinds
  rcases hlogged : (s.logins.handler h).loggedIn with _ | _
  · -- the connection had no slot, and none is given back
    rw [hlogged, if_neg (by decide)] at hfinds
    apply hp.of_same
    · rw [hchat]
      obtain hnone | hnone := hfinds
      · rw [hnone]
        rfl
      · unfold ChatWorker.offlineNotify
        rw [hnone, ite_self]
    · intro v k hk
      refine (closed_holds v k).mpr ⟨?_, hk⟩
      rintro rfl
      exact absurd (hlogged.symm.trans hk.2.1) (by decide)
  · rw [hlogged, if_pos rfl] at hfinds
    obtain ⟨index, hindex⟩ := (hs.slot_iff uuid).mpr ⟨h, hopen, hlogged, huuid.symm⟩
    have hchat : (s.closed h).chat =
        { remainPlayerIndex := s.chat.remainPlayerIndex ++ [index]
          onlinePlayerIndex := s.chat.onlinePlayerIndex.filter (· != index)
          uuidIndexMap := Function.update s.chat.uuidIndexMap uuid none
          player := Function.update s.chat.player index
            { s.chat.player index with handerpointer := none } } := by
      rw [hchat, if_pos (Option.isSome_iff_ne_none.mpr hfinds), ChatWorker.offlineNotify, hindex]
    constructor
    · intro v i hi
      rw [hchat] at hi ⊢
      dsimp only at hi ⊢
      rw [Function.update_apply] at hi
      split_ifs at hi with hv
      obtain ⟨k, hplayer, hk⟩ := hp.used v i hi
      have hne : i ≠ index := by
        rintro rfl
        exact hv (hs.allots.inj v uuid i hi hindex)
      refine ⟨k, ?_, (closed_holds v k).mpr ⟨?_, hk⟩⟩
      · rw [Function.update_of_ne hne, hplayer]
      · rintro rfl
        exact hv (hk.2.2.symm.trans huuid.symm)
    · intro i hi
      rw [hchat] at hi ⊢
      dsimp only at hi ⊢
      rw [Function.update_apply]
      split_ifs with hne
      · rfl
      · apply hp.free
        intro v hv
        rcases eq_or_ne v uuid with rfl | hvu
        · exact hne (Option.some.inj (hv.symm.trans hindex))
        · exact hi v ((Function.update_of_ne hvu _ _).trans hv)

theorem Points.onClose (hp : s.Points) (hs : s.Kept)
    (hopen : (s.logins.handler h).life = .opened) (hfinds : s.Finds h)
    (hwaits : ∀ w, (s.logins.handler h).offlineHandler = some w →
      (s.logins.handler w).life = .opened) : (s.onClose h).Points := by
  have hclosed := hs.closed hopen hfinds
  have hpoints := hp.closed hs hopen hfinds
  rw [onClose_eq]
  cases hw : (s.logins.handler h).offlineHandler with
  | none => exact hpoints
  | some w =>
    -- the slot that was given back is free for the connection that waited
    obtain ⟨hlogged, -, hplayer, hne⟩ := hs.sound.waits h w hw
    have hw' : (s.closed h).logins.handler w = s.logins.handler w := by
      rw [closed_handler, if_neg hne]
    unfold Finds at hfinds
    dsimp only at hfinds
    rw [hlogged, if_pos rfl] at hfinds
    obtain ⟨index, hindex⟩ :=
      (hs.slot_iff (s.logins.handler h).playerUuid).mpr ⟨h, hopen, hlogged, rfl⟩
    have hchat : (s.closed h).chat = s.chat.offlineNotify (s.logins.handler h).playerUuid :=
      if_pos (Option.isSome_iff_ne_none.mpr hfinds)
    apply hpoints.loginHandle2 hclosed
    · rw [hw']
      exact hwaits w hw
    · rw [hw', hplayer, hchat]
      exact offlineNotify_uuidIndexMap _ _
    · rw [hchat, ChatWorker.offlineNotify, hindex]
      simp

theorem Points.loginRequest (hp : s.Points) (hs : s.Kept) {account passwd : String}
    (hopen : (s.logins.handler h).life = .opened)
    (hC : s.Slotwise accounts (.login h account passwd)) :
    (s.loginRequest accounts h account passwd).Points := by
  unfold ChatLogins.loginRequest
  split_ifs with hstatus
  · exact hp
  have hguest : (s.logins.handler h).loginStatus = false := by simpa using hstatus
  have hlogged : (s.logins.handler h).loggedIn = false := by
    rcases hlogged : (s.logins.handler h).loggedIn with _ | _
    · rfl
    · exact absurd (hs.sound.loginStatus h hlogged) hstatus
  cases huuid : accounts.verifyUser account passwd with
  | none => exact hp
  | some uuid =>
    dsimp only
    generalize hu : ({ logins := _, chat := s.chat } : ChatLogins) = u
    have hh : u.logins.handler h =
        { s.logins.handler h with playerUuid := uuid, loginStatus := true } := by
      rw [← hu]
      exact (Logins.setHandler_handler _ h).trans (if_pos rfl)
    have hchat : u.chat = s.chat := by rw [← hu]
    have hholds : ∀ v k, u.logins.Holds v k ↔ s.logins.Holds v k := by
      rw [← hu]
      exact Logins.holds_verify hlogged uuid
    have hverified : u.Points := hp.of_same hchat fun v k => (hholds v k).mpr
    unfold ChatLogins.loginHandle
    split
    · next g hreg =>
      apply hverified.of_same
      · rfl
      · intro v k hk
        dsimp only
        rw [Logins.loginHandle_of_registered hreg]
        apply (Logins.holds_setHandler _ v k).mpr hk
        exact Handler.close_same _
    · next hreg =>
      have hentry : ∀ g, s.logins.uuidHandler uuid ≠ some (some g) := by
        intro g hg
        apply hreg g
        rw [hh, ← hu]
        exact hg
      obtain ⟨hslot, hfree⟩ := hC hguest uuid huuid hentry
      have hkept : u.Kept := by
        apply hs.of_same _ hchat hholds
        rw [← hu]
        exact hs.sound.verify hopen hguest uuid
      apply hverified.loginHandle2 hkept
      · rw [hh]
        exact hopen
      · rw [hh, hchat]
        exact hslot
      · rw [hchat]
        exact hfree

theorem points_step {e : LoginEvent} (hp : s.Points) (hs : s.Kept) (hC : s.Slotwise accounts e)
    (ht : s.step accounts e = some t) : t.Points := by
  cases e with
  | login h account passwd =>
    obtain ⟨hopen, rfl⟩ := by simpa [step] using ht
    exact hp.loginRequest hs hopen hC
  | onClose h =>
    obtain ⟨hopen, rfl⟩ := by simpa [step] using ht
    exact hp.onClose hs hopen hC.1 hC.2
  | connect h =>
    obtain ⟨logins, hlogins, rfl⟩ := Option.map_eq_some_iff.mp ht
    obtain ⟨hfresh, rfl⟩ := by simpa [Logins.step] using hlogins
    apply hp.of_same
    · rfl
    · rintro uuid k ⟨hopen, hrest⟩
      have hkh : k ≠ h := by
        rintro rfl
        rw [hfresh] at hopen
        exact absurd hopen (by decide)
      unfold Logins.Holds
      dsimp only
      rw [Logins.setHandler_handler, if_neg hkh]
      exact ⟨hopen, hrest⟩
  | message h now =>
    obtain ⟨logins, hlogins, rfl⟩ := Option.map_eq_some_iff.mp ht
    obtain ⟨-, rfl⟩ := by simpa [Logins.step] using hlogins
    split_ifs
    · apply hp.of_same
      · rfl
      · intro uuid k hk
        apply (Logins.holds_setHandler _ uuid k).mpr hk
        exact ⟨rfl, rfl, rfl⟩
    · exact hp
  | heartBeat h now =>
    obtain ⟨logins, hlogins, rfl⟩ := Option.map_eq_some_iff.mp ht
    obtain ⟨-, rfl⟩ := by simpa [Logins.step] using hlogins
    apply hp.of_same
    · rfl
    · intro uuid k hk
      apply (Logins.holds_setHandler _ uuid k).mpr hk
      exact ⟨rfl, rfl, rfl⟩
  | heartCheck uuid now =>
    simp only [step, Logins.step, Option.map_some] at ht
    obtain rfl := Option.some.inj ht
    apply hp.of_same
    · rfl
    · intro v k hk
      dsimp only
      unfold Logins.heartCheck
      split
      · split_ifs
        · apply (Logins.holds_setHandler _ v k).mpr hk
          exact Handler.close_same _
        · exact hk
      · exact hk
  | reply uuid =>
    simp only [step, Logins.step, Option.map_some] at ht
    obtain rfl := Option.some.inj ht
    split_ifs
    · exact hp.of_same rfl fun v k hk => hk
    · exact hp

/-! ## Who gets a message -/

/-- What is said in the world channel goes to every player with a connection, and to each of them
once; what is said to one player goes to the one connection that he has. -/
structure Reaches (s : ChatLogins) : Prop where
  world : ∀ (myIndex : Int) (msg : String), 0 ≤ myIndex → myIndex < maxClient →
    ∃ handlers : List ℕ, s.chat.worldChannelMsgRequestService myIndex msg =
        some (handlers.map fun h => (h, ⟨msg, myIndex⟩)) ∧
      handlers.Nodup ∧ ∀ h, h ∈ handlers ↔ ∃ uuid, s.logins.Holds uuid h
  one : ∀ (myIndex : Int) (msg : String) (uuid : UInt32) (i : ℕ), 0 ≤ myIndex →
    myIndex < maxClient → s.chat.uuidIndexMap uuid = some i → (i : Int) ≠ myIndex →
      ∃ h, (∀ k, s.logins.Holds uuid k ↔ k = h) ∧
        s.chat.privateChannelRequestService myIndex i msg = some [(h, ⟨msg, myIndex⟩)]
  free : ∀ (myIndex : Int) (msg : String) (i : ℕ), i < maxClient →
    (∀ uuid, s.chat.uuidIndexMap uuid ≠ some i) →
      s.chat.privateChannelRequestService myIndex i msg = some []

theorem Kept.slot_lt (hs : s.Kept) {uuid : UInt32} {i : ℕ}
    (hi : s.chat.uuidIndexMap uuid = some i) : i < maxClient := by
  have hused : i ∈ s.chat.onlinePlayerIndex := (hs.allots.used_iff i).mpr ⟨uuid, hi⟩
  have hall := hs.allots.perm.subset (List.mem_append_right _ hused)
  exact List.mem_range.mp (List.mem_reverse.mp hall)

theorem Points.slot (hp : s.Points) {i : ℕ} (hi : (s.chat.player i).handerpointer = some h) :
    ∃ uuid, s.chat.uuidIndexMap uuid = some i ∧ s.logins.Holds uuid h := by
  by_contra hnone
  have hfree : ∀ uuid, s.chat.uuidIndexMap uuid ≠ some i := by
    intro uuid huuid
    obtain ⟨k, hplayer, hk⟩ := hp.used uuid i huuid
    rw [hplayer] at hi
    exact hnone ⟨uuid, huuid, Option.some.inj hi ▸ hk⟩
  rw [hp.free i hfree] at hi
  exact Option.some_ne_none h hi.symm

theorem Points.world (hp : s.Points) (hs : s.Kept) {myIndex : Int} (msg : String)
    (hfrom : 0 ≤ myIndex) (hto : myIndex < maxClient) :
    ∃ handlers : List ℕ, s.chat.worldChannelMsgRequestService myIndex msg =
        some (handlers.map fun h => (h, ⟨msg, myIndex⟩)) ∧
      handlers.Nodup ∧ ∀ h, h ∈ handlers ↔ ∃ uuid, s.logins.Holds uuid h := by
  have honline : ∀ i ∈ s.chat.onlinePlayerIndex, i < maxClient := by
    intro i hi
    obtain ⟨uuid, huuid⟩ := (hs.allots.used_iff i).mp hi
    exact hs.slot_lt huuid
  refine ⟨s.chat.onlinePlayerIndex.filterMap fun i => (s.chat.player i).handerpointer, ?_, ?_, ?_⟩
  · unfold ChatWorker.worldChannelMsgRequestService
    rw [if_pos ⟨hfrom, hto⟩, ChatWorker.foldlM_sendMessage honline, List.nil_append]
  · have hnodup := (List.nodup_append.mp hs.allots.nodup_append).2.1
    apply hnodup.filterMap
    intro i j h hi hj
    obtain ⟨u, hu, huh⟩ := hp.slot hi
    obtain ⟨v, hv, hvh⟩ := hp.slot hj
    obtain rfl : u = v := huh.2.2.symm.trans hvh.2.2
    exact Option.some.inj (hu.symm.trans hv)
  · intro h
    rw [List.mem_filterMap]
    constructor
    · rintro ⟨i, -, hi⟩
      obtain ⟨uuid, -, hh⟩ := hp.slot hi
      exact ⟨uuid, hh⟩
    · rintro ⟨uuid, hh⟩
      obtain ⟨i, hi⟩ := (hs.slot_iff uuid).mpr ⟨h, hh⟩
      obtain ⟨k, hplayer, hk⟩ := hp.used uuid i hi
      refine ⟨i, (hs.allots.used_iff i).mpr ⟨uuid, hi⟩, ?_⟩
      rw [hplayer, hs.one uuid h k hh hk]

theorem Points.reaches (hp : s.Points) (hs : s.Kept) : s.Reaches := by
  constructor
  · exact fun myIndex msg => hp.world hs msg
  · intro myIndex msg uuid i hfrom hto hi hne
    obtain ⟨h, hplayer, hh⟩ := hp.used uuid i hi
    have hlt := hs.slot_lt hi
    have hint : (i : Int) < maxClient := Int.ofNat_lt.mpr hlt
    refine ⟨h, fun k => ⟨fun hk => hs.one uuid k h hk hh, fun hk => hk ▸ hh⟩, ?_⟩
    unfold ChatWorker.privateChannelRequestService
    rw [if_neg (by omega), if_neg (by omega), if_neg, if_neg (by omega),
      ChatWorker.sendMessage_of_lt hlt, hplayer]
    · rfl
    · rw [Int.toNat_natCast, hplayer]
      simp [hne]
  · intro myIndex msg i hlt hi
    have hint : (i : Int) < maxClient := Int.ofNat_lt.mpr hlt
    unfold ChatWorker.privateChannelRequestService
    split_ifs with hbad hlast hskip
    · rfl
    · omega
    · rfl
    all_goals
      have hfree : (s.chat.player (i : Int).toNat).handerpointer = none := hp.free i hi
      exact absurd (Or.inl hfree) hskip

/-- In a run whose logins and ends are in order the chat reaches whom it should in every state. -/
theorem chat_reaches (accounts : Accounts) (es : List LoginEvent)
    (hC : Run.EachStep (step accounts) (Slotwise accounts) {} es) :
    Run.Always (step accounts) Reaches {} es := by
  have hrun : Run.Always (step accounts) (fun s => s.Kept ∧ s.Points) {} es := by
    apply Run.always_of_eachStep _ ⟨kept_initial, points_initial⟩ hC
    intro s e t hs hC ht
    exact ⟨kept_step hs.1 hC ht, points_step hs.2 hs.1 hC ht⟩
  exact hrun.mono fun s hs => hs.2.reaches hs.1

theorem chat_reaches_visits : Run.Always (step twoPlayers) Reaches {} visits :=
  chat_reaches twoPlayers visits slotwise_visits

end ChatLogins
end IceBridge.Gateway
