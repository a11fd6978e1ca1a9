import IceBridge.Gateway.SessionNames

/-! What a handler sends reaches its own session, though ids are used again: a task that carries
an id was posted before the thread was told of the next session with that id. -/

namespace IceBridge.Gateway
open Eddy (TCPSession Effect NetMessageFilter)
variable {σ M : Type}

theorem closeCalled_step {F : NetMessageFilter σ M} {s t : TCPSession σ M} {e : Eddy.SessionEvent M}
    (ht : s.step F e = some t) (hcalled : t.closeCalled = true) :
    s.closeCalled = true ∨ e = .close := by
  have hclose : ∀ u : TCPSession σ M, u.handleClose.closeCalled = u.closeCalled := by
    intro u
    obtain ⟨-, heq⟩ | ⟨-, heq⟩ := TCPSession.handleClose_cases u
    all_goals rw [heq]
  have hread : ∀ u : TCPSession σ M, (u.startRead F).closeCalled = u.closeCalled := by
    intro u
    obtain ⟨-, heq⟩ | ⟨-, reading, heq⟩ := TCPSession.startRead_cases F u
    all_goals rw [heq]
  cases e with
  | close => exact .inr rfl
  | postMessageList messages =>
    left
    obtain rfl | ⟨-, ⟨left, rfl⟩ | ⟨f, buffer, ⟨-, rfl⟩ | ⟨-, rfl⟩⟩⟩ :=
      TCPSession.postMessageList_cases ht
    all_goals exact hcalled
  | handleRead reading error data =>
    left
    obtain ⟨-, ⟨-, rfl⟩ | ⟨-, hreceive⟩⟩ := TCPSession.step_handleRead_cases ht
    · rwa [TCPSession.shut, hclose] at hcalled
    · rwa [TCPSession.receive_cases hreceive, hread] at hcalled
  | handleWrite buffer error =>
    left
    obtain ⟨-, ⟨-, rfl⟩ | ⟨-, hnext⟩⟩ := TCPSession.step_handleWrite_cases ht
    · rwa [TCPSession.shut, hclose] at hcalled
    obtain ⟨-, f, left, next, rfl⟩ | ⟨-, rfl⟩ := TCPSession.sendNext_cases hnext
    · exact hcalled
    · split at hcalled
      · rwa [hclose] at hcalled
      · exact hcalled
  | packMessageList =>
    left
    rwa [← Option.some.inj ht, TCPSession.packMessageList_eq] at hcalled
  | setReceiveDelay delay =>
    left
    rwa [← Option.some.inj ht] at hcalled

def SessionTask.messagesOf (c : ℕ) : SessionTask M → List M
  | .sendMessageListToSession _ messages sender => if sender = c then messages else []
  | _ => []

def lettersOf (c : ℕ) (tasks : List (SessionTask M)) : List M :=
  tasks.flatMap (SessionTask.messagesOf c)

namespace Threads
variable {x y : Threads σ M} {F : NetMessageFilter σ M} {empty : M → Bool} {c k : ℕ}
  {conn : Connection σ M}

/-- What handler `c` has accepted is posted to its session, on the way or still with it, in order,
as long as the session is not torn down. -/
structure Outgoing (x : Threads σ M) (c : ℕ) (conn : Connection σ M) : Prop where
  posted : conn.posted <+: conn.accepted
  inOrder : conn.session.tornDown = 0 → conn.posted ++
    lettersOf c (x.sessionThread conn.handler.sessionThreadId).tasks ++
      conn.handler.messagesToBeSent = conn.accepted
  waits : conn.handler.messagesToBeSent ≠ [] → .packMessageList c ∈ x.mainTasks
  asked : conn.session.closeCalled = true → conn.closeAsked = true

structure Sends (x : Threads σ M) : Prop where
  outgoing : ∀ (c : ℕ) (conn : Connection σ M), x.connections[c]? = some conn → Outgoing x c conn
  asked : ∀ k id s, .closeSession id s ∈ (x.sessionThread k).tasks →
    ∀ conn : Connection σ M, x.connections[s]? = some conn → conn.closeAsked = true

theorem lettersOf_cons (task : SessionTask M) (rest : List (SessionTask M)) :
    lettersOf c (task :: rest) = task.messagesOf c ++ lettersOf c rest := List.flatMap_cons

theorem lettersOf_concat (tasks : List (SessionTask M)) (task : SessionTask M) :
    lettersOf c (tasks ++ [task]) = lettersOf c tasks ++ task.messagesOf c := by
  simp [lettersOf]

theorem lettersOf_postSession (x : Threads σ M) (k j : ℕ) (task : SessionTask M) :
    lettersOf c ((x.postSession k task).sessionThread j).tasks =
      lettersOf c (x.sessionThread j).tasks ++ if j = k then task.messagesOf c else [] := by
  obtain rfl | hne := eq_or_ne j k
  · rw [postSession, sessionThread_self, if_pos rfl, lettersOf_concat]
  · rw [postSession, sessionThread_ne x _ hne, if_neg hne, List.append_nil]

theorem lettersOf_post_of_nil {task : SessionTask M} (x : Threads σ M) (k j : ℕ)
    (htask : task.messagesOf c = []) :
    lettersOf c ((x.postSession k task).sessionThread j).tasks =
      lettersOf c (x.sessionThread j).tasks := by
  rw [lettersOf_postSession, htask, ite_self, List.append_nil]

theorem mem_postSession {task closing : SessionTask M} {j : ℕ}
    (h : closing ∈ ((x.postSession k task).sessionThread j).tasks) :
    closing ∈ (x.sessionThread j).tasks ∨ closing = task := by
  obtain rfl | hne := eq_or_ne j k
  · rw [postSession, sessionThread_self, List.mem_append, List.mem_singleton] at h
    exact h
  · rw [postSession, sessionThread_ne x _ hne] at h
    exact .inl h

theorem Outgoing.frame (h : Outgoing x c conn)
    (htasks : lettersOf c (y.sessionThread conn.handler.sessionThreadId).tasks =
      lettersOf c (x.sessionThread conn.handler.sessionThreadId).tasks)
    (hmain : .packMessageList c ∈ x.mainTasks → .packMessageList c ∈ y.mainTasks) :
    Outgoing y c conn :=
  ⟨h.posted, fun hzero => htasks ▸ h.inOrder hzero, fun hne => hmain (h.waits hne), h.asked⟩

theorem getElem?_onConnection (x : Threads σ M) {f : Connection σ M → Connection σ M} {e : ℕ}
    {conn : Connection σ M} (he : (x.onConnection c f).connections[e]? = some conn) :
    e ≠ c ∧ x.connections[e]? = some conn ∨
      e = c ∧ ∃ old, x.connections[c]? = some old ∧ conn = f old := by
  obtain rfl | hne := eq_or_ne e c
  · rw [onConnection, List.getElem?_modify_eq, Option.map_eq_map, Option.map_eq_some_iff] at he
    obtain ⟨old, hold, rfl⟩ := he
    exact .inr ⟨rfl, old, hold, rfl⟩
  · exact .inl ⟨hne, (List.getElem?_modify_ne f x.connections hne.symm).symm.trans he⟩

theorem Sends.send (hx : Sends x) (h : ℕ) (message : M) : Sends (x.send empty h message) := by
  unfold Threads.send
  split
  · exact hx
  next conn hc =>
  split
  · exact hx
  set z := x.onConnection h fun c => { c with
    handler := { c.handler with messagesToBeSent := c.handler.messagesToBeSent ++ [message] }
    accepted := c.accepted ++ [message] } with hz
  -- the message waits with the others, and a task for them has been posted
  have hsent : ∀ main : List (MainTask M), (∀ task ∈ x.mainTasks, task ∈ main) →
      .packMessageList h ∈ main → Sends { z with mainTasks := main } := by
    intro main hall hpack
    refine ⟨fun e new he => ?_, fun k id s hmem new hs => ?_⟩
    · obtain ⟨-, hold⟩ | ⟨rfl, old, hold, rfl⟩ := getElem?_onConnection x he
      · exact (hx.outgoing e new hold).frame rfl (hall _)
      · have hout := hx.outgoing e old hold
        refine ⟨hout.posted.trans (List.prefix_append _ _), fun hzero => ?_, fun _ => hpack,
          hout.asked⟩
        rw [← List.append_assoc]
        exact congrArg (· ++ [message]) (hout.inOrder hzero)
    · obtain ⟨-, hold⟩ | ⟨rfl, old, hold, rfl⟩ := getElem?_onConnection x hs
      · exact hx.asked k id s hmem new hold
      · exact hx.asked k id s hmem old hold
  dsimp only
  split
  · exact hsent _ (fun task hmem => List.mem_append_left _ hmem)
      (List.mem_append_right _ List.mem_cons_self)
  · next hsome => exact hsent x.mainTasks (fun task => id) ((hx.outgoing h conn hc).waits hsome)

theorem Sends.packMessageList {rest : List (MainTask M)} (hx : Sends x) (h : ℕ)
    (hrest : ∀ c, c ≠ h → .packMessageList c ∈ x.mainTasks → .packMessageList c ∈ rest) :
    Sends (({ x with mainTasks := rest } : Threads σ M).packMessageList h) := by
  set z : Threads σ M := { x with mainTasks := rest } with hz
  have hother : ∀ (c : ℕ) (conn : Connection σ M), x.connections[c]? = some conn → c ≠ h →
      Outgoing z c conn := fun c conn hc hne => (hx.outgoing c conn hc).frame rfl (hrest c hne)
  unfold Threads.packMessageList
  split
  · next hnone =>
    refine ⟨fun c conn hc => hother c conn hc ?_, hx.asked⟩
    rintro rfl
    exact absurd (hc.symm.trans hnone) (by simp)
  next conn hc =>
  have hout := hx.outgoing h conn hc
  split
  · next hnone =>
    refine ⟨fun c new hnew => ?_, hx.asked⟩
    obtain rfl | hne := eq_or_ne c h
    · obtain rfl := Option.some.inj (hc.symm.trans hnew)
      exact ⟨hout.posted, hout.inOrder, fun hne => absurd hnone hne, hout.asked⟩
    · exact hother c new hnew hne
  · refine ⟨fun c new hnew => ?_, fun k id s hmem new hs => ?_⟩
    · obtain ⟨hne, hold⟩ | ⟨rfl, old, hold, rfl⟩ := getElem?_onConnection z hnew
      · refine (hother c new hold hne).frame ?_ id
        rw [lettersOf_postSession, SessionTask.messagesOf, if_neg hne.symm, ite_self,
          List.append_nil]
        rfl
      · obtain rfl := Option.some.inj (hc.symm.trans hold)
        refine ⟨hout.posted, fun hzero => ?_, fun hne => absurd rfl hne, hout.asked⟩
        rw [lettersOf_postSession, if_pos rfl, SessionTask.messagesOf, if_pos rfl, List.append_nil,
          ← List.append_assoc]
        exact hout.inOrder hzero
    · have hmem' := (mem_postSession hmem).resolve_right (by simp)
      obtain ⟨-, hold⟩ | ⟨rfl, old, hold, rfl⟩ := getElem?_onConnection z hs
      · exact hx.asked k id s hmem' new hold
      · exact hx.asked k id s hmem' old hold

theorem closeAsked_packMessageList {h : ℕ} {new : Connection σ M}
    (hc : x.connections[h]? = some conn) (hnew : (x.packMessageList h).connections[h]? = some new) :
    new.closeAsked = conn.closeAsked := by
  unfold packMessageList at hnew
  split at hnew
  · next hnone => exact absurd (hc.symm.trans hnone) (by simp)
  split at hnew
  · rw [Option.some.inj (hc.symm.trans hnew)]
  · obtain ⟨hne, -⟩ | ⟨-, old, hold, rfl⟩ := getElem?_onConnection x hnew
    · exact absurd rfl hne
    · rw [Option.some.inj (hc.symm.trans hold)]

theorem Sends.close (hx : Sends x) (h : ℕ) : Sends (x.close h) := by
  unfold Threads.close
  split
  · exact hx
  next conn hc =>
  split
  · exact hx
  set f : Connection σ M → Connection σ M := fun c => { c with closeAsked := true } with hf
  have hasked : Sends (x.onConnection h f) := by
    refine ⟨fun c new hnew => ?_, fun k id s hmem new hs => ?_⟩
    · obtain ⟨-, hold⟩ | ⟨rfl, old, hold, rfl⟩ := getElem?_onConnection x hnew
      · exact (hx.outgoing c new hold).frame rfl id
      · have hout := hx.outgoing c old hold
        exact ⟨hout.posted, hout.inOrder, hout.waits, fun _ => rfl⟩
    · obtain ⟨-, hold⟩ | ⟨rfl, old, hold, rfl⟩ := getElem?_onConnection x hs
      · exact hx.asked k id s hmem new hold
      · rfl
  have hpacked : Sends ((x.onConnection h f).packMessageList h) :=
    hasked.packMessageList h fun _ _ => id
  refine ⟨fun c new hnew =>
      (hpacked.outgoing c new hnew).frame (lettersOf_post_of_nil _ _ _ rfl) id,
    fun k id s hmem new hs => ?_⟩
  · obtain hmem | heq := mem_postSession hmem
    · exact hpacked.asked k id s hmem new hs
    · cases heq
      have hc' : (x.onConnection h f).connections[h]? = some (f conn) := getElem?_modify_self hc
      rw [closeAsked_packMessageList hc' hs]

theorem Sends.onSessionConnect {thread : ℕ} {allowed : Bool} {filter : σ} (hx : Sends x)
    (hkept : Kept x) (hy : x.onSessionConnect thread allowed filter = some y) : Sends y := by
  obtain ⟨⟨given, manager⟩, -, rfl⟩ := Option.map_eq_some_iff.mp hy
  cases given with
  | none => exact hx
  | some sessionId =>
    -- no letter comes from a handler that is not there yet
    have hnone : ∀ k, lettersOf x.connections.length (x.sessionThread k).tasks = [] := by
      intro k
      refine List.flatMap_eq_nil_iff.mpr fun task hmem => ?_
      cases task with
      | sendMessageListToSession id' messages sender =>
        have hcommand : .letter id' sender ∈ x.directory.commands k :=
          List.mem_filterMap.mpr ⟨_, hmem, rfl⟩
        obtain ⟨n, hn, -⟩ := (hkept.sound.threads k).letters _ _ hcommand
        obtain ⟨conn, hc, -⟩ := of_names hn
        refine if_neg ?_
        rintro rfl
        simp at hc
      | _ => rfl
    refine ⟨fun c new hnew => ?_, fun k id' s hmem new hs => ?_⟩
    · obtain hold | ⟨rfl, rfl⟩ := getElem?_concat_iff.mp hnew
      · exact (hx.outgoing c new hold).frame (lettersOf_post_of_nil _ _ _ rfl) id
      · refine ⟨List.prefix_refl _, fun _ => ?_, fun hne => absurd rfl hne, fun hfalse => ?_⟩
        · exact (List.append_nil _).trans
            ((lettersOf_post_of_nil _ thread thread rfl).trans (hnone thread))
        · cases hfalse
    · have hmem' := (mem_postSession hmem).resolve_right (by simp)
      obtain hold | ⟨rfl, rfl⟩ := getElem?_concat_iff.mp hs
      · exact hx.asked k id' s hmem' new hold
      · have hcommand : .letter id' x.connections.length ∈ x.directory.commands k :=
          List.mem_filterMap.mpr ⟨_, hmem', rfl⟩
        obtain ⟨n, hn, -⟩ := (hkept.sound.threads k).letters _ _ hcommand
        obtain ⟨conn, hc, -⟩ := of_names hn
        simp at hc

theorem Sends.executeMain {task : MainTask M} {rest : List (MainTask M)} (hx : Sends x)
    (hkept : Kept x) (hmain : x.mainTasks = task :: rest)
    (hy : executeMain { x with mainTasks := rest } task = some y) : Sends y := by
  have hrest : ∀ h, task ≠ .packMessageList h → .packMessageList h ∈ x.mainTasks →
      .packMessageList h ∈ rest := by
    intro h hne hmem
    rw [hmain, List.mem_cons] at hmem
    exact hmem.resolve_left fun heq => hne heq.symm
  cases task with
  | packMessageList h =>
    obtain rfl := Option.some.inj hy
    refine hx.packMessageList h fun c hne => hrest c ?_
    rintro ⟨⟩
    exact hne rfl
  | onSessionClose id =>
    obtain ⟨-, manager, h, -, -, rfl⟩ := hkept.onSessionClose hmain hy
    refine ⟨fun c new hnew => ?_, fun k id' s hmem new hs => ?_⟩
    · obtain ⟨-, hold⟩ | ⟨rfl, old, hold, rfl⟩ := getElem?_onConnection _ hnew
      · exact (hx.outgoing c new hold).frame rfl (hrest c (by simp))
      · have hout := hx.outgoing c old hold
        exact ⟨hout.posted, hout.inOrder, fun hne => hrest c (by simp) (hout.waits hne), hout.asked⟩
    · obtain ⟨-, hold⟩ | ⟨rfl, old, hold, rfl⟩ := getElem?_onConnection _ hs
      · exact hx.asked k id' s hmem new hold
      · exact hx.asked k id' s hmem old hold
  | sendMessageListToHandler session messages =>
    rw [← Option.some.inj hy]
    split
    all_goals
      exact ⟨fun c conn hc => (hx.outgoing c conn hc).frame rfl (hrest c (by simp)), hx.asked⟩

theorem Sends.sessionStep {e : Eddy.SessionEvent M} (hx : Sends x)
    (hcounts : ∀ conn : Connection σ M, x.connections[c]? = some conn →
      conn.session.HandlersCounted ∧ conn.session.effects = [])
    (hclose : e = .close → ∀ conn : Connection σ M, x.connections[c]? = some conn →
      conn.closeAsked = true) (hy : x.sessionStep F k c e = some y) : Sends y := by
  obtain ⟨conn, t, hc, ht, rfl⟩ := sessionStep_cases hy
  obtain ⟨hcounted, heffects⟩ := hcounts conn hc
  have htasks : ∀ j, ((x.onThread k fun th => { th with
      pending := t.effects.map (c, ·)
      sessionQueue := if t.tornDown = conn.session.tornDown then th.sessionQueue
        else th.sessionQueue.filter (·.1 ≠ conn.id) }).sessionThread j).tasks =
      (x.sessionThread j).tasks := by
    intro j
    obtain rfl | hne := eq_or_ne j k
    · rw [sessionThread_self]
    · rw [sessionThread_ne x _ hne]
  refine ⟨fun d new hnew => ?_, fun j id s hmem new hs => ?_⟩
  · obtain ⟨-, hold⟩ | ⟨rfl, old, hold, rfl⟩ := getElem?_onConnection x hnew
    · exact (hx.outgoing d new hold).frame (congrArg _ (htasks _)) id
    · obtain rfl := Option.some.inj (hc.symm.trans hold)
      have hout := hx.outgoing d conn hc
      refine ⟨hout.posted, fun hzero => ?_, hout.waits, fun hcalled => ?_⟩
      · have hstanding : conn.session.tornDown = 0 := by
          obtain ⟨htorn, -⟩ | ⟨-, htorn, -⟩ := closing_step hcounted heffects ht d
          · exact htorn.symm.trans hzero
          · exact absurd (htorn.symm.trans hzero) (Nat.succ_ne_zero _)
        exact (congrArg (fun tasks => conn.posted ++ lettersOf d tasks ++ _) (htasks _)).trans
          (hout.inOrder hstanding)
      · obtain hold | rfl := closeCalled_step ht hcalled
        · exact hout.asked hold
        · exact hclose rfl conn hc
  · have hmem' : .closeSession id s ∈ (x.sessionThread j).tasks := htasks j ▸ hmem
    obtain ⟨-, hold⟩ | ⟨rfl, old, hold, rfl⟩ := getElem?_onConnection x hs
    · exact hx.asked j id s hmem' new hold
    · exact hx.asked j id s hmem' old hold

theorem tasks_popTask (x : Threads σ M) (k j : ℕ) (rest : List (SessionTask M)) :
    ((x.onThread k fun t => { t with tasks := rest }).sessionThread j).tasks =
      if j = k then rest else (x.sessionThread j).tasks := by
  obtain rfl | hne := eq_or_ne j k
  · rw [sessionThread_self, if_pos rfl]
  · rw [sessionThread_ne x _ hne, if_neg hne]

theorem Sends.popTask {task : SessionTask M} {rest : List (SessionTask M)} (hx : Sends x)
    (htasks : (x.sessionThread k).tasks = task :: rest)
    (htask : ∀ (c : ℕ) (conn : Connection σ M), x.connections[c]? = some conn →
      conn.session.tornDown = 0 → task.messagesOf c = []) :
    Sends (x.onThread k fun t => { t with tasks := rest }) := by
  refine ⟨fun c conn hc => ?_, fun j id s hmem conn hs => hx.asked j id s ?_ conn hs⟩
  · have hout := hx.outgoing c conn hc
    refine ⟨hout.posted, fun hzero => ?_, hout.waits, hout.asked⟩
    rw [tasks_popTask]
    split
    · next hk =>
      have hall := hout.inOrder hzero
      rwa [hk, htasks, lettersOf_cons, htask c conn hc hzero, List.nil_append] at hall
    · exact hout.inOrder hzero
  · rw [tasks_popTask] at hmem
    split at hmem
    · next hk =>
      rw [hk, htasks]
      exact List.mem_cons_of_mem _ hmem
    · exact hmem

theorem Sends.arrive {id : UInt32} {messages : List M} {rest : List (SessionTask M)} (hx : Sends x)
    (hc : x.connections[c]? = some conn) (hthread : conn.handler.sessionThreadId = k)
    (htorn : conn.session.tornDown = 0)
    (htasks : (x.sessionThread k).tasks = .sendMessageListToSession id messages c :: rest) :
    Sends ((x.onThread k fun t => { t with tasks := rest }).onConnection c fun connection =>
      { connection with posted := connection.posted ++ messages }) := by
  set z := x.onThread k fun t => { t with tasks := rest } with hz
  refine ⟨fun d new hnew => ?_, fun j id' s hmem new hs => ?_⟩
  · obtain ⟨hne, hold⟩ | ⟨rfl, old, hold, rfl⟩ := getElem?_onConnection z hnew
    · have hout := hx.outgoing d new hold
      refine hout.frame ?_ (fun hmem => hmem)
      refine (congrArg _ (tasks_popTask x k _ rest)).trans ?_
      split
      · next hk => rw [hk, htasks, lettersOf_cons, SessionTask.messagesOf, if_neg hne.symm,
          List.nil_append]
      · rfl
    · obtain rfl := Option.some.inj (hc.symm.trans hold)
      have hout := hx.outgoing d conn hc
      have hall := hout.inOrder htorn
      rw [hthread, htasks, lettersOf_cons, SessionTask.messagesOf, if_pos rfl,
        ← List.append_assoc] at hall
      refine ⟨⟨_, (List.append_assoc ..).symm.trans hall⟩, fun _ => ?_, hout.waits, hout.asked⟩
      have hrest : ((z.onConnection d fun connection => { connection with
          posted := connection.posted ++ messages }).sessionThread k).tasks = rest :=
        (tasks_popTask x k k rest).trans (if_pos rfl)
      rw [hthread, hrest]
      exact hall
  · have hmem' : .closeSession id' s ∈ (x.sessionThread j).tasks := by
      have hthere : .closeSession id' s ∈ (z.sessionThread j).tasks := hmem
      rw [hz, tasks_popTask] at hthere
      split at hthere
      · next hk =>
        rw [hk, htasks]
        exact List.mem_cons_of_mem _ hthere
      · exact hthere
    obtain ⟨-, hold⟩ | ⟨rfl, old, hold, rfl⟩ := getElem?_onConnection z hs
    · exact hx.asked j id' s hmem' new hold
    · exact hx.asked j id' s hmem' old hold

theorem Sends.init {id : UInt32} (hx : Sends x)
    (hstands : ∀ conn : Connection σ M, x.connections[c]? = some conn → conn.id = 0 →
      conn.session.tornDown = 0) (hy : x.init F k c id = some y) : Sends y := by
  obtain ⟨conn, hc, hzero, -, rfl⟩ := init_cases hy
  have hstarted : (conn.session.startRead F).closeCalled = conn.session.closeCalled := by
    obtain ⟨-, heq⟩ | ⟨-, reading, heq⟩ := TCPSession.startRead_cases F conn.session
    all_goals rw [heq]
  have hstanding : conn.session.tornDown = 0 := hstands conn hc hzero
  have htasks : ∀ j, ((x.onThread k fun t => { t with
      sessionQueue := t.sessionQueue ++ [(id, c)] }).sessionThread j).tasks =
      (x.sessionThread j).tasks := by
    intro j
    obtain rfl | hne := eq_or_ne j k
    · rw [sessionThread_self]
    · rw [sessionThread_ne x _ hne]
  refine ⟨fun d new hnew => ?_, fun j id' s hmem new hs => ?_⟩
  · obtain ⟨-, hold⟩ | ⟨rfl, old, hold, rfl⟩ := getElem?_onConnection x hnew
    · exact (hx.outgoing d new hold).frame (congrArg _ (htasks _)) (fun hmem => hmem)
    · obtain rfl := Option.some.inj (hc.symm.trans hold)
      have hout := hx.outgoing d conn hc
      refine ⟨hout.posted, fun _ => ?_, hout.waits, fun hcalled => ?_⟩
      · exact (congrArg (fun tasks => conn.posted ++ lettersOf d tasks ++ _) (htasks _)).trans
          (hout.inOrder hstanding)
      · exact hout.asked (hstarted ▸ hcalled)
  · have hmem' : .closeSession id' s ∈ (x.sessionThread j).tasks := htasks j ▸ hmem
    obtain ⟨-, hold⟩ | ⟨rfl, old, hold, rfl⟩ := getElem?_onConnection x hs
    · exact hx.asked j id' s hmem' new hold
    · exact hx.asked j id' s hmem' old hold

theorem Sends.execute {task : SessionTask M} {rest : List (SessionTask M)} (hx : Sends x)
    (hkept : Kept x) (htasks : (x.sessionThread k).tasks = task :: rest)
    (hy : (x.onThread k fun t => { t with tasks := rest }).execute F k task = some y) :
    Sends y := by
  set z := x.onThread k fun t => { t with tasks := rest } with hz
  have hqueue : ∀ id, z.getSession k id = x.getSession k id := by
    intro id
    rw [Threads.getSession, hz, sessionThread_self]
    rfl
  cases task with
  | init c id =>
    refine (hx.popTask htasks fun _ _ _ _ => rfl).init (fun conn hc hzero => ?_) hy
    obtain ⟨-, htorn⟩ | ⟨hid, -⟩ := hkept.sound.named c _ (names_of hc)
    · exact htorn
    · exact absurd hzero hid
  | packMessageList c =>
    have hpopped := hx.popTask htasks fun _ _ _ _ => rfl
    exact hpopped.sessionStep (hkept.counted c) (fun heq => by cases heq) hy
  | sendMessageListToSession id messages sender =>
    simp only [Threads.execute, hqueue] at hy
    obtain ⟨hnone, hgone⟩ | ⟨conn, hsome, hc, hk, -, -, htorn⟩ := hkept.letter htasks rfl
    · simp only [hnone] at hy
      rw [← Option.some.inj hy]
      refine hx.popTask htasks fun c conn hc htorn => if_neg ?_
      rintro rfl
      -- a session that is not torn down would have been found
      have hcommand : .letter id sender ∈ x.directory.commands k := by
        refine List.mem_filterMap.mpr ⟨.sendMessageListToSession id messages sender, ?_, rfl⟩
        rw [htasks]
        exact List.mem_cons_self
      obtain ⟨n, hn, hthread, hid⟩ := (hkept.sound.threads k).letters _ _ hcommand
      obtain rfl := Option.some.inj ((names_of hc).symm.trans hn)
      exact hgone ⟨_, names_of hc, hthread, hid htorn, htorn⟩
    · simp only [hsome] at hy
      refine (hx.arrive hc hk htorn htasks).sessionStep (fun new hnew => ?_)
        (fun heq => by cases heq) hy
      obtain ⟨hne, -⟩ | ⟨-, old, hold, rfl⟩ := getElem?_onConnection z hnew
      · exact absurd rfl hne
      · exact hkept.counted sender old hold
  | closeSession id sender =>
    simp only [Threads.execute, hqueue] at hy
    have hpopped := hx.popTask htasks fun _ _ _ _ => rfl
    obtain ⟨hnone, -⟩ | ⟨conn, hsome, hc, -⟩ := hkept.letter htasks rfl
    · simp only [hnone] at hy
      exact Option.some.inj hy ▸ hpopped
    · simp only [hsome] at hy
      refine hpopped.sessionStep (hkept.counted sender) (fun _ => ?_) hy
      refine hx.asked k id sender ?_
      rw [htasks]
      exact List.mem_cons_self

theorem Sends.perform {effect : Effect M} {rest : List (ℕ × Effect M)} (hx : Sends x) :
    Sends ((x.onThread k fun t => { t with pending := rest }).perform k c effect) := by
  have htasks : ∀ j, ((x.onThread k fun t => { t with pending := rest }).sessionThread j).tasks =
      (x.sessionThread j).tasks := by
    intro j
    obtain rfl | hne := eq_or_ne j k
    · rw [sessionThread_self]
    · rw [sessionThread_ne x _ hne]
  have hpopped : Sends (x.onThread k fun t => { t with pending := rest }) :=
    ⟨fun d conn hd => (hx.outgoing d conn hd).frame (congrArg _ (htasks _)) fun hmem => hmem,
      fun j id s hmem => hx.asked j id s (htasks j ▸ hmem)⟩
  have hposted : ∀ (z : Threads σ M) task, Sends z → Sends (z.postMain task) := fun z task hz =>
    ⟨fun d conn hd => (hz.outgoing d conn hd).frame rfl (List.mem_append_left _), hz.asked⟩
  cases effect with
  | packMessageList =>
    refine ⟨fun d conn hd => (hpopped.outgoing d conn hd).frame ?_ fun hmem => hmem,
      fun j id s hmem => hpopped.asked j id s ?_⟩
    · exact lettersOf_post_of_nil _ _ _ rfl
    · exact (mem_postSession hmem).resolve_right (by simp)
  | onSessionClose => exact hposted _ _ hpopped
  | sendMessageListToHandler messages => exact hposted _ _ hpopped
  | startTimer => exact hpopped
  | cancelTimer => exact hpopped

theorem Sends.complete {e : Eddy.SessionEvent M} (hx : Sends x) (hkept : Kept x) (hclose : e ≠ .close)
    (hy : x.complete F c e = some y) : Sends y := by
  obtain ⟨conn, hc, hy⟩ := Option.bind_eq_some_iff.mp hy
  split at hy
  · exact hx.sessionStep (hkept.counted c) (fun heq => absurd heq hclose) hy
  · cases hy

theorem sends_step (x : Threads σ M) (e : ThreadsEvent σ M) (y : Threads σ M)
    (hx : (Kept x ∧ Placed x) ∧ Sends x) (hy : x.step F empty e = some y) :
    (Kept y ∧ Placed y) ∧ Sends y := by
  obtain ⟨hboth, hsends⟩ := hx
  have hkept := hboth.1
  refine ⟨kept_step x e y hboth hy, ?_⟩
  cases e with
  | onSessionConnect thread allowed filter => exact hsends.onSessionConnect hkept hy
  | send handler message => exact Option.some.inj hy ▸ hsends.send handler message
  | close handler => exact Option.some.inj hy ▸ hsends.close handler
  | runMain =>
    simp only [step] at hy
    split at hy
    · cases hy
    · next task rest hmain => exact hsends.executeMain hkept hmain hy
  | runSession k =>
    simp only [step] at hy
    split at hy
    · next task rest hidle htasks => exact hsends.execute hkept htasks hy
    · cases hy
  | perform k =>
    simp only [step] at hy
    split at hy
    · cases hy
    · next c effect rest hpending => exact Option.some.inj hy ▸ hsends.perform
  | read c reading error data => exact hsends.complete hkept (by simp) hy
  | written c buffer error => exact hsends.complete hkept (by simp) hy

/-- What is posted to a session is what its own handler has sent, in order and from the first
message on, and all of it when nothing is left to do; it is closed only for its own handler; and
an id that it is told is in no entry of the queue. -/
def OwnMessages (x : Threads σ M) : Prop :=
  (∀ (c : ℕ) (conn : Connection σ M), x.connections[c]? = some conn →
    conn.posted <+: conn.accepted ∧ (conn.session.closeCalled = true → conn.closeAsked = true) ∧
    (conn.session.tornDown = 0 → x.mainTasks = [] →
      (x.sessionThread conn.handler.sessionThreadId).tasks = [] → conn.posted = conn.accepted)) ∧
  ∀ (k c : ℕ) (id : UInt32) (rest : List (SessionTask M)),
    (x.sessionThread k).tasks = .init c id :: rest →
      id ∉ (x.sessionThread k).sessionQueue.map Prod.fst ∧
      ∃ conn, x.connections[c]? = some conn ∧ conn.id = kInvalidTCPSessionId

theorem Sends.ownMessages (hx : Sends x) (hkept : Kept x) : OwnMessages x := by
  refine ⟨fun c conn hc => ?_, fun k c id rest htasks => ?_⟩
  · have hout := hx.outgoing c conn hc
    refine ⟨hout.posted, hout.asked, fun htorn hmain htasks => ?_⟩
    have hall := hout.inOrder htorn
    have hnone : conn.handler.messagesToBeSent = [] := by
      by_contra hne
      exact absurd (hout.waits hne) (by simp [hmain])
    rwa [htasks, hnone, List.append_nil, lettersOf, List.flatMap_nil, List.append_nil] at hall
  · have hcommands : x.directory.commands k = .bind id c :: rest.filterMap SessionTask.command? := by
      simp only [directory, htasks, List.filterMap_cons, SessionTask.command?]
    obtain ⟨⟨hfree, n, hn, hzero⟩, -⟩ := hkept.sound.bind hcommands
    obtain ⟨conn, hc, rfl⟩ := of_names hn
    exact ⟨hfree, conn, hc, hzero⟩

/-- However the threads take turns and however often ids are used again, no session gets what
was sent to another. -/
theorem own_messages (F : NetMessageFilter σ M) (empty : M → Bool)
    (events : List (ThreadsEvent σ M)) :
    Run.Always (step F empty) OwnMessages ({} : Threads σ M) events := by
  have hinit : Sends ({} : Threads σ M) :=
    ⟨fun c conn hc => by simp at hc, fun k id s hmem => absurd hmem List.not_mem_nil⟩
  exact (Run.always_of_invariant sends_step ⟨kept_init, hinit⟩ events).mono
    fun x hx => hx.2.ownMessages hx.1.1

end Threads

end IceBridge.Gateway
