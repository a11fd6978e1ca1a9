import IceBridge.Gateway.Mdcli

/-! Two threads share the queue of the gateway's client. However they take turns, each request is
sent once and in order, and none is left waiting while a broker is up. -/

namespace IceBridge.Gateway
open Router (Frame Zmsg)

namespace Mdcli
variable {x y : Mdcli} {e : MdcliEvent} {clock : Int} {caller : Caller} {i n : ℕ}

/-! ## What a step does -/

inductive Moves (x : Mdcli) : MdcliEvent → Mdcli → Prop
  | send {request : Request} (hsender : x.sender = .idle) :
    Moves x (.send request) { x with brokerReady := false, sender := .cleared request }
  | push {request : Request} (hsender : x.sender = .cleared request)
      (hplace : ∀ caller, x.place ≠ .draining caller) :
    Moves x .push { x with
      requests := x.requests ++ [request]
      accepted := x.accepted ++ [request]
      sender := .queued }
  | signal (hsender : x.sender = .queued) :
    Moves x .signal { x with signals := x.signals + 1, sender := .idle }
  | poll {signalled : Bool} {replies : List (ℕ × Zmsg)} (hplace : x.place = .polling) :
    Moves x (.poll signalled replies) { x with
      signals := if signalled then x.signals - 1 else x.signals
      replies := replies
      place := if signalled then .scanning .loop 0 else .reading }
  | polls {clock : Int} (hplace : x.place = .reading) :
    Moves x (.receive clock) { x with place := .polling }
  | hears {clock : Int} {i : ℕ} (hplace : x.place = .reading) :
    Moves x (.receive clock) { x with
      brokers := x.brokers.modify i (Broker.hear clock)
      place := if x.requests = [] then .handling else .scanning .reply 0 }
  | handles {clock : Int} {bodies : List Frame} {rest : List (ℕ × Zmsg)}
      (hplace : x.place = .handling) :
    Moves x (.receive clock)
      { x with handled := x.handled ++ bodies, replies := rest, place := .reading }
  | scans {clock : Int} {caller : Caller} {i : ℕ} (hplace : x.place = .scanning caller i) :
    Moves x (.receive clock) (x.scan clock caller i)
  | tests {clock : Int} {caller : Caller} (hplace : x.place = .testing caller) :
    Moves x (.receive clock)
      { x with place := if x.brokerReady then .locking caller else caller.back }
  | locks {clock : Int} {caller : Caller} (hplace : x.place = .locking caller) :
    Moves x (.receive clock) { x with place := .draining caller }
  | drains {clock : Int} {caller : Caller} (hplace : x.place = .draining caller) :
    Moves x (.receive clock) (x.drain caller)

theorem moves_of_receive (hy : x.receive clock = some y) : Moves x (.receive clock) y := by
  unfold receive at hy
  split at hy
  case h_1 => cases hy
  case h_2 hplace =>
    split at hy
    · rw [← Option.some.inj hy]
      exact .polls hplace
    · split at hy
      · cases hy
      · rw [← Option.some.inj hy]
        exact .hears hplace
  case h_3 hplace =>
    split at hy
    · cases hy
    · rcases Option.map_eq_some_iff.mp hy with ⟨bodies, -, rfl⟩
      exact .handles hplace
  case h_4 hplace =>
    rw [← Option.some.inj hy]
    exact .scans hplace
  case h_5 hplace =>
    rw [← Option.some.inj hy]
    exact .tests hplace
  case h_6 hplace =>
    split at hy
    · cases hy
    · rw [← Option.some.inj hy]
      exact .locks hplace
  case h_7 hplace =>
    rw [← Option.some.inj hy]
    exact .drains hplace

theorem moves_of_step (hy : x.step e = some y) : Moves x e y := by
  cases e with
  | send request =>
    simp only [step] at hy
    split at hy
    · rename_i hsender
      rw [← Option.some.inj hy]
      exact .send hsender
    · cases hy
  | push =>
    simp only [step] at hy
    split at hy
    · cases hy
    · rename_i hsender hplace
      rw [← Option.some.inj hy]
      exact .push hsender hplace
    · cases hy
  | signal =>
    simp only [step] at hy
    split at hy
    · rename_i hsender
      rw [← Option.some.inj hy]
      exact .signal hsender
    · cases hy
  | poll signalled replies =>
    simp only [step] at hy
    split at hy
    · rename_i hplace
      split at hy
      · rw [← Option.some.inj hy]
        exact .poll hplace
      · cases hy
    · cases hy
  | receive clock => exact moves_of_receive hy

theorem drain_cases (x : Mdcli) (caller : Caller) :
    ((x.requests = [] ∨ x.brokers[x.nextBroker]? = none) ∧
      x.drain caller = { x with place := caller.back }) ∨
    ∃ (b : Broker) (request : Request) (rest : List Request),
      x.brokers[x.nextBroker]? = some b ∧ x.requests = request :: rest ∧
      x.drain caller = { x with
        nextBroker := (x.nextBroker + 1) % x.brokers.length
        requests := if b.status then rest else request :: rest
        turns := x.turns ++ [{ broker := x.nextBroker, seen := b,
                               served := if b.status then some request else none }] } := by
  unfold drain
  split
  · rename_i request rest b hrequests hb
    refine .inr ⟨b, request, rest, hb, hrequests, ?_⟩
    cases b.status
    · simp [hrequests]
    · rfl
  · rename_i hnone
    refine .inl ⟨?_, rfl⟩
    by_contra hneither
    rw [not_or] at hneither
    rcases List.exists_cons_of_ne_nil hneither.1 with ⟨request, rest, hrequests⟩
    rcases Option.ne_none_iff_exists'.mp hneither.2 with ⟨b, hb⟩
    exact hnone request rest b hrequests hb

/-! ## Who is up -/

def UpTo (x : Mdcli) (n : ℕ) : Prop :=
  ∃ j b, j < n ∧ x.brokers[j]? = some b ∧ b.status = true

abbrev Up (x : Mdcli) : Prop := x.UpTo x.brokers.length

theorem not_upTo_zero (x : Mdcli) : ¬ x.UpTo 0 := by
  rintro ⟨j, b, hj, -⟩
  exact Nat.not_lt_zero j hj

theorem UpTo.mono {m : ℕ} (h : x.UpTo m) (hmn : m ≤ n) : x.UpTo n := by
  rcases h with ⟨j, b, hj, hb⟩
  exact ⟨j, b, Nat.lt_of_lt_of_le hj hmn, hb⟩

theorem UpTo.up (h : x.UpTo n) : x.Up := by
  rcases h with ⟨j, b, -, hb, hup⟩
  exact ⟨j, b, (List.getElem?_eq_some_iff.mp hb).1, hb, hup⟩

theorem UpTo.frame (h : x.UpTo n) (hbrokers : y.brokers = x.brokers) : y.UpTo n := by
  unfold UpTo
  rw [hbrokers]
  exact h

theorem getElem?_brokers_modify {f : Broker → Broker} {j : ℕ} {b : Broker}
    (hb : (x.brokers.modify i f)[j]? = some b) :
    ∃ old, x.brokers[j]? = some old ∧ b = if i = j then f old else old := by
  rw [List.getElem?_modify] at hb
  rcases Option.map_eq_some_iff.mp hb with ⟨old, hold, rfl⟩
  exact ⟨old, hold, rfl⟩

theorem upTo_scan {b : Broker} (hb : x.brokers[i]? = some b) :
    (x.scan clock caller i).UpTo (i + 1) ↔ x.UpTo i ∨ (b.check clock).status = true := by
  have hbrokers : (x.scan clock caller i).brokers = x.brokers.modify i (Broker.check clock) := by
    unfold scan
    rw [hb]
  unfold UpTo
  rw [hbrokers]
  constructor
  · rintro ⟨j, new, hj, hnew, hup⟩
    rcases getElem?_brokers_modify hnew with ⟨old, hold, rfl⟩
    by_cases hij : i = j
    · subst hij
      rw [hb] at hold
      rw [if_pos rfl, ← Option.some.inj hold] at hup
      exact .inr hup
    · rw [if_neg hij] at hup
      exact .inl ⟨j, old, lt_of_le_of_ne (Nat.le_of_lt_succ hj) (Ne.symm hij), hold, hup⟩
  · rintro (⟨j, old, hj, hold, hup⟩ | hup)
    · refine ⟨j, old, Nat.lt_succ_of_lt hj, ?_, hup⟩
      rw [List.getElem?_modify_ne _ _ (Nat.ne_of_gt hj)]
      exact hold
    · refine ⟨i, b.check clock, Nat.lt_succ_self i, ?_, hup⟩
      rw [List.getElem?_modify_eq, hb]
      rfl

theorem scan_of_none (hb : x.brokers[i]? = none) :
    x.scan clock caller i = { x with place := .testing caller } := by
  unfold scan
  rw [hb]

theorem brokerReady_scan {b : Broker} (hb : x.brokers[i]? = some b) :
    (x.scan clock caller i).brokerReady =
      if (b.check clock).status then true else x.brokerReady := by
  unfold scan
  rw [hb]

theorem scan_frame (x : Mdcli) (clock : Int) (caller : Caller) (i : ℕ) :
    (x.scan clock caller i).requests = x.requests ∧
    (x.scan clock caller i).accepted = x.accepted ∧
    (x.scan clock caller i).turns = x.turns ∧
    (x.scan clock caller i).nextBroker = x.nextBroker ∧
    (x.scan clock caller i).signals = x.signals ∧
    (x.scan clock caller i).sender = x.sender ∧
    (x.scan clock caller i).brokers.length = x.brokers.length := by
  unfold scan
  split
  · exact ⟨rfl, rfl, rfl, rfl, rfl, rfl, rfl⟩
  · exact ⟨rfl, rfl, rfl, rfl, rfl, rfl, List.length_modify ..⟩

/-! ## The requests and the turns -/

def sent (x : Mdcli) : List Request := x.turns.filterMap Turn.served

def looked (x : Mdcli) : ℕ :=
  match x.place with
  | .scanning _ i => i
  | .testing _ | .locking _ | .draining _ => x.brokers.length
  | _ => 0

/-- A broker counts as up after a message from it, for the time of `heartbeatInterval`. -/
structure Tracked (x : Mdcli) : Prop where
  heard : ∀ (j : ℕ) (b : Broker), x.brokers[j]? = some b → b.status = true →
    ∃ heard, b.heardAt = some heard ∧ b.heartbeatAt = heard + heartbeatInterval
  checked : ∀ (j : ℕ) (b : Broker), j < x.looked → x.brokers[j]? = some b → b.status = true →
    b.checkedAt ≤ b.heartbeatAt

def Turn.Fits (t : Turn) : Prop :=
  (t.served = none → t.seen.status = false) ∧
  (t.served ≠ none →
    ∃ heard, t.seen.heardAt = some heard ∧ t.seen.checkedAt ≤ heard + heartbeatInterval)

structure Queued (x : Mdcli) : Prop where
  inOrder : x.accepted = x.sent ++ x.requests
  inTurn : Rotation.Round (List.range x.brokers.length) 0 (x.turns.map Turn.broker)
  next : 0 < x.brokers.length → x.nextBroker = x.turns.length % x.brokers.length
  fits : ∀ t ∈ x.turns, t.Fits

theorem Tracked.of_looked (h : Tracked x) (hbrokers : y.brokers = x.brokers)
    (hlooked : y.looked ≤ x.looked) : Tracked y := by
  refine ⟨fun j b hb => ?_, fun j b hj hb => ?_⟩
  · rw [hbrokers] at hb
    exact h.heard j b hb
  · rw [hbrokers] at hb
    exact h.checked j b (Nat.lt_of_lt_of_le hj hlooked) hb

theorem looked_back (hplace : y.place = caller.back) : y.looked = 0 := by
  unfold looked
  rw [hplace]
  cases caller <;> rfl

theorem Tracked.hear (h : Tracked x) :
    Tracked { x with
      brokers := x.brokers.modify i (Broker.hear clock)
      place := if x.requests = [] then .handling else .scanning .reply 0 } := by
  refine ⟨fun j b hb hup => ?_, fun j b hj => ?_⟩
  · rcases getElem?_brokers_modify hb with ⟨old, hold, rfl⟩
    by_cases hij : i = j
    · rw [if_pos hij]
      exact ⟨clock, rfl, rfl⟩
    · rw [if_neg hij] at hup ⊢
      exact h.heard j old hold hup
  · have hzero : looked { x with
        brokers := x.brokers.modify i (Broker.hear clock)
        place := if x.requests = [] then .handling else .scanning .reply 0 } = 0 := by
      unfold looked
      split_ifs <;> rfl
    rw [hzero] at hj
    exact absurd hj (Nat.not_lt_zero j)

theorem Tracked.scan (h : Tracked x) (hplace : x.place = .scanning caller i) :
    Tracked (x.scan clock caller i) := by
  have hlooked : x.looked = i := by
    unfold looked
    rw [hplace]
  cases hb : x.brokers[i]? with
  | none =>
    rw [scan_of_none hb]
    refine ⟨h.heard, fun j b _ hj => h.checked j b ?_ hj⟩
    rw [hlooked]
    exact Nat.lt_of_lt_of_le (List.getElem?_eq_some_iff.mp hj).1 (List.getElem?_eq_none_iff.mp hb)
  | some b =>
    have hbrokers : (x.scan clock caller i).brokers = x.brokers.modify i (Broker.check clock) := by
      unfold Mdcli.scan
      rw [hb]
    have hlooked' : (x.scan clock caller i).looked = i + 1 := by
      unfold Mdcli.scan
      rw [hb]
      rfl
    -- a broker that is still up after the look was up before it, and its time has not passed
    have hstill : ∀ old : Broker, (old.check clock).status = true →
        old.status = true ∧ clock ≤ old.heartbeatAt := by
      intro old hup
      simp only [Broker.check] at hup
      split_ifs at hup with hlate
      exact ⟨hup, Int.not_lt.mp hlate⟩
    refine ⟨fun j new hnew hup => ?_, fun j new hj hnew hup => ?_⟩
    · rw [hbrokers] at hnew
      rcases getElem?_brokers_modify hnew with ⟨old, hold, rfl⟩
      by_cases hij : i = j
      · rw [if_pos hij] at hup ⊢
        exact h.heard j old hold (hstill old hup).1
      · rw [if_neg hij] at hup ⊢
        exact h.heard j old hold hup
    · rw [hbrokers] at hnew
      rw [hlooked'] at hj
      rcases getElem?_brokers_modify hnew with ⟨old, hold, rfl⟩
      by_cases hij : i = j
      · rw [if_pos hij] at hup ⊢
        exact (hstill old hup).2
      · rw [if_neg hij] at hup ⊢
        refine h.checked j old ?_ hold hup
        rw [hlooked]
        exact lt_of_le_of_ne (Nat.le_of_lt_succ hj) (Ne.symm hij)

theorem looked_drain (hplace : x.place = .draining caller) :
    (x.drain caller).looked ≤ x.looked := by
  rcases x.drain_cases caller with ⟨-, hdrain⟩ | ⟨b, request, rest, -, -, hdrain⟩
  · rw [hdrain, looked_back rfl]
    exact Nat.zero_le _
  · rw [hdrain]
    unfold looked
    simp only [hplace, le_refl]

theorem brokers_drain (x : Mdcli) (caller : Caller) : (x.drain caller).brokers = x.brokers := by
  rcases x.drain_cases caller with ⟨-, hdrain⟩ | ⟨b, request, rest, -, -, hdrain⟩ <;> rw [hdrain]

theorem Tracked.moves (h : Tracked x) (hmoves : Moves x e y) : Tracked y := by
  cases hmoves with
  | send | push | signal => exact ⟨h.heard, h.checked⟩
  | poll hplace =>
    refine h.of_looked rfl ?_
    unfold looked
    split_ifs <;> exact Nat.zero_le _
  | polls hplace => exact h.of_looked rfl (Nat.zero_le _)
  | hears hplace => exact h.hear
  | handles hplace => exact h.of_looked rfl (Nat.zero_le _)
  | scans hplace => exact h.scan hplace
  | tests hplace =>
    refine h.of_looked rfl ?_
    cases hready : x.brokerReady with
    | true =>
      unfold looked
      rw [hplace]
      exact le_rfl
    | false =>
      rw [looked_back rfl]
      exact Nat.zero_le _
  | locks hplace =>
    refine h.of_looked rfl ?_
    unfold looked
    rw [hplace]
  | drains hplace => exact h.of_looked (x.brokers_drain _) (looked_drain hplace)

theorem Queued.frame (h : Queued x) (haccepted : y.accepted = x.accepted)
    (hturns : y.turns = x.turns) (hrequests : y.requests = x.requests)
    (hlength : y.brokers.length = x.brokers.length) (hnext : y.nextBroker = x.nextBroker) :
    Queued y := by
  refine ⟨?_, ?_, ?_, ?_⟩
  · rw [haccepted, hrequests, sent, hturns]
    exact h.inOrder
  · rw [hlength, hturns]
    exact h.inTurn
  · rw [hlength, hnext, hturns]
    exact h.next
  · rw [hturns]
    exact h.fits

theorem Queued.drain (h : Queued x) (htracked : Tracked x) (hplace : x.place = .draining caller) :
    Queued (x.drain caller) := by
  rcases x.drain_cases caller with ⟨-, hdrain⟩ | ⟨b, request, rest, hb, hrequests, hdrain⟩
  · rw [hdrain]
    exact h.frame rfl rfl rfl rfl rfl
  have hlt : x.nextBroker < x.brokers.length := (List.getElem?_eq_some_iff.mp hb).1
  have hpos : 0 < x.brokers.length := Nat.zero_lt_of_lt hlt
  have hlooked : x.looked = x.brokers.length := by
    unfold looked
    rw [hplace]
  rw [hdrain]
  refine ⟨?_, ?_, fun _ => ?_, fun t ht => ?_⟩
  · have hall : x.accepted = x.turns.filterMap Turn.served ++ request :: rest := by
      rw [h.inOrder, hrequests]
      rfl
    change x.accepted = (x.turns ++ [_]).filterMap Turn.served ++ _
    rw [hall, List.filterMap_append]
    cases b.status <;> simp
  · rw [List.map_append]
    refine h.inTurn.append (Rotation.round_cons.mpr ⟨?_, Rotation.round_nil⟩)
    rw [List.length_map, List.length_range, Nat.zero_add, ← h.next hpos]
    exact List.getElem?_range hlt
  · change (x.nextBroker + 1) % x.brokers.length = (x.turns ++ [_]).length % x.brokers.length
    rw [List.length_append, List.length_singleton, h.next hpos, Nat.mod_add_mod]
  · rcases List.mem_append.mp ht with hold | hnew
    · exact h.fits t hold
    rw [List.mem_singleton.mp hnew]
    cases hup : b.status with
    | false => exact ⟨fun _ => hup, fun hserved => absurd rfl hserved⟩
    | true =>
      refine ⟨fun hserved => absurd hserved (Option.some_ne_none request), fun _ => ?_⟩
      rcases htracked.heard _ b hb hup with ⟨heard, hheard, hat⟩
      have hchecked := htracked.checked _ b (hlooked ▸ hlt) hb hup
      rw [hat] at hchecked
      exact ⟨heard, hheard, hchecked⟩

theorem Queued.moves (h : Queued x) (htracked : Tracked x) (hmoves : Moves x e y) : Queued y := by
  cases hmoves with
  | push hsender hplace =>
    refine ⟨?_, h.inTurn, h.next, h.fits⟩
    change x.accepted ++ _ = x.sent ++ (x.requests ++ _)
    rw [h.inOrder, List.append_assoc]
  | hears hplace => exact h.frame rfl rfl rfl (List.length_modify ..) rfl
  | scans hplace =>
    rcases x.scan_frame _ _ _ with ⟨hrequests, haccepted, hturns, hnext, -, -, hlength⟩
    exact h.frame haccepted hturns hrequests hlength hnext
  | drains hplace => exact h.drain htracked hplace
  | _ => exact h.frame rfl rfl rfl rfl rfl

/-! ## No request is left waiting -/

def Unmissed (x : Mdcli) : Prop :=
  match x.place with
  | .scanning _ i => x.UpTo i → x.brokerReady = true
  | .testing _ => x.Up → x.brokerReady = true
  | .locking _ | .draining _ => True
  | _ => ¬ x.Up

def Waiting (x : Mdcli) : Prop :=
  x.sender = .idle → x.signals = 0 → x.requests ≠ [] → x.Unmissed

theorem unmissed_back (hplace : y.place = caller.back) (hdown : ¬ y.Up) : y.Unmissed := by
  unfold Unmissed
  rw [hplace]
  cases caller <;> exact hdown

theorem Unmissed.scan (h : x.Unmissed) (hplace : x.place = .scanning caller i) :
    (x.scan clock caller i).Unmissed := by
  have hready : x.UpTo i → x.brokerReady = true := by
    unfold Unmissed at h
    rwa [hplace] at h
  cases hb : x.brokers[i]? with
  | none =>
    rw [scan_of_none hb]
    intro hup
    exact hready (hup.mono (List.getElem?_eq_none_iff.mp hb))
  | some b =>
    have hnext : (x.scan clock caller i).place = .scanning caller (i + 1) := by
      unfold Mdcli.scan
      rw [hb]
    unfold Unmissed
    rw [hnext]
    intro hup
    rw [brokerReady_scan hb]
    split_ifs with hstatus
    · rfl
    · rcases (upTo_scan hb).mp hup with hold | hnew
      · exact hready hold
      · exact absurd hnew hstatus

theorem Waiting.drain (hqueued : Queued x) (hsent : x.drain caller = y) :
    y.requests ≠ [] → y.place = x.place ∨ (y.place = caller.back ∧ ¬ y.Up) := by
  intro hne
  rcases x.drain_cases caller with ⟨hdone, hdrain⟩ | ⟨b, request, rest, -, -, hdrain⟩
  · rw [hdrain] at hsent
    rw [← hsent] at hne ⊢
    refine .inr ⟨rfl, ?_⟩
    -- with brokers there would be one whose turn it is
    rintro ⟨j, b, hj, -⟩
    have hpos : 0 < x.brokers.length := Nat.zero_lt_of_lt hj
    rcases hdone with hnil | hnone
    · exact hne hnil
    · rw [hqueued.next hpos, List.getElem?_eq_none_iff] at hnone
      exact absurd (Nat.mod_lt _ hpos) (Nat.not_lt.mpr hnone)
  · rw [hdrain] at hsent
    rw [← hsent]
    exact .inl rfl

theorem Waiting.moves (h : Waiting x) (hqueued : Queued x) (hmoves : Moves x e y) :
    Waiting y := by
  intro hsender hsignals hrequests
  cases hmoves with
  | send | push => cases hsender
  | signal => exact absurd hsignals (Nat.succ_ne_zero _)
  | @poll signalled replies hplace =>
    cases signalled with
    | true => exact fun hup => absurd hup (not_upTo_zero _)
    | false =>
      have hdown := h hsender hsignals hrequests
      unfold Unmissed at hdown
      rw [hplace] at hdown
      exact hdown
  | polls hplace | handles hplace =>
    have hdown := h hsender hsignals hrequests
    unfold Unmissed at hdown
    rw [hplace] at hdown
    exact hdown
  | hears hplace =>
    rw [Unmissed, if_neg hrequests]
    exact fun hup => absurd hup (not_upTo_zero _)
  | @scans clock caller i hplace =>
    rcases x.scan_frame clock caller i with ⟨heq, -, -, -, hsig, hsend, -⟩
    rw [hsend] at hsender
    rw [hsig] at hsignals
    rw [heq] at hrequests
    exact (h hsender hsignals hrequests).scan hplace
  | tests hplace =>
    have hready := h hsender hsignals hrequests
    unfold Unmissed at hready
    rw [hplace] at hready
    cases hcase : x.brokerReady with
    | true => exact trivial
    | false =>
      refine unmissed_back rfl fun hup => ?_
      have htrue : x.brokerReady = true := hready hup
      rw [hcase] at htrue
      cases htrue
  | locks hplace => exact trivial
  | drains hplace =>
    rcases Waiting.drain hqueued rfl hrequests with hsame | ⟨hback, hdown⟩
    · unfold Unmissed
      rw [hsame, hplace]
      exact trivial
    · exact unmissed_back hback hdown

/-! ## All runs -/

structure Kept (x : Mdcli) : Prop where
  tracked : Tracked x
  queued : Queued x
  waiting : Waiting x

theorem Kept.step (h : Kept x) (hy : x.step e = some y) : Kept y := by
  have hmoves := moves_of_step hy
  exact ⟨h.tracked.moves hmoves, h.queued.moves h.tracked hmoves, h.waiting.moves h.queued hmoves⟩

theorem kept_start (created : List Int) : Kept (start created) := by
  have hdown : ∀ (j : ℕ) (b : Broker), (start created).brokers[j]? = some b → b.status = false := by
    intro j b hb
    rw [start, List.getElem?_map] at hb
    rcases Option.map_eq_some_iff.mp hb with ⟨now, -, rfl⟩
    rfl
  refine ⟨⟨fun j b hb hup => ?_, fun j b hj => absurd hj (Nat.not_lt_zero j)⟩,
    ⟨rfl, Rotation.round_nil, fun _ => (Nat.zero_mod _).symm, fun t ht => ?_⟩,
    fun _ _ hrequests => absurd rfl hrequests⟩
  · rw [hdown j b hb] at hup
    cases hup
  · exact absurd ht List.not_mem_nil

/-- What was queued is what was sent, in order, and what is still to be sent. A broker is passed by
only when it is down and served only when its last message is not too old, the turns of any two
differ by one at most, and the receive thread goes to sleep over a request only when no broker
is up, or the main thread is about to signal. -/
structure SendsInTurn (x : Mdcli) : Prop where
  once : x.accepted = x.sent ++ x.requests
  fits : ∀ t ∈ x.turns, t.Fits
  fair : ∀ i j, i < x.brokers.length → j < x.brokers.length →
    (x.turns.map Turn.broker).count i ≤ (x.turns.map Turn.broker).count j + 1
  awake : x.place = .polling → x.requests ≠ [] →
    (∀ b ∈ x.brokers, b.status = false) ∨ 0 < x.signals ∨ x.sender ≠ .idle

theorem Kept.sendsInTurn (h : Kept x) : SendsInTurn x := by
  refine ⟨h.queued.inOrder, h.queued.fits, fun i j hi hj => ?_, fun hplace hrequests => ?_⟩
  · exact h.queued.inTurn.count_le List.nodup_range (List.mem_range.mpr hi) (List.mem_range.mpr hj)
  · by_cases hsender : x.sender = .idle
    · rcases Nat.eq_zero_or_pos x.signals with hzero | hpos
      · refine .inl fun b hb => ?_
        have hdown := h.waiting hsender hzero hrequests
        unfold Unmissed at hdown
        rw [hplace] at hdown
        rcases List.getElem?_of_mem hb with ⟨j, hj⟩
        by_contra hup
        rw [Bool.not_eq_false] at hup
        exact hdown ⟨j, b, (List.getElem?_eq_some_iff.mp hj).1, hj, hup⟩
      · exact .inr (.inl hpos)
    · exact .inr (.inr hsender)

/-- However the two threads take turns and whatever the brokers send. -/
theorem sends_in_turn (created : List Int) (events : List MdcliEvent) :
    Run.Always step SendsInTurn (start created) events :=
  (Run.always_of_invariant (fun _ _ _ h hy => h.step hy) (kept_start created) events).mono
    fun _ h => h.sendsInTurn

end Mdcli

end IceBridge.Gateway
