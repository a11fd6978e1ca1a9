import IceBridge.Gateway.SendRequests

/-! The loop that sends the requests goes on while there is one, whether or not a broker is up.
It ends unless the main thread queues at one of two moments. -/

namespace IceBridge.Gateway
open Router (Frame Zmsg)

namespace Mdcli
variable {x y : Mdcli} {e : MdcliEvent} {clock : Int} {caller : Caller} {i n : ℕ}

/-! ## With a broker up the loop ends -/

theorem drain_once {b : Broker} {request : Request} {rest : List Request}
    (hb : x.brokers[x.nextBroker]? = some b) (hrequests : x.requests = request :: rest) :
    x.drain caller = { x with
      nextBroker := (x.nextBroker + 1) % x.brokers.length
      requests := if b.status then rest else request :: rest
      turns := x.turns ++ [{ broker := x.nextBroker, seen := b,
                             served := if b.status then some request else none }] } := by
  rcases x.drain_cases caller with ⟨hdone, -⟩ | ⟨c, request', rest', hc, hrequests', hdrain⟩
  · rcases hdone with hnil | hnone
    · rw [hrequests] at hnil
      cases hnil
    · rw [hb] at hnone
      cases hnone
  · rw [hb] at hc
    rw [hrequests] at hrequests'
    obtain rfl := Option.some.inj hc
    obtain ⟨rfl, rfl⟩ := List.cons.inj hrequests'
    exact hdrain

def Rounds (clock : Int) (k : ℕ) (x y : Mdcli) : Prop :=
  Run.exec step x (List.replicate k (.receive clock)) = some y

theorem rounds_zero (x : Mdcli) : Rounds clock 0 x x := rfl

theorem Rounds.trans {z : Mdcli} {k m : ℕ} (h : Rounds clock k x y) (hz : Rounds clock m y z) :
    Rounds clock (k + m) x z := by
  induction k generalizing x with
  | zero =>
    rw [Nat.zero_add, Option.some.inj h]
    exact hz
  | succ k ih =>
    rcases Option.bind_eq_some_iff.mp h with ⟨u, hu, hrest⟩
    rw [Nat.succ_add]
    exact Option.bind_eq_some_iff.mpr ⟨u, hu, ih hrest⟩

theorem rounds_one (hplace : x.place = .draining caller) :
    Rounds clock 1 x (x.drain caller) := by
  have hstep : x.step (.receive clock) = some (x.drain caller) := by
    simp only [step, receive, hplace]
  unfold Rounds
  rw [List.replicate_one, Run.exec, hstep]
  rfl

structure InLoop (caller : Caller) (x : Mdcli) : Prop where
  place : x.place = .draining caller
  next : x.nextBroker < x.brokers.length
  up : x.Up

theorem InLoop.drain {request : Request} {rest : List Request} (h : InLoop caller x)
    (hrequests : x.requests = request :: rest) : InLoop caller (x.drain caller) := by
  rw [drain_once (List.getElem?_eq_getElem h.next) hrequests]
  exact ⟨h.place, Nat.mod_lt _ (Nat.zero_lt_of_lt h.next), h.up⟩

theorem served_within {request : Request} {rest : List Request} (hloop : InLoop caller x)
    (hrequests : x.requests = request :: rest) {d : ℕ} {b : Broker}
    (hb : x.brokers[(x.nextBroker + d) % x.brokers.length]? = some b) (hup : b.status = true) :
    ∃ k y, k ≤ d + 1 ∧ Rounds clock k x y ∧ InLoop caller y ∧ y.requests = rest ∧
      y.brokers = x.brokers := by
  induction d generalizing x with
  | zero =>
    rw [Nat.add_zero, Nat.mod_eq_of_lt hloop.next] at hb
    refine ⟨1, x.drain caller, le_rfl, rounds_one hloop.place, hloop.drain hrequests, ?_,
      x.brokers_drain caller⟩
    rw [drain_once hb hrequests, hup]
    rfl
  | succ d ih =>
    have hnext := hloop.next
    have hcur := List.getElem?_eq_getElem hnext
    cases hstatus : x.brokers[x.nextBroker].status with
    | true =>
      refine ⟨1, x.drain caller, Nat.le_add_left _ _, rounds_one hloop.place,
        hloop.drain hrequests, ?_, x.brokers_drain caller⟩
      rw [drain_once hcur hrequests, hstatus]
      rfl
    | false =>
      have hrequests' : (x.drain caller).requests = request :: rest := by
        rw [drain_once hcur hrequests, hstatus]
        rfl
      have hb' : (x.drain caller).brokers[((x.drain caller).nextBroker + d) %
          (x.drain caller).brokers.length]? = some b := by
        rw [x.brokers_drain caller, drain_once hcur hrequests]
        change x.brokers[((x.nextBroker + 1) % x.brokers.length + d) % x.brokers.length]? = some b
        rw [Nat.mod_add_mod, Nat.add_assoc, Nat.add_comm 1 d]
        exact hb
      rcases ih (hloop.drain hrequests) hrequests' hb' with ⟨k, y, hk, hrounds, hy, hrest, hbrokers⟩
      refine ⟨1 + k, y, ?_, (rounds_one hloop.place).trans hrounds, hy, hrest, ?_⟩
      · rw [Nat.add_comm]
        exact Nat.succ_le_succ hk
      · rw [hbrokers]
        exact x.brokers_drain caller

theorem InLoop.served {request : Request} {rest : List Request} (h : InLoop caller x)
    (hrequests : x.requests = request :: rest) :
    ∃ k y, k ≤ x.brokers.length ∧ Rounds clock k x y ∧ InLoop caller y ∧ y.requests = rest ∧
      y.brokers = x.brokers := by
  rcases h.up with ⟨j, b, hj, hb, hup⟩
  have hpos : 0 < x.brokers.length := Nat.zero_lt_of_lt hj
  have hturn : (x.nextBroker + (j + (x.brokers.length - x.nextBroker)) % x.brokers.length) %
      x.brokers.length = j := by
    have hsum : x.nextBroker + (j + (x.brokers.length - x.nextBroker)) = j + x.brokers.length := by
      have hnext := h.next
      omega
    rw [Nat.add_mod_mod, hsum, Nat.add_mod_right, Nat.mod_eq_of_lt hj]
  rw [← hturn] at hb
  rcases served_within h hrequests hb hup with ⟨k, y, hk, hy⟩
  exact ⟨k, y, hk.trans (Nat.mod_lt _ hpos), hy⟩

/-- The loop ends, with all that was queued sent. -/
def Ends (x : Mdcli) : Prop :=
  ∀ clock, ∃ k y, k ≤ x.requests.length * x.brokers.length ∧ Rounds clock k x y ∧ y.requests = []

theorem InLoop.ends (h : InLoop caller x) : Ends x := by
  intro clock
  induction hrequests : x.requests generalizing x with
  | nil => exact ⟨0, x, Nat.zero_le _, rounds_zero x, hrequests⟩
  | cons request rest ih =>
    rcases h.served hrequests with ⟨k, y, hk, hy, hloop, hrest, hbrokers⟩
    rcases ih hloop hrest with ⟨m, z, hm, hz, hnone⟩
    refine ⟨k + m, z, ?_, hy.trans hz, hnone⟩
    rw [hbrokers] at hm
    rw [List.length_cons, Nat.succ_mul, Nat.add_comm]
    exact Nat.add_le_add hm hk

theorem stuck {k : ℕ} {request : Request} {rest : List Request} (hplace : x.place = .draining caller)
    (hnext : x.nextBroker < x.brokers.length) (hdown : ¬ x.Up)
    (hrequests : x.requests = request :: rest) (hy : Rounds clock k x y) :
    y.requests = request :: rest := by
  induction k generalizing x with
  | zero =>
    rw [← Option.some.inj hy]
    exact hrequests
  | succ k ih =>
    have hcur := List.getElem?_eq_getElem hnext
    have hdrain : x.drain caller = _ := drain_once hcur hrequests
    have hstatus : x.brokers[x.nextBroker].status = false := by
      by_contra hup
      rw [Bool.not_eq_false] at hup
      exact hdown ⟨x.nextBroker, _, hnext, hcur, hup⟩
    rcases Option.bind_eq_some_iff.mp hy with ⟨u, hu, hrest⟩
    have hsame : x.drain caller = u := by
      simp only [step, receive, hplace] at hu
      exact Option.some.inj hu
    rw [← hsame] at hrest
    rw [hstatus] at hdrain
    refine ih ?_ ?_ ?_ ?_ hrest
    · rw [hdrain]
      exact hplace
    · rw [hdrain]
      exact Nat.mod_lt _ (Nat.zero_lt_of_lt hnext)
    · rw [hdrain]
      exact hdown
    · rw [hdrain]
      rfl

theorem ends_iff (hqueued : Queued x) (hplace : x.place = .draining caller) :
    Ends x ↔ x.requests = [] ∨ x.Up := by
  constructor
  · intro h
    by_contra hneither
    rw [not_or] at hneither
    rcases List.exists_cons_of_ne_nil hneither.1 with ⟨request, rest, hrequests⟩
    rcases h 0 with ⟨k, y, hk, hy, hnone⟩
    rcases Nat.eq_zero_or_pos x.brokers.length with hzero | hpos
    · rw [hzero, Nat.mul_zero, Nat.le_zero] at hk
      rw [hk] at hy
      rw [← Option.some.inj hy] at hnone
      exact hneither.1 hnone
    · have hnext : x.nextBroker < x.brokers.length := by
        rw [hqueued.next hpos]
        exact Nat.mod_lt _ hpos
      rw [stuck hplace hnext hneither.2 hrequests hy] at hnone
      cases hnone
  · rintro (hnil | ⟨j, b, hj, hb⟩)
    · exact fun clock => ⟨0, x, Nat.zero_le _, rounds_zero x, hnil⟩
    · have hpos : 0 < x.brokers.length := Nat.zero_lt_of_lt hj
      have hnext : x.nextBroker < x.brokers.length := by
        rw [hqueued.next hpos]
        exact Nat.mod_lt _ hpos
      exact InLoop.ends ⟨hplace, hnext, j, b, hj, hb⟩

/-! ## The two moments -/

/-- No broker is found to be up between `m_broker_ready = 0` and the request that `send` queues,
and nothing is queued between the test of `m_broker_ready` and the lock while no broker is up. -/
def Apart (x : Mdcli) : MdcliEvent → Prop
  | .push => ∀ caller, x.place = .locking caller → x.Up
  | .receive clock => ∀ caller i b, x.place = .scanning caller i → x.brokers[i]? = some b →
    (b.check clock).status = true → ∀ request, x.sender ≠ .cleared request
  | _ => True

structure Entered (x : Mdcli) : Prop where
  cleared : x.brokerReady = true → ∀ request, x.sender ≠ .cleared request
  ready : x.brokerReady = true → x.requests ≠ [] → x.UpTo x.looked
  locked : ∀ caller, x.place = .locking caller ∨ x.place = .draining caller → x.requests ≠ [] → x.Up

theorem Entered.idle (h : Entered x) (hlooked : x.looked = 0) (hready : x.brokerReady = true) :
    x.requests = [] := by
  by_contra hne
  have hup := h.ready hready hne
  rw [hlooked] at hup
  exact not_upTo_zero x hup

theorem Entered.outside (h : Entered x) (hlooked : x.looked = 0)
    (hready : y.brokerReady = x.brokerReady) (hsender : y.sender = x.sender)
    (hrequests : y.requests = x.requests)
    (hplace : ∀ caller, y.place ≠ .locking caller ∧ y.place ≠ .draining caller) : Entered y := by
  refine ⟨fun hy => ?_, fun hy hne => ?_, fun caller hy => ?_⟩
  · rw [hsender]
    exact h.cleared (hready ▸ hy)
  · rw [hrequests] at hne
    exact absurd (h.idle hlooked (hready ▸ hy)) hne
  · exact (hy.elim (hplace caller).1 (hplace caller).2).elim

theorem Entered.scan (h : Entered x) (hplace : x.place = .scanning caller i)
    (happart : ∀ b, x.brokers[i]? = some b → (b.check clock).status = true →
      ∀ request, x.sender ≠ .cleared request) : Entered (x.scan clock caller i) := by
  have hlooked : x.looked = i := by
    unfold looked
    rw [hplace]
  rcases x.scan_frame clock caller i with ⟨hrequests, -, -, -, -, hsender, -⟩
  cases hb : x.brokers[i]? with
  | none =>
    rw [scan_of_none hb]
    exact ⟨h.cleared, fun hready hne => (h.ready hready hne).up,
      fun caller hnot => by rcases hnot with hnot | hnot <;> cases hnot⟩
  | some b =>
    have hnext : (x.scan clock caller i).place = .scanning caller (i + 1) := by
      unfold Mdcli.scan
      rw [hb]
    refine ⟨fun hready => ?_, fun hready hne => ?_, fun other hnot => ?_⟩
    · rw [brokerReady_scan hb] at hready
      rw [hsender]
      split_ifs at hready with hstatus
      · exact happart b hb hstatus
      · exact h.cleared hready
    · have hlooked' : (x.scan clock caller i).looked = i + 1 := by
        unfold looked
        rw [hnext]
      rw [hlooked', upTo_scan hb]
      rw [brokerReady_scan hb] at hready
      rw [hrequests] at hne
      split_ifs at hready with hstatus
      · exact .inr hstatus
      · have hup := h.ready hready hne
        rw [hlooked] at hup
        exact .inl hup
    · rw [hnext] at hnot
      rcases hnot with hnot | hnot <;> cases hnot

theorem Entered.drain (h : Entered x) (hqueued : Queued x) (hplace : x.place = .draining caller) :
    Entered (x.drain caller) := by
  rcases x.drain_cases caller with ⟨hdone, hdrain⟩ | ⟨b, request, rest, hb, hrequests, hdrain⟩
  · have hnil : x.requests = [] := by
      by_contra hne
      have hup := h.locked caller (.inr hplace) hne
      rcases hup with ⟨j, b, hj, -⟩
      have hpos : 0 < x.brokers.length := Nat.zero_lt_of_lt hj
      rcases hdone with hnil | hnone
      · exact hne hnil
      · rw [hqueued.next hpos, List.getElem?_eq_none_iff] at hnone
        exact absurd (Nat.mod_lt _ hpos) (Nat.not_lt.mpr hnone)
    rw [hdrain]
    exact ⟨h.cleared, fun _ hne => absurd hnil hne, fun _ _ hne => absurd hnil hne⟩
  · have hne : x.requests ≠ [] := by
      rw [hrequests]
      exact List.cons_ne_nil _ _
    have hup : x.Up := h.locked caller (.inr hplace) hne
    rw [hdrain]
    refine ⟨h.cleared, fun _ _ => ?_, fun _ _ _ => hup⟩
    unfold looked
    simp only [hplace]
    exact hup

theorem Entered.moves (h : Entered x) (hqueued : Queued x) (hmoves : Moves x e y)
    (happart : Apart x e) : Entered y := by
  cases hmoves with
  | send hsender =>
    exact ⟨fun hready => absurd hready Bool.false_ne_true,
      fun hready => absurd hready Bool.false_ne_true, h.locked⟩
  | push hsender hplace =>
    have hready : x.brokerReady ≠ true := fun hready => h.cleared hready _ hsender
    refine ⟨fun hy => absurd hy hready, fun hy => absurd hy hready, fun caller hy _ => ?_⟩
    rcases hy with hlocking | hdraining
    · exact happart caller hlocking
    · exact absurd hdraining (hplace caller)
  | signal hsender => exact ⟨fun _ request hnot => (by cases hnot), h.ready, h.locked⟩
  | @poll signalled replies hplace =>
    refine h.outside ?_ rfl rfl rfl fun caller => ?_
    · unfold looked
      rw [hplace]
    · cases signalled <;> simp
  | polls hplace | handles hplace =>
    refine h.outside ?_ rfl rfl rfl fun caller => (by simp)
    unfold looked
    rw [hplace]
  | hears hplace =>
    refine h.outside ?_ rfl rfl rfl fun caller => ?_
    · unfold looked
      rw [hplace]
    · split_ifs <;> simp
  | scans hplace => exact h.scan hplace fun b => happart _ _ b hplace
  | @tests clock caller hplace =>
    cases hready : x.brokerReady with
    | true =>
      have hall : x.requests ≠ [] → x.Up := fun hne => (h.ready hready hne).up
      exact ⟨fun _ => h.cleared hready, fun _ => hall, fun _ _ => hall⟩
    | false =>
      refine ⟨fun hy => absurd hy Bool.false_ne_true, fun hy => absurd hy Bool.false_ne_true,
        fun other hy => ?_⟩
      cases caller <;> rcases hy with hy | hy <;> cases hy
  | @locks clock caller hplace =>
    exact ⟨h.cleared, fun hready hne => (h.ready hready hne).up,
      fun _ _ => h.locked caller (.inl hplace)⟩
  | drains hplace => exact h.drain hqueued hplace

theorem Entered.done (h : Entered x) (hplace : x.place = .draining caller) :
    x.requests = [] ∨ x.Up := by
  by_cases hne : x.requests = []
  · exact .inl hne
  · exact .inr (h.locked caller (.inr hplace) hne)

/-- As long as `send` and `send_requests` are apart at these moments, whoever enters the loop gets
out of it after at most one time round the brokers for each request. -/
theorem loop_ends (created : List Int) (events : List MdcliEvent)
    (h : Run.EachStep step Apart (start created) events) :
    Run.Always step (fun x => ∀ caller, x.place = .draining caller → Ends x) (start created)
      events := by
  have hstep : ∀ s e t, Kept s ∧ Entered s → Apart s e → step s e = some t → Kept t ∧ Entered t :=
    fun s e t hs happart ht =>
      ⟨hs.1.step ht, hs.2.moves hs.1.queued (moves_of_step ht) happart⟩
  have hstart : Entered (start created) :=
    ⟨fun hready => absurd hready Bool.false_ne_true,
      fun hready => absurd hready Bool.false_ne_true, fun _ _ hne => absurd rfl hne⟩
  exact (Run.always_of_eachStep hstep ⟨kept_start created, hstart⟩ h).mono
    fun s hs caller hplace => (ends_iff hs.1.queued hplace).mpr (hs.2.done hplace)

/-! One broker, heard at time 8, and one request. -/

def beat : Zmsg := [[], Router.mdpcClient, Router.mdpwHeartbeat, []]

def request : Request := { service := [108], msg := [[97]] }

def upRun : List MdcliEvent :=
  [.receive 7, .receive 7, .receive 7, .receive 7, .send request, .push, .signal,
    .poll false [(0, beat)], .receive 8, .receive 8, .receive 8, .receive 8, .receive 8]

theorem apart_idle (h : x.sender = .idle) : Apart x (.receive clock) := by
  intro caller i b _ _ _ request hnot
  rw [h] at hnot
  cases hnot

theorem loop_ends_up :
    Run.EachStep step Apart (start [5]) upRun ∧
    Run.Always step (fun x => ∀ caller, x.place = .draining caller → Ends x) (start [5]) upRun := by
  have happart : Run.EachStep step Apart (start [5]) upRun := by
    iterate 4 refine .cons rfl (apart_idle rfl) ?_
    refine .cons rfl trivial (.cons rfl (fun caller hplace => by cases hplace) ?_)
    refine .cons rfl trivial (.cons rfl trivial ?_)
    iterate 5 refine .cons rfl (apart_idle rfl) ?_
    trivial
  exact ⟨happart, loop_ends [5] upRun happart⟩

def staleRun : List MdcliEvent :=
  upRun ++ [.receive 8, .receive 8, .receive 8, .receive 8, .poll true [], .receive 2500009,
    .receive 2500009, .receive 2500009, .send request, .push, .signal, .receive 2500009]

theorem not_ends_stale : ∃ x caller, Run.exec step (start [5]) staleRun = some x ∧
    x.place = .draining caller ∧ ¬ Ends x := by
  refine ⟨_, .loop, rfl, rfl, fun h => ?_⟩
  have hkept := Run.exec_invariant (fun _ _ _ h hy => h.step hy) (kept_start [5])
    (rfl : Run.exec step (start [5]) staleRun = some _)
  rcases (ends_iff hkept.queued rfl).mp h with hnil | ⟨j, b, hj, hb, hup⟩
  · cases hnil
  · obtain rfl : j = 0 := Nat.lt_one_iff.mp hj
    obtain rfl := Option.some.inj hb
    cases hup

end Mdcli

end IceBridge.Gateway
