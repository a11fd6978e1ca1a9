import IceBridge.Eddy.Handlers
import IceBridge.Gateway.MyFilter

/-! The read of a gateway session. Each read that completes starts the next, unless its two bytes
announce a message of no bytes: the filter then wants nothing, and nothing is read any more. -/

namespace IceBridge.Gateway
open Eddy

/-- What happens to a session of the gateway, whose thread also closes sessions that have been
silent for too long. -/
inductive GatewayEvent
  | session (e : SessionEvent (List UInt8))
  | activeClose

abbrev GatewaySession := TCPSession MyFilter (List UInt8)

namespace GatewaySession

def activeClose (s : GatewaySession) : GatewaySession :=
  TCPSession.tearDown { s with activeClosed := true }

def step (globalBox : Table) (s : GatewaySession) : GatewayEvent → Option GatewaySession
  | .session e => TCPSession.step (myFilter globalBox) s e
  | .activeClose => some s.activeClose

def init (globalBox pBox : Table) (randoms : ℕ → Fin (exchangeTimes * 2) → UInt8) :
    GatewaySession :=
  TCPSession.init (myFilter globalBox) { pBox := pBox, randoms := randoms }

/-- Exactly one read is outstanding, unless the session is closed. -/
def Reads (s : GatewaySession) : Prop := s.closed = false → s.reads.length = 1

def Announces (s : GatewaySession) : GatewayEvent → Prop
  | .session (.handleRead _ error data) => error = false → s.closed = false →
      s.filter.headerRead = false → Bytes.value (data.take MyFilter.kHeaderSize) ≠ 0
  | _ => True

variable {box : Table} {s t : GatewaySession}

/-! ## What the filter wants -/

theorem bytesWannaRead_read (globalBox : Table) (f : MyFilter) (data : List UInt8) :
    (myFilter globalBox).bytesWannaRead ((myFilter globalBox).read f data).1 = 0 ↔
      f.headerRead = false ∧ Bytes.value (data.take MyFilter.kHeaderSize) = 0 := by
  cases hread : f.headerRead with
  | true =>
    refine iff_of_false (fun hzero => ?_) (fun h => Bool.false_ne_true h.1.symm)
    simp [myFilter, MyFilter.read, MyFilter.bytesWannaRead, MyFilter.kHeaderSize, hread] at hzero
  | false =>
    have hlen : (data.take MyFilter.kHeaderSize).length ≤ 2 := by
      rw [List.length_take]
      exact Nat.min_le_left _ _
    have hlt : Bytes.value (data.take MyFilter.kHeaderSize) < 65536 :=
      (Bytes.value_lt _).trans_le (Nat.pow_le_pow_right (by decide) hlen)
    simp [myFilter, MyFilter.read, MyFilter.bytesWannaRead, hread, Nat.mod_eq_of_lt hlt]

/-! ## One step -/

theorem length_reads_startRead (F : NetMessageFilter MyFilter (List UInt8)) (s : GatewaySession) :
    (TCPSession.startRead F s).reads.length =
      s.reads.length + if F.bytesWannaRead s.filter = 0 then 0 else 1 := by
  obtain ⟨hzero, heq⟩ | ⟨hsome, reading, heq⟩ := TCPSession.startRead_cases F s
  · rw [heq, if_pos hzero, Nat.add_zero]
  · rw [heq, if_neg hsome, List.length_append, List.length_singleton]

theorem reads_receive {data : List UInt8} (hnone : s.reads = []) (hopen : s.closed = false)
    (ht : TCPSession.receive (myFilter box) s data = some t) :
    Reads t ↔ (s.filter.headerRead = false → Bytes.value (data.take MyFilter.kHeaderSize) ≠ 0) := by
  have htopen : t.closed = false := (TCPSession.receive_frame ht).2.1.trans hopen
  have hlen : t.reads.length = if (myFilter box).bytesWannaRead
      ((myFilter box).read s.filter data).1 = 0 then 0 else 1 := by
    rw [TCPSession.receive_cases ht, length_reads_startRead]
    simp only [hnone, List.length_nil, Nat.zero_add]
  have hone : Reads t ↔ t.reads.length = 1 := ⟨fun h => h htopen, fun h _ => h⟩
  rw [hone, hlen, ← not_and, ← bytesWannaRead_read box]
  split
  · next hzero => exact iff_of_false Nat.zero_ne_one (not_not.mpr hzero)
  · next hsome => exact iff_of_true rfl hsome

theorem reads_step (s : GatewaySession) (e : GatewayEvent) (t : GatewaySession) (h : Reads s)
    (ht : s.step box e = some t) : Reads t ↔ Announces s e := by
  cases e with
  | activeClose =>
    rw [← Option.some.inj ht, activeClose, TCPSession.tearDown, TCPSession.packMessageList_eq]
    exact iff_of_true h trivial
  | session e =>
  have ht : TCPSession.step (myFilter box) s e = some t := ht
  cases hclosed : s.closed with
  | true =>
    have htclosed := TCPSession.closed_step hclosed ht
    refine iff_of_true (fun hopen => absurd hopen (by simp [htclosed])) ?_
    cases e with
    | handleRead reading error data => exact fun _ hopen => absurd hopen (by simp [hclosed])
    | _ => trivial
  | false =>
    have hread := h hclosed
    cases e with
    | postMessageList messages =>
      refine iff_of_true ?_ trivial
      obtain rfl | ⟨-, ⟨left, rfl⟩ | ⟨f, buffer, ⟨-, rfl⟩ | ⟨-, rfl⟩⟩⟩ :=
        TCPSession.postMessageList_cases ht
      all_goals exact h
    | handleRead reading error data =>
      obtain ⟨⟨hmem, -⟩, ⟨hend, rfl⟩ | ⟨⟨herror, -⟩, hreceive⟩⟩ :=
        TCPSession.step_handleRead_cases ht
      · have herror : error = true := hend.resolve_right (by simp [hclosed])
        have hshut := TCPSession.closed_shut (s.readDone reading)
        exact iff_of_true (fun hopen => absurd hopen (by simp [hshut]))
          fun hnone => absurd herror (by simp [hnone])
      · obtain ⟨only, honly⟩ := List.length_eq_one_iff.mp hread
        have hnone : (s.readDone reading).reads = [] := by
          rw [honly, List.mem_singleton] at hmem
          rw [TCPSession.readDone, TCPSession.handled, honly, hmem, List.erase_cons_head]
        refine (reads_receive hnone hclosed hreceive).trans ?_
        exact ⟨fun hvalue _ _ => hvalue, fun hvalue => hvalue herror hclosed⟩
    | handleWrite buffer error =>
      refine iff_of_true ?_ trivial
      obtain ⟨-, ⟨-, rfl⟩ | ⟨-, hnext⟩⟩ := TCPSession.step_handleWrite_cases ht
      · exact fun hopen => absurd hopen (by simp [TCPSession.closed_shut])
      obtain ⟨-, f, left, next, rfl⟩ | ⟨-, rfl⟩ := TCPSession.sendNext_cases hnext
      · exact h
      · have hopen : ¬ (s.writeDone buffer).closed = true := by
          simp [TCPSession.writeDone, TCPSession.handled, hclosed]
        rw [if_neg hopen]
        exact h
    | close =>
      refine iff_of_true (fun hopen => absurd hopen ?_) trivial
      have heq : s.close = TCPSession.shut { s with closeCalled := true } :=
        if_neg (by simp [hclosed])
      rw [← Option.some.inj ht, heq, TCPSession.closed_shut]
      exact Bool.true_eq_false.mp
    | packMessageList =>
      rw [← Option.some.inj ht, TCPSession.packMessageList_eq]
      exact iff_of_true h trivial
    | setReceiveDelay delay =>
      rw [← Option.some.inj ht]
      exact iff_of_true h trivial

/-! ## Runs -/

theorem reads_init (globalBox pBox : Table) (randoms : ℕ → Fin (exchangeTimes * 2) → UInt8) :
    Reads (init globalBox pBox randoms) := fun _ => rfl

/-- An open session has its one read exactly as long as no header announces an empty message. -/
theorem reads_iff (globalBox pBox : Table) (randoms : ℕ → Fin (exchangeTimes * 2) → UInt8)
    (events : List GatewayEvent) :
    Run.Always (step globalBox) Reads (init globalBox pBox randoms) events ↔
      Run.EachStep (step globalBox) Announces (init globalBox pBox randoms) events :=
  Run.always_iff_eachStep (I := fun _ => True) (fun _ _ _ _ _ => trivial)
    (fun s e t _ h ht => reads_step s e t h ht) trivial (reads_init globalBox pBox randoms) events

/-- Two zero bytes, and the session reads no more. -/
theorem not_reads_zeros : ¬ Run.Always (step globalBox) Reads
    (init globalBox globalBox fun _ _ => 0) [.session (.handleRead (.exactly 2) false [0, 0])] := by
  intro hall
  exact absurd (hall.2 _ rfl rfl) (by decide)

end GatewaySession

end IceBridge.Gateway
