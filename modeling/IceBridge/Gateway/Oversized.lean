import IceBridge.Gateway.MyFilter

/-! Messages that are too long for a frame. `Write` leaves its loop at the first of them, in the
middle of the batch that `PostMessageList` has taken from the handler. -/

namespace IceBridge.Gateway

def Fitting (message : List UInt8) : Prop := message.length ≤ 65535

instance (message : List UInt8) : Decidable (Fitting message) :=
  inferInstanceAs (Decidable (_ ≤ _))

def fitting (messages : List (List UInt8)) : List (List UInt8) :=
  messages.filter fun message => decide (Fitting message)

theorem fitting_cons_of_fitting {message : List UInt8} {messages : List (List UInt8)}
    (h : Fitting message) : fitting (message :: messages) = message :: fitting messages :=
  List.filter_cons_of_pos (p := fun m => decide (Fitting m)) (decide_eq_true h)

theorem fitting_cons_of_not_fitting {message : List UInt8} {messages : List (List UInt8)}
    (h : ¬ Fitting message) : fitting (message :: messages) = fitting messages :=
  List.filter_cons_of_neg (p := fun m => decide (Fitting m)) (by simpa using h)

namespace MyFilter
variable {globalBox : Table} {f : MyFilter}

def framesOf (globalBox : Table) : MyFilter → List (List UInt8) → MyFilter × List UInt8
  | f, [] => (f, [])
  | f, message :: messages =>
    let (g, _, bytes) := f.writeMessage globalBox message
    let (last, more) := framesOf globalBox g messages
    (last, bytes ++ more)

def OversizedLast (messages : List (List UInt8)) : Prop :=
  ∃ fitting oversized, messages = fitting ++ oversized ∧
    (∀ message ∈ fitting, 2 ≤ message.length ∧ Fitting message) ∧
    ∀ message ∈ oversized, ¬ Fitting message

theorem oversizedLast_cons_of_fitting {message : List UInt8} {messages : List (List UInt8)}
    (hfit : Fitting message) :
    OversizedLast (message :: messages) ↔ 2 ≤ message.length ∧ OversizedLast messages := by
  constructor
  · rintro ⟨fitting, oversized, heq, hfitting, hover⟩
    cases fitting with
    | nil =>
      obtain rfl : message :: messages = oversized := heq
      exact absurd hfit (hover message List.mem_cons_self)
    | cons first fitting =>
      obtain ⟨rfl, rfl⟩ := List.cons.inj heq
      exact ⟨(hfitting message List.mem_cons_self).1, fitting, oversized, rfl,
        fun x hx => hfitting x (List.mem_cons_of_mem message hx), hover⟩
  · rintro ⟨hsize, fitting, oversized, rfl, hfitting, hover⟩
    refine ⟨message :: fitting, oversized, rfl, fun x hx => ?_, hover⟩
    obtain rfl | hx := List.mem_cons.mp hx
    exacts [⟨hsize, hfit⟩, hfitting x hx]

theorem oversizedLast_cons_of_not_fitting {message : List UInt8} {messages : List (List UInt8)}
    (hfit : ¬ Fitting message) :
    OversizedLast (message :: messages) ↔ fitting messages = [] := by
  rw [fitting, List.filter_eq_nil_iff]
  constructor
  · rintro ⟨fitting, oversized, heq, hfitting, hover⟩ x hx
    cases fitting with
    | nil =>
      obtain rfl : message :: messages = oversized := heq
      simpa using hover x (List.mem_cons_of_mem message hx)
    | cons first fitting =>
      obtain ⟨rfl, -⟩ := List.cons.inj heq
      exact absurd (hfitting message List.mem_cons_self).2 hfit
  · intro h
    refine ⟨[], message :: messages, rfl, nofun, fun x hx => ?_⟩
    obtain rfl | hx := List.mem_cons.mp hx
    · exact hfit
    · simpa using h x hx

theorem framesOf_eq_nil_iff (globalBox : Table) (f : MyFilter) (messages : List (List UInt8)) :
    framesOf globalBox f messages = (f, []) ↔ messages = [] := by
  cases messages with
  | nil => exact iff_of_true rfl rfl
  | cons message messages =>
    refine iff_of_false (fun h => ?_) (List.cons_ne_nil _ _)
    have hbytes := congrArg (fun r => r.2.length) h
    unfold framesOf writeMessage at hbytes
    split_ifs at hbytes
    · simp [kHeaderSize] at hbytes
    · simp [kHeaderSize] at hbytes

theorem writeLoop_iff (globalBox : Table) (f : MyFilter) (messages : List (List UInt8)) :
    (∃ left complete, writeLoop globalBox f messages =
        some ((framesOf globalBox f (fitting messages)).1, left,
          (framesOf globalBox f (fitting messages)).2, complete)) ↔
      OversizedLast messages := by
  induction messages generalizing f with
  | nil => exact iff_of_true ⟨[], true, rfl⟩ ⟨[], [], rfl, nofun, nofun⟩
  | cons message messages ih =>
    by_cases hfit : Fitting message
    · rw [oversizedLast_cons_of_fitting hfit, fitting_cons_of_fitting hfit]
      by_cases hsize : message.length < 2
      · refine iff_of_false ?_ fun h => absurd h.1 (by omega)
        rintro ⟨left, complete, h⟩
        rw [writeLoop, if_pos hsize] at h
        cases h
      · have hshort : ¬ 65535 < message.length := not_lt.mpr hfit
        rw [and_iff_right (by omega), ← ih (f.writeMessage globalBox message).1]
        simp only [writeLoop, if_neg hsize, if_neg hshort, framesOf]
        set g := f.writeMessage globalBox message
        constructor
        · rintro ⟨left, complete, h⟩
          obtain ⟨⟨last, left', more, complete'⟩, hrest, h⟩ := Option.bind_eq_some_iff.mp h
          obtain ⟨rfl, h⟩ := Prod.mk.inj (Option.some.inj h)
          obtain ⟨-, h⟩ := Prod.mk.inj h
          obtain ⟨hmore, rfl⟩ := Prod.mk.inj h
          exact ⟨left', complete', List.append_cancel_left hmore ▸ hrest⟩
        · rintro ⟨left, complete, h⟩
          rw [h]
          exact ⟨g.2.1 :: left, complete, rfl⟩
    · have hlong : 65535 < message.length := not_le.mp hfit
      have hloop : writeLoop globalBox f (message :: messages) =
          some (f, message :: messages, [], false) := by
        rw [writeLoop, if_neg (by omega), if_pos hlong]
      rw [oversizedLast_cons_of_not_fitting hfit, fitting_cons_of_not_fitting hfit, hloop,
        ← framesOf_eq_nil_iff globalBox f]
      constructor
      · rintro ⟨left, complete, h⟩
        obtain ⟨hfilter, h⟩ := Prod.mk.inj (Option.some.inj h)
        obtain ⟨-, h⟩ := Prod.mk.inj h
        exact Prod.ext hfilter.symm (Prod.mk.inj h).1.symm
      · intro h
        rw [h]
        exact ⟨message :: messages, false, rfl⟩

end MyFilter

/-! ## A batch -/

open MyFilter Eddy

def outgoing {σ M : Type} (s : TCPSession σ M) : List UInt8 := s.bufferSending ++ s.bufferToBeSent

/-- Of a batch the frames of just the messages that fit are appended. -/
def DropsAlone (globalBox : Table) (s : TCPSession MyFilter (List UInt8))
    (messages : List (List UInt8)) : Prop :=
  ∃ t, s.postMessageList (myFilter globalBox) messages = some t ∧
    t.filter = (framesOf globalBox s.filter (fitting messages)).1 ∧
    outgoing t = outgoing s ++ (framesOf globalBox s.filter (fitting messages)).2

theorem postMessageList_eq {globalBox : Table} {s : TCPSession MyFilter (List UInt8)}
    (hopen : s.closed = false) (hqueue : s.messagesToBeSent = []) {messages : List (List UInt8)}
    (hne : messages ≠ []) :
    s.postMessageList (myFilter globalBox) messages =
      (writeLoop globalBox s.filter messages).map fun (f, _, bytes, _) =>
        let t := { s with filter := f, bufferToBeSent := s.bufferToBeSent ++ bytes }
        if s.bufferSending = [] then t.startWrite else t := by
  have hbytes : (myFilter globalBox).bytesWannaWrite s.filter messages ≠ 0 := by
    obtain ⟨message, rest, rfl⟩ := List.exists_cons_of_ne_nil hne
    show ((message :: rest).map fun m => kHeaderSize + m.length).sum ≠ 0
    rw [List.map_cons, List.sum_cons, kHeaderSize]
    omega
  rw [TCPSession.postMessageList, if_neg (by simp [hopen]), if_neg (not_not.mpr hqueue),
    if_neg hbytes]
  show ((write globalBox s.filter messages).bind fun _ => _) = _
  rw [write]
  cases writeLoop globalBox s.filter messages with
  | none => rfl
  | some r => rfl

theorem outgoing_append {s : TCPSession MyFilter (List UInt8)} {f : MyFilter}
    {bytes : List UInt8} :
    let t := { s with filter := f, bufferToBeSent := s.bufferToBeSent ++ bytes }
    let u := if s.bufferSending = [] then t.startWrite else t
    u.filter = f ∧ outgoing u = outgoing s ++ bytes := by
  dsimp only
  split_ifs with hidle
  · refine ⟨rfl, ?_⟩
    simp [outgoing, TCPSession.startWrite, hidle]
  · exact ⟨rfl, (List.append_assoc _ _ _).symm⟩

/-- A batch loses just its oversized messages exactly when nothing that fits comes after the
first of them, and every message before it has an id. -/
theorem dropsAlone_iff (globalBox : Table) {s : TCPSession MyFilter (List UInt8)}
    (hopen : s.closed = false) (hqueue : s.messagesToBeSent = []) (messages : List (List UInt8)) :
    DropsAlone globalBox s messages ↔ OversizedLast messages := by
  by_cases hne : messages = []
  · subst hne
    refine iff_of_true ⟨{ s with messagesToBeSent := [] }, ?_, rfl, ?_⟩ ⟨[], [], rfl, nofun, nofun⟩
    · rw [TCPSession.postMessageList, if_neg (by simp [hopen]), if_neg (not_not.mpr hqueue)]
      rfl
    · exact (List.append_nil _).symm
  · rw [← writeLoop_iff globalBox s.filter, DropsAlone, postMessageList_eq hopen hqueue hne]
    cases hloop : writeLoop globalBox s.filter messages with
    | none => exact iff_of_false (by simp) (by simp)
    | some r =>
      obtain ⟨f, left, bytes, complete⟩ := r
      obtain ⟨hfilter, hout⟩ := @outgoing_append s f bytes
      constructor
      · rintro ⟨t, ht, hf, hb⟩
        obtain rfl := Option.some.inj ht
        rw [hfilter] at hf
        rw [hout] at hb
        exact ⟨left, complete, by rw [hf, List.append_cancel_left hb]⟩
      · rintro ⟨left', complete', h⟩
        obtain ⟨hf, h⟩ := Prod.mk.inj (Option.some.inj h)
        obtain ⟨-, h⟩ := Prod.mk.inj h
        exact ⟨_, rfl, hfilter.trans hf, hout.trans (by rw [(Prod.mk.inj h).1])⟩

def opened : TCPSession MyFilter (List UInt8) :=
  { filter := { pBox := id, randoms := fun _ _ => 0 } }

theorem dropsAlone_long_last :
    DropsAlone id opened [[233, 3, 7], List.replicate 65536 7] := by
  refine (dropsAlone_iff id rfl rfl _).mpr ⟨[[233, 3, 7]], [List.replicate 65536 7], rfl, ?_, ?_⟩
  · intro message hmem
    obtain rfl := List.mem_singleton.mp hmem
    decide
  · intro message hmem
    obtain rfl := List.mem_singleton.mp hmem
    rw [Fitting, List.length_replicate]
    decide

/-- A message of three bytes after one that is too long is lost. -/
theorem not_dropsAlone_long_first :
    ¬ DropsAlone id opened [List.replicate 65536 7, [233, 3, 7]] := by
  rintro ⟨t, ht, -, hout⟩
  have hlong : (List.replicate 65536 (7 : UInt8)).length = 65536 := List.length_replicate
  have hfit : ¬ Fitting (List.replicate 65536 7) := by
    rw [Fitting, hlong]
    decide
  have hloop : writeLoop id opened.filter [List.replicate 65536 7, [233, 3, 7]] =
      some (opened.filter, [List.replicate 65536 7, [233, 3, 7]], [], false) := by
    rw [writeLoop, hlong]
    rfl
  rw [postMessageList_eq rfl rfl (List.cons_ne_nil _ _), hloop] at ht
  obtain rfl := Option.some.inj ht
  rw [fitting_cons_of_not_fitting hfit] at hout
  exact absurd hout (by decide)

end IceBridge.Gateway
