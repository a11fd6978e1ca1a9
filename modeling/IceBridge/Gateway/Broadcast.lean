import IceBridge.Gateway.NetMessage
import IceBridge.Lib.Run

/-! One reply to several players. The copies of a long message share one vector, which
each session's filter encrypts again, so a recipient gets the payload exactly when the
tables of those that wrote before it left the vector as it was. -/

namespace IceBridge.Gateway

/-! ## Tables -/

section Tables
variable {box : Equiv.Perm UInt8} {bytes : List UInt8}

@[simp] theorem length_encrypt : (encrypt box bytes).length = bytes.length := by
  simp [encrypt]
  omega

@[simp] theorem length_decrypt : (decrypt box bytes).length = bytes.length := length_encrypt

@[simp] theorem take_encrypt : (encrypt box bytes).take 2 = bytes.take 2 := by
  rcases bytes with _ | ⟨a, _ | ⟨b, rest⟩⟩ <;> rfl

theorem decrypt_encrypt : decrypt box (encrypt box bytes) = bytes := by
  rcases bytes with _ | ⟨a, _ | ⟨b, rest⟩⟩
  · rfl
  · rfl
  · simp [encrypt, decrypt]

theorem encrypt_eq_self_iff : encrypt box bytes = bytes ↔ ∀ x ∈ bytes.drop 2, box x = x := by
  rcases bytes with _ | ⟨a, _ | ⟨b, rest⟩⟩
  · simp [encrypt]
  · simp [encrypt]
  · have hmap := List.map_inj_left (l := rest) (f := box) (g := id)
    simpa [encrypt] using hmap

end Tables

/-! ## What a write changes in the heap -/

structure Heap.Alike (h h' : Heap) : Prop where
  count : h'.vectors.length = h.vectors.length
  size : ∀ r, (h'.bytesAt r).length = (h.bytesAt r).length
  id : ∀ r, (h'.bytesAt r).take 2 = (h.bytesAt r).take 2

section Writing
variable {h h' h'' : Heap} {m : NetMessage} {s : Session} {box : Equiv.Perm UInt8}

theorem Heap.Alike.refl (h : Heap) : h.Alike h := ⟨rfl, fun _ => rfl, fun _ => rfl⟩

theorem Heap.Alike.trans (h₁ : h.Alike h') (h₂ : h'.Alike h'') : h.Alike h'' :=
  ⟨h₂.count.trans h₁.count, fun r => (h₂.size r).trans (h₁.size r),
    fun r => (h₂.id r).trans (h₁.id r)⟩

theorem Heap.bytesAt_congr (hv : h'.vectors = h.vectors) (r : ℕ) : h'.bytesAt r = h.bytesAt r := by
  rw [bytesAt, hv, bytesAt]

theorem Heap.bytesAt_modify {r : ℕ} (f : List UInt8 → List UInt8) (hr : r < h.vectors.length)
    (r' : ℕ) : (h.modify r f).bytesAt r' = if r = r' then f (h.bytesAt r') else h.bytesAt r' := by
  unfold bytesAt modify
  rw [List.getElem?_modify]
  split_ifs with heq
  · subst heq
    simp [hr]
  · simp

def Session.wrote (s : Session) (frames : List (List UInt8)) : Session :=
  { s with written := s.written ++ frames }

structure Ordinary (h : Heap) (m : NetMessage) : Prop where
  valid : ∀ r, m.dynamicData = some r → r < h.vectors.length
  size : 2 ≤ (m.bytes h).length ∧ (m.bytes h).length ≤ 65535
  id : Bytes.value ((m.bytes h).take 2) ≠ serverChallengeResponseId

theorem Heap.Alike.bytes (ha : h.Alike h') (m : NetMessage) :
    (m.bytes h').length = (m.bytes h).length ∧ (m.bytes h').take 2 = (m.bytes h).take 2 := by
  unfold NetMessage.bytes
  split
  · exact ⟨rfl, rfl⟩
  · next r _ => exact ⟨ha.size r, ha.id r⟩

theorem Ordinary.alike (hm : Ordinary h m) (ha : h.Alike h') : Ordinary h' m := by
  obtain ⟨hsize, hid⟩ := ha.bytes m
  exact ⟨fun r hr => ha.count ▸ hm.valid r hr, hsize ▸ hm.size, hid ▸ hm.id⟩

theorem Ordinary.grow (hm : Ordinary h m)
    (hbytes : ∀ r < h.vectors.length, h'.bytesAt r = h.bytesAt r)
    (hcount : h.vectors.length ≤ h'.vectors.length) : Ordinary h' m := by
  have hsame : m.bytes h' = m.bytes h := by
    unfold NetMessage.bytes
    split
    · rfl
    · next r hr => exact hbytes r (hm.valid r hr)
  exact ⟨fun r hr => (hm.valid r hr).trans_le hcount, hsame ▸ hm.size, hsame ▸ hm.id⟩

theorem Session.writeMessage_ordinary (box : Equiv.Perm UInt8) (hm : Ordinary h m) :
    ∃ h', s.writeMessage box h m = (h',
        s.wrote [Bytes.encode 2 (m.bytes h).length ++ encrypt s.pBox (m.bytes h)]) ∧
      h.Alike h' ∧ ∀ r, h'.bytesAt r =
        if m.dynamicData = some r then encrypt s.pBox (h.bytesAt r) else h.bytesAt r := by
  unfold writeMessage
  simp only [if_pos hm.id]
  rcases hd : m.dynamicData with _ | r
  · refine ⟨h, ?_, .refl h, fun r => by simp⟩
    simp [NetMessage.update, NetMessage.clear, NetMessage.bytes, wrote, hd]
  · have hmod := Heap.bytesAt_modify (encrypt s.pBox) (hm.valid r hd)
    refine ⟨(h.modify r (encrypt s.pBox)).release r, ?_, ⟨?_, fun r' => ?_, fun r' => ?_⟩,
      fun r' => ?_⟩
    · simp [NetMessage.update, NetMessage.clear, NetMessage.bytes, wrote, hd, hmod]
    · simp [Heap.modify, Heap.release]
    · show ((h.modify r _).bytesAt r').length = _
      rw [hmod]
      split_ifs <;> simp
    · show ((h.modify r _).bytesAt r').take 2 = _
      rw [hmod]
      split_ifs <;> simp
    · show (h.modify r _).bytesAt r' = _
      rw [hmod]
      simp

theorem Session.written_of_exchange (box : Equiv.Perm UInt8)
    (hid : Bytes.value ((m.bytes h).take 2) = serverChallengeResponseId) :
    (s.writeMessage box h m).2.written = s.written ++
      [Bytes.encode 2 ((m.bytes h).length + exchangeTimes * 2) ++
        (m.bytes h ++ List.ofFn (s.randoms s.exchanges))] := by
  have hclear : (m.clear h).2 = {} := by
    unfold NetMessage.clear
    split <;> rfl
  have hwrite : ∀ h₁, ({} : NetMessage).write h₁ (List.ofFn (s.randoms s.exchanges)) =
      (h₁, { staticData := List.ofFn (s.randoms s.exchanges) }) := fun h₁ =>
    if_pos ⟨rfl, by rw [List.length_ofFn]; decide⟩
  have hbytes : ∀ (h₁ : Heap) (d : List UInt8), ({ staticData := d } : NetMessage).bytes h₁ = d :=
    fun _ _ => rfl
  simp only [writeMessage, hid, ne_eq, not_true_eq_false, if_false, hclear, hwrite, hbytes,
    List.append_assoc]

def Framed (frame : List UInt8) : Prop :=
  ∃ body : List UInt8, frame = Bytes.encode 2 body.length ++ body ∧
    2 ≤ body.length ∧ body.length ≤ 65535

theorem Session.writeMessages_ordinary {q : List NetMessage} (box : Equiv.Perm UInt8)
    (rest : List NetMessage) (hq : ∀ m ∈ q, Ordinary h m) :
    ∃ h' frames, s.writeMessages box (q ++ rest) h =
        (s.wrote frames).writeMessages box rest h' ∧
      h.Alike h' ∧ (∀ frame ∈ frames, Framed frame) ∧
      ∀ r, (∀ m ∈ q, m.dynamicData ≠ some r) → h'.bytesAt r = h.bytesAt r := by
  induction q generalizing h s with
  | nil => exact ⟨h, [], by simp [wrote], .refl h, nofun, fun _ _ => rfl⟩
  | cons m q ih =>
    have hm := hq m (.head _)
    obtain ⟨h₁, hwrite, halike, hbytes⟩ := writeMessage_ordinary (s := s) box hm
    let frame := Bytes.encode 2 (m.bytes h).length ++ encrypt s.pBox (m.bytes h)
    obtain ⟨h₂, frames, hrun, halike', hframed, hkeep⟩ := ih (s := s.wrote [frame])
      fun x hx => (hq x (.tail _ hx)).alike halike
    refine ⟨h₂, frame :: frames, ?_, halike.trans halike', ?_, fun r hr => ?_⟩
    · have hsize := hm.size
      rw [List.cons_append, writeMessages, if_neg (by omega), if_neg (by omega), hwrite]
      simpa [wrote] using hrun
    · rintro frame (_ | ⟨_, hframe⟩)
      · exact ⟨encrypt s.pBox (m.bytes h), by rw [length_encrypt], by
          rw [length_encrypt]
          exact hm.size⟩
      · exact hframed frame hframe
    · rw [hkeep r fun x hx => hr x (.tail _ hx), hbytes, if_neg (hr m (.head _))]

end Writing

/-! ## What a peer receives -/

def Session.received (s : Session) : Option (List UInt8) :=
  s.written.getLast?.map fun frame =>
    decrypt s.pBox ((frame.drop 2).take (Bytes.value (frame.take 2)))

theorem length_received_frame {box : Equiv.Perm UInt8} {header : ℕ} {body : List UInt8} :
    (decrypt box (((Bytes.encode 2 header ++ body).drop 2).take
      (Bytes.value ((Bytes.encode 2 header ++ body).take 2)))).length =
      min (header % 65536) body.length := by
  rw [List.take_left' (Bytes.length_encode _ _), List.drop_left' (Bytes.length_encode _ _),
    Bytes.value_encode, length_decrypt, List.length_take]
  norm_num

theorem Session.received_of_frame {s : Session} {frames : List (List UInt8)}
    {bytes : List UInt8} (hsize : bytes.length ≤ 65535)
    (hs : s.written = frames ++ [Bytes.encode 2 bytes.length ++ encrypt s.pBox bytes]) :
    s.received = some bytes := by
  have hvalue : Bytes.value (Bytes.encode 2 bytes.length) = bytes.length :=
    Bytes.value_encode_of_lt (by norm_num; omega)
  rw [received, hs, List.getLast?_append_of_ne_nil _ (by simp)]
  have hbody : (encrypt s.pBox bytes).take bytes.length = encrypt s.pBox bytes :=
    List.take_of_length_le length_encrypt.le
  simp [hvalue, hbody, decrypt_encrypt]

namespace Sessions
variable {g g' : Sessions} {u v : UInt32} {m : NetMessage} {s : Session}

theorem post_session_of_ne (h : g.post v = some g') (hne : u ≠ v) : g'.session u = g.session u := by
  unfold post at h
  split at h
  · exact Option.some.inj h ▸ rfl
  · obtain ⟨⟨heap, s'⟩, -, h⟩ := Option.bind_eq_some_iff.mp h
    obtain rfl := Option.some.inj h
    exact Function.update_of_ne hne _ _

theorem exec_post_session {us : List UInt32} (h : Run.exec post g us = some g') (hu : u ∉ us) :
    g'.session u = g.session u := by
  induction us generalizing g with
  | nil => exact Option.some.inj h ▸ rfl
  | cons v us ih =>
    obtain ⟨g₁, hpost, hrun⟩ := Option.bind_eq_some_iff.mp h
    obtain ⟨hne, hus⟩ := not_or.mp (mt List.mem_cons.mpr hu)
    rw [ih hrun hus, post_session_of_ne hpost hne]

def Got (g : Sessions) (u : UInt32) (payload : List UInt8) : Prop :=
  ∃ s, g.session u = some s ∧ s.received = some payload

structure Pending (g : Sessions) (m : NetMessage) (u : UInt32) (s : Session)
    (q : List NetMessage) : Prop where
  session : g.session u = some s
  queue : s.messagesToBeSent = q ++ [m]
  ordinary : ∀ x ∈ q, Ordinary g.heap x
  apart : ∀ x ∈ q, ∀ r, m.dynamicData = some r → x.dynamicData ≠ some r

def afterWrite (m : NetMessage) (box : Equiv.Perm UInt8) (bytes : List UInt8) : List UInt8 :=
  if m.dynamicData = none then bytes else encrypt box bytes

theorem post_of_pending {q : List NetMessage} (hp : g.Pending m u s q) (hm : Ordinary g.heap m) :
    ∃ g', g.post u = some g' ∧ g'.globalBox = g.globalBox ∧ g'.Got u (m.bytes g.heap) ∧
      g.heap.Alike g'.heap ∧ m.bytes g'.heap = afterWrite m s.pBox (m.bytes g.heap) := by
  let t : Session := { s with written := [] }
  obtain ⟨h₁, frames, hrun, halike, -, hkeep⟩ :=
    t.writeMessages_ordinary g.globalBox [m] hp.ordinary
  have hsame : m.bytes h₁ = m.bytes g.heap := by
    unfold NetMessage.bytes
    split
    · rfl
    · next r hr => exact hkeep r fun x hx => hp.apart x hx r hr
  have hm₁ := hm.alike halike
  obtain ⟨h₂, hwrite, halike', hbytes⟩ :=
    (t.wrote frames).writeMessage_ordinary g.globalBox hm₁
  have hsize := hm₁.size
  let frame := Bytes.encode 2 (m.bytes h₁).length ++ encrypt s.pBox (m.bytes h₁)
  have hwrites : t.writeMessages g.globalBox s.messagesToBeSent g.heap =
      some (h₂, (t.wrote frames).wrote [frame]) := by
    rw [hp.queue, hrun, Session.writeMessages, if_neg (by omega), if_neg (by omega), hwrite]
    rfl
  refine ⟨{ g with
    heap := h₂
    session := Function.update g.session u
      (some { (t.wrote frames).wrote [frame] with messagesToBeSent := [] }) }, ?_, rfl, ?_, ?_, ?_⟩
  · rw [post, hp.session]
    show (t.writeMessages g.globalBox s.messagesToBeSent g.heap).bind _ = _
    rw [hwrites]
    rfl
  · refine ⟨_, Function.update_self _ _ _, ?_⟩
    rw [← hsame]
    exact Session.received_of_frame hsize.2 rfl
  · exact halike.trans halike'
  · rw [← hsame]
    unfold NetMessage.bytes afterWrite
    rcases hd : m.dynamicData with _ | r
    · rfl
    · show h₂.bytesAt r = encrypt s.pBox (h₁.bytesAt r)
      rw [hbytes, if_pos hd]
      rfl

theorem Pending.mono {q : List NetMessage} (hp : g.Pending m u s q)
    (hs : g'.session u = g.session u) (ha : g.heap.Alike g'.heap) : g'.Pending m u s q :=
  ⟨hs.trans hp.session, hp.queue, fun x hx => (hp.ordinary x hx).alike ha, hp.apart⟩

def table (g : Sessions) (u : UInt32) : Equiv.Perm UInt8 :=
  ((g.session u).map Session.pBox).getD (Equiv.refl _)

def EachGets (m : NetMessage) (payload : List UInt8) : List (Equiv.Perm UInt8) → List UInt8 → Prop
  | [], _ => True
  | box :: boxes, bytes => bytes = payload ∧ EachGets m payload boxes (afterWrite m box bytes)

theorem eachGets_iff {payload : List UInt8} (boxes : List (Equiv.Perm UInt8)) :
    EachGets m payload boxes payload ↔
      m.dynamicData = none ∨ ∀ box ∈ boxes.dropLast, ∀ x ∈ payload.drop 2, box x = x := by
  by_cases hd : m.dynamicData = none
  · simp only [hd, true_or, iff_true]
    induction boxes with
    | nil => trivial
    | cons box boxes ih => exact ⟨rfl, by rw [afterWrite, if_pos hd]; exact ih⟩
  · simp only [hd, false_or]
    induction boxes with
    | nil => simp [EachGets]
    | cons box boxes ih =>
      rcases boxes with _ | ⟨box', boxes⟩
      · simp [EachGets]
      · rw [List.dropLast_cons_of_ne_nil (by simp), List.forall_mem_cons, ← ih,
          ← encrypt_eq_self_iff]
        have hwrite : afterWrite m box payload = encrypt box payload := if_neg hd
        constructor
        · rintro ⟨-, heq, hrest⟩
          rw [hwrite] at heq hrest
          rw [heq] at hrest
          exact ⟨heq, rfl, hrest⟩
        · rintro ⟨heq, hrest⟩
          refine ⟨rfl, ?_⟩
          rw [hwrite, heq]
          exact hrest

theorem exec_post_of_pending {us : List UInt32} (payload : List UInt8) (hnodup : us.Nodup)
    (hp : ∀ u ∈ us, ∃ s q, g.Pending m u s q) (hm : Ordinary g.heap m) :
    ∃ g', Run.exec post g us = some g' ∧
      ((∀ u ∈ us, g'.Got u payload) ↔ EachGets m payload (us.map g.table) (m.bytes g.heap)) := by
  induction us generalizing g with
  | nil => exact ⟨g, rfl, by simp [EachGets]⟩
  | cons u us ih =>
    obtain ⟨hu, hus⟩ := List.nodup_cons.mp hnodup
    obtain ⟨s, q, hpu⟩ := hp u (.head _)
    obtain ⟨g₁, hpost, -, ⟨s₁, hs₁, hgot⟩, halike, hbytes⟩ := post_of_pending hpu hm
    have hsame : ∀ v ∈ us, g₁.session v = g.session v := fun v hv =>
      post_session_of_ne hpost fun heq => hu (heq ▸ hv)
    obtain ⟨g', hrun, hiff⟩ := ih (g := g₁) hus (fun v hv => by
      obtain ⟨t, q', hpv⟩ := hp v (.tail _ hv)
      exact ⟨t, q', hpv.mono (hsame v hv) halike⟩) (hm.alike halike)
    have htables : us.map g₁.table = us.map g.table := by
      apply List.map_congr_left
      intro v hv
      rw [table, table, hsame v hv]
    have htable : g.table u = s.pBox := by rw [table, hpu.session]; rfl
    have hgotu : g'.Got u payload ↔ m.bytes g.heap = payload := by
      rw [Got, exec_post_session hrun hu, hs₁]
      constructor
      · rintro ⟨_, ⟨⟩, hrec⟩
        exact Option.some.inj (hgot.symm.trans hrec)
      · rintro rfl
        exact ⟨s₁, rfl, hgot⟩
    refine ⟨g', by rw [Run.exec, hpost]; exact hrun, ?_⟩
    rw [List.forall_mem_cons, hgotu, hiff, htables, hbytes, List.map_cons, htable]
    rfl

end Sessions

/-! ## The reply on its way into the queues -/

section Handler
variable {h : Heap} {m : NetMessage} {g : Sessions}

def NetMessage.copied (m : NetMessage) : NetMessage :=
  match m.dynamicData with
  | none => { staticData := m.staticData }
  | some r => { dynamicData := some r }

@[simp] theorem NetMessage.copied_dynamicData : m.copied.dynamicData = m.dynamicData := by
  unfold copied
  split <;> simp_all

theorem NetMessage.bytes_copied : m.copied.bytes h = m.bytes h := by
  unfold copied bytes
  rcases hd : m.dynamicData with _ | r <;> rfl

theorem NetMessage.copy_eq : ∃ h', m.copy h = (h', m.copied) ∧ h'.vectors = h.vectors := by
  unfold copy copied
  rcases hd : m.dynamicData with _ | r
  · exact ⟨h, rfl, rfl⟩
  · exact ⟨h.retain r, rfl, rfl⟩

theorem NetMessage.vectors_clear : (m.clear h).1.vectors = h.vectors := by
  unfold clear
  split <;> rfl

theorem NetMessage.bytes_congr {h' : Heap} (hv : h'.vectors = h.vectors) :
    m.bytes h' = m.bytes h := by
  unfold bytes Heap.bytesAt
  rw [hv]

def Session.queued (s : Session) (m : NetMessage) : Session :=
  { s with messagesToBeSent := s.messagesToBeSent ++ [m] }

theorem Sessions.send_eq (m : NetMessage) (g : Sessions) (v : UInt32) :
    (send m g v).heap.vectors = g.heap.vectors ∧ ∀ u, (send m g v).session u =
      if u = v ∧ m.bytes g.heap ≠ [] then (g.session u).map (·.queued m.copied)
      else g.session u := by
  rcases hs : g.session v with _ | s
  · have hsend : send m g v = g := by simp [send, hs]
    rw [hsend]
    refine ⟨rfl, fun u => ?_⟩
    by_cases hu : u = v
    · simp [hu, hs]
    · simp [hu]
  · by_cases hb : m.bytes g.heap = []
    · have hsend : send m g v = g := by simp [send, hs, hb]
      simp [hsend, hb]
    · obtain ⟨h', hcopy, hvec⟩ := m.copy_eq (h := g.heap)
      simp only [send, hs, if_neg hb, hcopy]
      refine ⟨hvec, fun u => ?_⟩
      by_cases hu : u = v
      · subst hu
        simp [hs, hb, Session.queued]
      · simp [hu]

theorem Sessions.foldl_send {us : List UInt32} (hnodup : us.Nodup) :
    (us.foldl (send m) g).heap.vectors = g.heap.vectors ∧
      ∀ u, (us.foldl (send m) g).session u =
        if u ∈ us ∧ m.bytes g.heap ≠ [] then (g.session u).map (·.queued m.copied)
        else g.session u := by
  induction us generalizing g with
  | nil => simp
  | cons v us ih =>
    obtain ⟨hv, hus⟩ := List.nodup_cons.mp hnodup
    obtain ⟨hvec, hsess⟩ := send_eq m g v
    obtain ⟨hvec', hsess'⟩ := ih (g := send m g v) hus
    refine ⟨hvec'.trans hvec, fun u => ?_⟩
    rw [List.foldl_cons, hsess', NetMessage.bytes_congr hvec, hsess]
    by_cases hu : u = v
    · subst hu
      simp [hv]
    · simp [hu]

theorem Sessions.readUuids_data (us : List UInt32) (payload : List UInt8) :
    readUuids us.length (us.flatMap (fun u => Bytes.encode 4 u.toNat) ++ payload) = us := by
  induction us with
  | nil => rfl
  | cons u us ih =>
    have hu : Bytes.value (Bytes.encode 4 u.toNat) = u.toNat :=
      Bytes.value_encode_of_lt u.toNat_lt
    rw [List.length_cons, List.flatMap_cons, List.append_assoc, readUuids,
      List.take_left' (Bytes.length_encode _ _), List.drop_left' (Bytes.length_encode _ _), hu, ih]
    simp

theorem modify_append_singleton {α : Type*} (l : List α) (x : α) (f : α → α) :
    (l ++ [x]).modify l.length f = l ++ [f x] := by
  induction l with
  | nil => rfl
  | cons a l ih => exact congrArg (a :: ·) ih

theorem NetMessage.write_fresh (h : Heap) (payload : List UInt8) :
    ∃ h' m, ({} : NetMessage).write h payload = (h', m) ∧ m.bytes h' = payload ∧
      (∀ r < h.vectors.length, h'.bytesAt r = h.bytesAt r) ∧
      (∀ r, m.dynamicData = some r → r = h.vectors.length ∧ r < h'.vectors.length) ∧
      h.vectors.length ≤ h'.vectors.length ∧
      (m.dynamicData = none ↔ payload.length ≤ kDynamicThreshold) := by
  by_cases hsize : payload.length ≤ kDynamicThreshold
  · refine ⟨h, { staticData := payload }, ?_, rfl, fun _ _ => rfl, nofun, le_rfl, by simpa⟩
    rw [write, if_pos ⟨rfl, by simpa using hsize⟩]
    rfl
  · refine ⟨{ vectors := h.vectors ++ [payload],
              useCount := Function.update h.useCount h.vectors.length 1 },
      { dynamicData := some h.vectors.length }, ?_, ?_, fun r hr => ?_, ?_, by simp,
      by simpa using hsize⟩
    · rw [write, if_neg fun hc => hsize (by simpa using hc.2)]
      simp [setDynamic, Heap.make, Heap.modify, modify_append_singleton]
    · simp [bytes, Heap.bytesAt]
    · simp [Heap.bytesAt, List.getElem?_append_left hr]
    · rintro r ⟨⟩
      simp

end Handler

/-! ## The reply at its recipients -/

namespace Sessions
variable {g : Sessions} {r : Reply} {order : List UInt32}

/-- The recipients are online, each once, and wait for ordinary messages only. -/
structure Ready (g : Sessions) (r : Reply) : Prop where
  distinct : r.recipients.Nodup
  online : ∀ u ∈ r.recipients, ∃ s, g.session u = some s ∧
    ∀ m ∈ s.messagesToBeSent, Ordinary g.heap m

/-- The reply is passed on, the sessions write in some order, and each recipient with the
inverse of its own table obtains the payload. -/
def Delivered (g : Sessions) (r : Reply) (order : List UInt32) : Prop :=
  ∃ g₁ g₂, g.handlerInGateway r.data = some g₁ ∧ Run.exec post g₁ order = some g₂ ∧
    ∀ u ∈ r.recipients, g₂.Got u r.payload

theorem length_flatMap_encode (us : List UInt32) :
    (us.flatMap fun u => Bytes.encode 4 u.toNat).length = 4 * us.length := by
  induction us with
  | nil => rfl
  | cons u us ih =>
    rw [List.flatMap_cons, List.length_append, ih, Bytes.length_encode, List.length_cons]
    omega

/-- The state `handler_in_gateway` leaves: the message is the last one in the queue of
each recipient, unless it is empty. -/
theorem handlerInGateway_of_ready (hr : g.Ready r) :
    ∃ g₁ m, g.handlerInGateway r.data = some g₁ ∧ m.bytes g₁.heap = r.payload ∧
      (m.dynamicData = none ↔ r.payload.length ≤ kDynamicThreshold) ∧
      (∀ a, m.dynamicData = some a → a < g₁.heap.vectors.length) ∧
      ∀ u ∈ r.recipients, g₁.table u = g.table u ∧ ∃ s q, g₁.session u = some s ∧
        (∀ x ∈ q, Ordinary g₁.heap x) ∧
        (∀ x ∈ q, ∀ a, m.dynamicData = some a → x.dynamicData ≠ some a) ∧
        s.messagesToBeSent = if r.payload = [] then q else q ++ [m] := by
  obtain ⟨h', m, hwrite, hbytes, hold, hnew, hcount, hdyn⟩ := NetMessage.write_fresh g.heap r.payload
  obtain ⟨hvec, hsess⟩ := foldl_send (m := m) (g := { g with heap := h' }) hr.distinct
  have hcountLt := r.count_short
  have hvalue : Bytes.value (r.data.take 2) = r.recipients.length := by
    rw [Reply.data, List.take_left' (Bytes.length_encode _ _)]
    exact Bytes.value_encode_of_lt (by norm_num; omega)
  have hlen : r.data.length = 2 + 4 * r.recipients.length + r.payload.length := by
    rw [Reply.data, List.length_append, List.length_append, length_flatMap_encode,
      Bytes.length_encode]
    omega
  have hpayload : r.data.drop (2 + 4 * r.recipients.length) = r.payload := by
    rw [Reply.data, ← List.append_assoc]
    apply List.drop_left'
    rw [List.length_append, length_flatMap_encode, Bytes.length_encode]
  have huuids : readUuids r.recipients.length (r.data.drop 2) = r.recipients := by
    rw [Reply.data, List.drop_left' (Bytes.length_encode _ _)]
    exact readUuids_data _ _
  let g' := r.recipients.foldl (send m) { g with heap := h' }
  have hvec' : (m.clear g'.heap).1.vectors = h'.vectors := NetMessage.vectors_clear.trans hvec
  have hsize := r.size_short
  refine ⟨{ g' with heap := (m.clear g'.heap).1 }, m.copied, ?_, ?_, ?_, ?_, fun u hu => ?_⟩
  · rw [handlerInGateway, hvalue]
    dsimp only
    rw [if_neg (by omega), if_neg (by omega), hpayload, huuids, hwrite]
  · rw [NetMessage.bytes_copied, NetMessage.bytes_congr hvec', hbytes]
  · rwa [NetMessage.copied_dynamicData]
  · intro a ha
    rw [NetMessage.copied_dynamicData] at ha
    show a < (m.clear g'.heap).1.vectors.length
    rw [hvec']
    exact (hnew a ha).2
  · obtain ⟨s, hs, hq⟩ := hr.online u hu
    have hsu := hsess u
    dsimp only at hsu
    rw [hbytes, hs] at hsu
    have hord : ∀ x ∈ s.messagesToBeSent, Ordinary (m.clear g'.heap).1 x := fun x hx =>
      (hq x hx).grow (fun a ha => (Heap.bytesAt_congr hvec' a).trans (hold a ha)) (hvec' ▸ hcount)
    have hapart : ∀ x ∈ s.messagesToBeSent, ∀ a, m.copied.dynamicData = some a →
        x.dynamicData ≠ some a := fun x hx a ha hxa => by
      have hlt := (hq x hx).valid a hxa
      rw [NetMessage.copied_dynamicData] at ha
      exact absurd hlt (by rw [(hnew a ha).1]; exact lt_irrefl _)
    by_cases hp : r.payload = []
    · rw [if_neg fun hc => hc.2 hp] at hsu
      refine ⟨?_, s, s.messagesToBeSent, hsu, hord, hapart, (if_pos hp).symm⟩
      rw [table, table, hs]
      exact congrArg (fun o => (Option.map Session.pBox o).getD _) hsu
    · rw [if_pos ⟨hu, hp⟩] at hsu
      refine ⟨?_, s.queued m.copied, s.messagesToBeSent, hsu, hord, hapart, (if_neg hp).symm⟩
      have htable := congrArg (fun o => (Option.map Session.pBox o).getD (Equiv.refl UInt8)) hsu
      rw [table, table, hs]
      exact htable

theorem not_got_of_not_ordinary {g' : Sessions} {u : UInt32} {s : Session} {q : List NetMessage}
    {m : NetMessage} {payload : List UInt8} (hs : g.session u = some s)
    (hq : ∀ x ∈ q, Ordinary g.heap x)
    (hapart : ∀ x ∈ q, ∀ a, m.dynamicData = some a → x.dynamicData ≠ some a)
    (hqueue : s.messagesToBeSent = if payload = [] then q else q ++ [m])
    (hm : m.bytes g.heap = payload) (hsize : payload.length ≤ 65535)
    (hbad : ¬ (2 ≤ payload.length ∧ Bytes.value (payload.take 2) ≠ serverChallengeResponseId))
    (hpost : g.post u = some g') : ¬ g'.Got u payload := by
  let t : Session := { s with written := [] }
  obtain ⟨h₁, frames, hrun, -, hframed, hkeep⟩ :=
    t.writeMessages_ordinary g.globalBox (if payload = [] then [] else [m]) hq
  have hsame : m.bytes h₁ = payload := by
    rw [← hm]
    unfold NetMessage.bytes
    split
    · rfl
    · next a ha => exact hkeep a fun x hx => hapart x hx a ha
  have hmsgs : s.messagesToBeSent = q ++ if payload = [] then [] else [m] := by
    rw [hqueue]
    split_ifs <;> simp
  rw [post, hs] at hpost
  obtain ⟨⟨heap, s'⟩, hwrite, hpost⟩ := Option.bind_eq_some_iff.mp hpost
  obtain rfl := Option.some.inj hpost
  rintro ⟨s₂, hs₂, hrec⟩
  have hself : some { s' with messagesToBeSent := [] } = some s₂ :=
    (Function.update_self u _ g.session).symm.trans hs₂
  obtain rfl := Option.some.inj hself
  have hwrite' : (t.wrote frames).writeMessages g.globalBox
      (if payload = [] then [] else [m]) h₁ = some (heap, s') := by
    rw [← hrun, ← hmsgs]
    exact hwrite
  have hlen : ∀ frame ∈ s'.written.getLast?, payload.length = (decrypt s'.pBox
      ((frame.drop 2).take (Bytes.value (frame.take 2)))).length := by
    intro frame hframe
    rw [Session.received, hframe] at hrec
    rw [← Option.some.inj hrec]
  by_cases hp : payload = []
  · -- nothing was queued: every frame there is has at least an id
    rw [if_pos hp] at hwrite'
    obtain ⟨rfl, rfl⟩ := Prod.mk.inj (Option.some.inj hwrite')
    rcases hlast : (t.wrote frames).written.getLast? with _ | frame
    · rw [Session.received, hlast] at hrec
      cases hrec
    · obtain ⟨body, rfl, hbody, hbody'⟩ := hframed frame (by
        have := List.mem_of_getLast? hlast
        simpa [Session.wrote, t] using this)
      have := hlen _ hlast
      rw [length_received_frame, hp, List.length_nil] at this
      omega
  · rw [if_neg hp, Session.writeMessages, hsame] at hwrite'
    split_ifs at hwrite' with hshort hlong
    · omega
    have hid : Bytes.value ((m.bytes h₁).take 2) = serverChallengeResponseId := by
      rw [hsame]
      by_contra hid
      exact hbad ⟨by omega, hid⟩
    have hframe := (t.wrote frames).written_of_exchange g.globalBox hid
    have hs' : ((t.wrote frames).writeMessage g.globalBox h₁ m).2 = s' :=
      congrArg Prod.snd (Option.some.inj hwrite')
    rw [hs'] at hframe
    have := hlen _ (by rw [hframe]; exact List.getLast?_concat)
    rw [length_received_frame, List.length_append, hsame, List.length_ofFn] at this
    simp only [exchangeTimes] at this
    omega

theorem delivered_iff_of_ordinary (hr : g.Ready r) (horder : order.Perm r.recipients)
    (hgood : 2 ≤ r.payload.length ∧
      Bytes.value (r.payload.take 2) ≠ serverChallengeResponseId) :
    g.Delivered r order ↔ r.payload.length ≤ kDynamicThreshold ∨
      ∀ box ∈ (order.map g.table).dropLast, ∀ x ∈ r.payload.drop 2, box x = x := by
  obtain ⟨g₁, m, hhandler, hbytes, hdyn, hvalid, hqueues⟩ := handlerInGateway_of_ready hr
  have hne : r.payload ≠ [] := fun h => by simp [h] at hgood
  have hm : Ordinary g₁.heap m :=
    ⟨hvalid, by rw [hbytes]; exact ⟨hgood.1, r.size_short⟩, by rw [hbytes]; exact hgood.2⟩
  have hpending : ∀ u ∈ order, ∃ s q, g₁.Pending m u s q := fun u hu => by
    obtain ⟨-, s, q, hs, hord, hapart, hmsgs⟩ := hqueues u (horder.subset hu)
    exact ⟨s, q, hs, hmsgs.trans (if_neg hne), hord, hapart⟩
  obtain ⟨g₂, hrun, hiff⟩ :=
    exec_post_of_pending r.payload (horder.nodup_iff.mpr hr.distinct) hpending hm
  have htables : order.map g₁.table = order.map g.table :=
    List.map_congr_left fun u hu => (hqueues u (horder.subset hu)).1
  rw [hbytes, htables, eachGets_iff, hdyn] at hiff
  rw [← hiff]
  constructor
  · rintro ⟨g₁', g₂', hhandler', hrun', hgot⟩ u hu
    obtain rfl := Option.some.inj (hhandler.symm.trans hhandler')
    obtain rfl := Option.some.inj (hrun.symm.trans hrun')
    exact hgot u (horder.subset hu)
  · exact fun hgot => ⟨g₁, g₂, hhandler, hrun, fun u hu => hgot u (horder.symm.subset hu)⟩

theorem not_delivered_of_not_ordinary (hr : g.Ready r) (horder : order.Perm r.recipients)
    (hne : r.recipients ≠ [])
    (hbad : ¬ (2 ≤ r.payload.length ∧
      Bytes.value (r.payload.take 2) ≠ serverChallengeResponseId)) :
    ¬ g.Delivered r order := by
  obtain ⟨g₁, m, hhandler, hbytes, -, -, hqueues⟩ := handlerInGateway_of_ready hr
  rintro ⟨g₁', g₂, hhandler', hrun, hgot⟩
  obtain rfl := Option.some.inj (hhandler.symm.trans hhandler')
  rcases order with _ | ⟨u, us⟩
  · exact hne (List.nil_perm.mp horder)
  · -- the first recipient to write is lost already
    obtain ⟨g₁', hpost, hrest⟩ := Option.bind_eq_some_iff.mp hrun
    have hu := (List.nodup_cons.mp (horder.nodup_iff.mpr hr.distinct)).1
    obtain ⟨-, s, q, hs, hord, hapart, hmsgs⟩ := hqueues u (horder.subset (.head _))
    apply not_got_of_not_ordinary hs hord hapart hmsgs hbytes r.size_short hbad hpost
    obtain ⟨s', hs', hrec⟩ := hgot u (horder.subset (.head _))
    exact ⟨s', (exec_post_session hrest hu).symm.trans hs', hrec⟩

/-- The recipients all obtain the payload if and only if there is none of them, or the
payload has an id other than that of the key exchange and is short or is not changed by the
tables of those that write before the last one. -/
theorem delivered_iff (hr : g.Ready r) (horder : order.Perm r.recipients) :
    g.Delivered r order ↔ r.recipients = [] ∨
      (2 ≤ r.payload.length ∧ Bytes.value (r.payload.take 2) ≠ serverChallengeResponseId) ∧
        (r.payload.length ≤ kDynamicThreshold ∨
          ∀ box ∈ (order.map g.table).dropLast, ∀ x ∈ r.payload.drop 2, box x = x) := by
  by_cases hnil : r.recipients = []
  · obtain ⟨g₁, m, hhandler, -⟩ := handlerInGateway_of_ready hr
    have horder' : order = [] := List.perm_nil.mp (hnil ▸ horder)
    exact iff_of_true ⟨g₁, g₁, hhandler, by rw [horder']; rfl, by simp [hnil]⟩ (.inl hnil)
  rw [or_iff_right hnil]
  by_cases hgood : 2 ≤ r.payload.length ∧
      Bytes.value (r.payload.take 2) ≠ serverChallengeResponseId
  · rw [and_iff_right hgood]
    exact delivered_iff_of_ordinary hr horder hgood
  · exact iff_of_false (not_delivered_of_not_ordinary hr horder hnil hgood) fun h => hgood h.1

def twoPlayers : Sessions where
  globalBox := Equiv.refl _
  session u := if u = 1 ∨ u = 2 then some { pBox := Equiv.swap 5 6, randoms := fun _ _ => 0 }
    else none

theorem ready_twoPlayers (h : r.recipients = [1, 2]) : twoPlayers.Ready r := by
  refine ⟨by rw [h]; decide, fun u hu => ?_⟩
  have hor : u = 1 ∨ u = 2 := by simpa [h] using hu
  exact ⟨_, if_pos hor, nofun⟩

def replyOf (n : ℕ) (hn : n ≤ 65533) : Reply where
  recipients := [1, 2]
  payload := 0xe9 :: 0x03 :: List.replicate n 5
  count_short := by decide
  size_short := by
    rw [List.length_cons, List.length_cons, List.length_replicate]
    omega

theorem length_replyOf (n : ℕ) (hn : n ≤ 65533) : (replyOf n hn).payload.length = n + 2 := by
  simp [replyOf]

theorem delivered_short : twoPlayers.Delivered (replyOf 1 (by decide)) [2, 1] :=
  (delivered_iff (ready_twoPlayers rfl) (by decide)).mpr
    (.inr ⟨⟨by decide, by decide⟩, .inl (by decide)⟩)

/-- A message of 129 bytes is encrypted with the first player's table before the second
player's session encrypts it. -/
theorem not_delivered_long : ¬ twoPlayers.Delivered (replyOf 127 (by decide)) [1, 2] := by
  intro h
  rcases (delivered_iff_of_ordinary (ready_twoPlayers (by rfl)) (by exact .refl _)
    ⟨by rw [length_replyOf]; decide, by decide⟩).mp h with hshort | hfix
  · rw [length_replyOf] at hshort
    exact absurd hshort (by decide)
  · exact absurd (hfix (Equiv.swap 5 6) (.head _) 5 (.head _)) (by decide)

end Sessions

end IceBridge.Gateway
