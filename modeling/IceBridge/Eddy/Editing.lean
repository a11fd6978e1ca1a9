import IceBridge.Eddy.Storage
import IceBridge.Lib.Overlap

/-! `insert` and `setBytes` write bytes where they are: within the array of a short message, where
`insert` makes room from the front to the back, and in a vector whoever else holds it. -/

namespace IceBridge.Eddy
open Gateway (Heap kDynamicThreshold)

/-! ## The functions -/

def StaticData.copyWithin (d : StaticData) (source dest count : ℕ) : Option StaticData :=
  if source + count ≤ kDynamicThreshold ∧ dest + count ≤ kDynamicThreshold then
    some ⟨Overlap.copy d.bytes source dest count, (Overlap.length_copy ..).trans d.length_eq⟩
  else none

structure Source where
  buffer : List UInt8
  first : ℕ
  last : ℕ
  within : first ≤ buffer.length ∧ last ≤ buffer.length

def Source.range (s : Source) : List UInt8 :=
  (s.buffer.drop (min s.first s.last)).take (max s.first s.last - min s.first s.last)

def insertAt (position : ℕ) (range bytes : List UInt8) : List UInt8 :=
  bytes.take position ++ (range ++ bytes.drop position)

def overwrite (data bytes : List UInt8) : List UInt8 := data ++ bytes.drop data.length

def countToSet (length : Int) (size : ℕ) : ℕ := min (min length.toNat size) kDynamicThreshold

namespace NetMessage

/-- `position` is counted from `begin()`; one within a vector is not one within `static_data_`. -/
def insert (h : Heap) (m : NetMessage) (position : ℕ) (source : Source) :
    Option (Heap × NetMessage) :=
  -- the assertion at the start, which compares with `static_data_` only
  if position = m.size h ∨ m.dynamicData = none ∧ position < m.staticSize then
    let (first, last) :=
      if source.last < source.first then (source.last, source.first)
      else (source.first, source.last)
    let n := last - first
    let range := (source.buffer.drop first).take n
    if m.size h ≤ position then m.write h range
    else
      match m.dynamicData with
      | none =>
        if n + m.staticSize ≤ kDynamicThreshold then do
          let d ← m.staticData.copyWithin position (position + n) (m.staticSize - position)
          let d ← d.copy position range
          some (h, { m with staticSize := m.staticSize + n, staticData := d })
        else do
          let (h, m) ← m.setDynamic h
          m.dynamicData.map fun r => (h.modify r (insertAt position range), m)
      -- what the code has here for a vector no longer passes the assertion
      | some r => some (h.modify r (insertAt position range), m)
  else none

def setBytes (h : Heap) (m : NetMessage) (length : Int) (buff : List UInt8) :
    Option (Heap × NetMessage) :=
  if length < 0 then none
  else
    let length := if m.size h < length.toNat then m.size h else length.toNat
    let length := if kDynamicThreshold < length then kDynamicThreshold else length
    if buff.length < length then none
    else
      match m.dynamicData with
      | none => (m.staticData.copy 0 (buff.take length)).map fun d =>
          (h, { m with staticData := d })
      -- `Write` would first ask whether the vector is held by others too
      | some r => some (h.modify r (overwrite (buff.take length)), m)

end NetMessage

inductive Edit
  | insert (position : ℕ) (source : Source)
  | setBytes (length : Int) (buff : List UInt8)

namespace Edit

def apply (h : Heap) (m : NetMessage) : Edit → Option (Heap × NetMessage)
  | insert position source => m.insert h position source
  | setBytes length buff => m.setBytes h length buff

def Inside (size : ℕ) : Edit → Prop
  | insert position _ => position ≤ size
  | setBytes length buff => countToSet length size ≤ buff.length

theorem inside_setBytes {length : Int} {buff : List UInt8} (h : length.toNat ≤ buff.length)
    (size : ℕ) : (setBytes length buff).Inside size :=
  ((min_le_left _ _).trans (min_le_left _ _)).trans h

def result (bytes : List UInt8) : Edit → List UInt8
  | insert position source => insertAt position source.range bytes
  | setBytes length buff => overwrite (buff.take (countToSet length bytes.length)) bytes

end Edit

namespace Messages
variable {ι : Type} [DecidableEq ι]

def edit (x : Messages ι) (i : ι) (e : Edit) : Option (Messages ι) :=
  (x.objects i).bind fun m => (e.apply x.heap m).map fun (h, m) => x.put i h m

/-- The edit changes the bytes of the message as it should, and no other message. -/
def Edited (x : Messages ι) (i : ι) (e : Edit) : Prop :=
  ∃ m t, x.objects i = some m ∧ x.edit i e = some t ∧
    contents t = Function.update (contents x) i (some (e.result (m.bytes x.heap)))

/-- An insertion is at the end, or into a message without a vector that gets one by it or whose
bytes after the position repeat themselves after the length of the range, as they do when they are
not longer. Bytes are set for a length that is not negative, and are those that are there already,
or no other message has the vector. -/
def Admits (x : Messages ι) (i : ι) (m : NetMessage) : Edit → Prop
  | .insert position source =>
    position = m.size x.heap ∨ m.dynamicData = none ∧
      (kDynamicThreshold < m.size x.heap + source.range.length ∨
        ((m.bytes x.heap).drop position).drop source.range.length <+:
          (m.bytes x.heap).drop position)
  | .setBytes length buff => 0 ≤ length ∧
    (buff.take (countToSet length (m.size x.heap)) =
        (m.bytes x.heap).take (countToSet length (m.size x.heap)) ∨
      ∀ r, m.dynamicData = some r → ∀ j ≠ i, x.refs j ≠ some r)

end Messages

/-! ## Within the array -/

theorem Source.length_range (s : Source) :
    s.range.length = max s.first s.last - min s.first s.last := by
  have hwithin := s.within
  rw [range, List.length_take, List.length_drop]
  omega

theorem NetMessage.insert_eq (h : Heap) (m : NetMessage) (position : ℕ) (source : Source) :
    m.insert h position source =
      if position = m.size h ∨ m.dynamicData = none ∧ position < m.staticSize then
        if m.size h ≤ position then m.write h source.range
        else
          match m.dynamicData with
          | none =>
            if source.range.length + m.staticSize ≤ kDynamicThreshold then do
              let d ← m.staticData.copyWithin position (position + source.range.length)
                (m.staticSize - position)
              let d ← d.copy position source.range
              some (h, { m with
                staticSize := m.staticSize + source.range.length
                staticData := d })
            else do
              let (h, m) ← m.setDynamic h
              m.dynamicData.map fun r => (h.modify r (insertAt position source.range), m)
          | some r => some (h.modify r (insertAt position source.range), m)
      else none := by
  rw [source.length_range, Source.range]
  unfold NetMessage.insert
  by_cases horder : source.last < source.first
  · rw [if_pos horder, Nat.min_eq_right horder.le, Nat.max_eq_left horder.le]
  · rw [if_neg horder, Nat.min_eq_left (not_lt.mp horder), Nat.max_eq_right (not_lt.mp horder)]

theorem NetMessage.setBytes_eq (h : Heap) (m : NetMessage) (length : Int) (buff : List UInt8) :
    m.setBytes h length buff =
      if length < 0 then none
      else if buff.length < countToSet length (m.size h) then none
      else
        match m.dynamicData with
        | none => (m.staticData.copy 0 (buff.take (countToSet length (m.size h)))).map fun d =>
            (h, { m with staticData := d })
        | some r =>
          some (h.modify r (overwrite (buff.take (countToSet length (m.size h)))), m) := by
  have hmin : (if m.size h < length.toNat then m.size h else length.toNat) =
      min length.toNat (m.size h) := by
    split_ifs <;> omega
  have hcount : (if kDynamicThreshold < min length.toNat (m.size h) then kDynamicThreshold
      else min length.toNat (m.size h)) = countToSet length (m.size h) := by
    unfold countToSet
    split_ifs <;> omega
  unfold NetMessage.setBytes
  dsimp only
  rw [hmin, hcount]

/-- What `insert` makes of the array: the tail is where it should be, but not always as it was. -/
theorem StaticData.shift_eq (d : StaticData) {size position : ℕ} {range : List UInt8}
    (hposition : position ≤ size) (hfits : range.length + size ≤ kDynamicThreshold) :
    ∃ d' d'', d.copyWithin position (position + range.length) (size - position) = some d' ∧
      d'.copy position range = some d'' ∧
      d''.bytes.take (size + range.length) = d.bytes.take position ++ (range ++
        ((Overlap.copy d.bytes position (position + range.length) (size - position)).drop
          (position + range.length)).take (size - position)) := by
  have hlength : (Overlap.copy d.bytes position (position + range.length)
      (size - position)).length = kDynamicThreshold := (Overlap.length_copy ..).trans d.length_eq
  refine ⟨_, _, if_pos (by omega), dif_pos (by omega), ?_⟩
  have hprefix : (d.bytes.take position).length = position := by
    rw [List.length_take, d.length_eq]
    omega
  have hcount : size + range.length =
      (d.bytes.take position).length + (range.length + (size - position)) := by omega
  show ((Overlap.copy d.bytes position (position + range.length) (size - position)).take position ++
    (range ++ _)).take _ = _
  rw [Overlap.take_copy_of_le _ _ _ _ (Nat.le_add_right position range.length), hcount,
    List.take_length_add_append, List.take_length_add_append]

theorem StaticData.overwrite_eq (d : StaticData) {data : List UInt8}
    (hfits : data.length ≤ kDynamicThreshold) : ∃ d', d.copy 0 data = some d' ∧
      ∀ size, data.length ≤ size → d'.bytes.take size = overwrite data (d.bytes.take size) := by
  refine ⟨_, dif_pos ((Nat.zero_add _).trans_le hfits), fun size hsize => ?_⟩
  obtain ⟨more, rfl⟩ := Nat.exists_eq_add_of_le hsize
  show (d.bytes.take 0 ++ (data ++ d.bytes.drop (0 + data.length))).take _ = _
  rw [List.take_zero, List.nil_append, Nat.zero_add, List.take_length_add_append, overwrite,
    List.drop_take, Nat.add_sub_cancel_left]

theorem overwrite_eq_self_iff {data bytes : List UInt8} :
    overwrite data bytes = bytes ↔ data = bytes.take data.length := by
  constructor
  · intro h
    calc data = (overwrite data bytes).take data.length := List.take_left.symm
      _ = bytes.take data.length := by rw [h]
  · intro h
    rw [overwrite]
    nth_rewrite 1 [h]
    exact List.take_append_drop data.length bytes

/-! ## An edit of one message among many -/

namespace Messages
variable {ι : Type} [DecidableEq ι] {x : Messages ι} {i : ι} {m : NetMessage} {e : Edit}

theorem not_edited_of_none (hi : x.objects i = some m) (he : e.apply x.heap m = none) :
    ¬ x.Edited i e := by
  rintro ⟨m', t, hm', ht, -⟩
  rw [edit, hi, Option.bind_some, he] at ht
  cases ht

section
variable [Fintype ι]

theorem edited_iff_of_yields (hx : Sound x) (hi : x.objects i = some m) {h' : Heap}
    {m' : NetMessage} {bytes : List UInt8} (he : e.apply x.heap m = some (h', m'))
    (hy : Yields x i h' m' bytes) : x.Edited i e ↔ bytes = e.result (m.bytes x.heap) := by
  have hedit : x.edit i e = some (x.put i h' m') := by
    rw [edit, hi, Option.bind_some, he]
    rfl
  have hcontents := (hy.put hx).2
  constructor
  · rintro ⟨m₀, t, hm₀, ht, h⟩
    obtain rfl := Option.some.inj (hi.symm.trans hm₀)
    obtain rfl := Option.some.inj (hedit.symm.trans ht)
    have hhere := congrFun (hcontents.symm.trans h) i
    rw [Function.update_self, Function.update_self] at hhere
    exact Option.some.inj hhere
  · rintro rfl
    exact ⟨m, _, hi, hedit, hcontents⟩

theorem yields_insert_shift (hx : Sound x) (hi : x.objects i = some m) {position : ℕ}
    {source : Source} (hd : m.dynamicData = none) (hlt : position < m.staticSize)
    (hfits : source.range.length + m.staticSize ≤ kDynamicThreshold) :
    ∃ h' m', (Edit.insert position source).apply x.heap m = some (h', m') ∧
      Yields x i h' m' ((m.bytes x.heap).take position ++ (source.range ++
        ((Overlap.copy m.staticData.bytes position (position + source.range.length)
          (m.staticSize - position)).drop (position + source.range.length)).take
            (m.staticSize - position))) := by
  obtain ⟨hrefs, -⟩ := hx.fits hi
  obtain ⟨d, d', hshift, hcopy, htake⟩ := m.staticData.shift_eq hlt.le hfits
  have hfits' : m.staticSize + source.range.length ≤ kDynamicThreshold := by omega
  have hy := @yields_same ι _ _ x { m with
    staticSize := m.staticSize + source.range.length
    staticData := d' } i hx hrefs fun _ => hfits'
  have hhead : (m.bytes x.heap).take position = m.staticData.bytes.take position := by
    rw [NetMessage.bytes, hd, List.take_take, Nat.min_eq_left hlt.le]
  refine ⟨x.heap, { m with
    staticSize := m.staticSize + source.range.length
    staticData := d' }, ?_, ?_⟩
  · rw [Edit.apply, NetMessage.insert_eq, if_pos (Or.inr ⟨hd, hlt⟩)]
    simp only [NetMessage.size, hd, if_neg (not_le.mpr hlt), if_pos hfits, hshift, hcopy,
      Option.bind_eq_bind, Option.bind_some]
  · rw [hhead, ← htake]
    simpa only [NetMessage.bytes, hd] using hy

theorem edited_insert_shift_iff (hx : Sound x) (hi : x.objects i = some m) {position : ℕ}
    {source : Source} (hd : m.dynamicData = none) (hlt : position < m.staticSize)
    (hfits : source.range.length + m.staticSize ≤ kDynamicThreshold) :
    x.Edited i (.insert position source) ↔
      ((m.bytes x.heap).drop position).drop source.range.length <+:
        (m.bytes x.heap).drop position := by
  obtain ⟨h', m', happly, hy⟩ := yields_insert_shift hx hi hd hlt hfits
  have htail : (m.bytes x.heap).drop position =
      (m.staticData.bytes.drop position).take (m.staticSize - position) := by
    rw [NetMessage.bytes, hd, List.drop_take]
  have hin : position + source.range.length + (m.staticSize - position) ≤
      m.staticData.bytes.length := by
    rw [m.staticData.length_eq]
    omega
  rw [edited_iff_of_yields hx hi happly hy]
  show _ = insertAt position source.range (m.bytes x.heap) ↔ _
  rw [insertAt, List.append_cancel_left_eq, List.append_cancel_left_eq, htail]
  exact Overlap.section_iff _ _ _ _ hin

theorem yields_insert_setDynamic (hx : Sound x) (hi : x.objects i = some m) {position : ℕ}
    {source : Source} (hd : m.dynamicData = none) (hlt : position < m.staticSize)
    (hlong : ¬ source.range.length + m.staticSize ≤ kDynamicThreshold) :
    ∃ h' m', (Edit.insert position source).apply x.heap m = some (h', m') ∧
      Yields x i h' m' (insertAt position source.range (m.bytes x.heap)) := by
  obtain ⟨hrefs, hsmall⟩ := hx.fits hi
  obtain ⟨h', m', hset, -, hy⟩ := yields_setDynamic hx hrefs hsmall
  have hnew : m'.dynamicData = some x.heap.vectors.length := by
    have hrange : m.staticRange = some (m.bytes x.heap) := by
      rw [NetMessage.staticRange, if_pos (hsmall hd), NetMessage.bytes, hd]
    rw [NetMessage.setDynamic, hd, hrange] at hset
    obtain ⟨-, rfl⟩ := Prod.mk.inj (Option.some.inj hset)
    rfl
  have hx' := (hy.put hx).1
  have hrefs' : (x.put i h' m').refs i = m'.dynamicData := by
    rw [refs_put, Function.update_self]
  have halone : ∀ j ≠ i, (x.put i h' m').refs j ≠ some x.heap.vectors.length := by
    intro j hji hj
    rw [refs_put, Function.update_of_ne hji] at hj
    exact Nat.lt_irrefl _ (hx.counts.valid j _ hj)
  have hinsert := yields_modify hx' hrefs' hnew halone (insertAt position source.range)
  have hbytes : m'.bytes (x.put i h' m').heap = m.bytes x.heap := hy.bytes_eq
  rw [hbytes] at hinsert
  refine ⟨_, _, ?_, hy.trans hinsert⟩
  rw [Edit.apply, NetMessage.insert_eq, if_pos (Or.inr ⟨hd, hlt⟩)]
  simp only [NetMessage.size, hd, if_neg (not_le.mpr hlt), if_neg hlong, hset,
    Option.bind_eq_bind, Option.bind_some, hnew, Option.map_some]
  rfl

theorem yields_insert_end (hx : Sound x) (hi : x.objects i = some m) {position : ℕ}
    {source : Source} (hend : position = m.size x.heap) :
    ∃ h' m', (Edit.insert position source).apply x.heap m = some (h', m') ∧
      Yields x i h' m' (insertAt position source.range (m.bytes x.heap)) := by
  obtain ⟨hrefs, hsmall⟩ := hx.fits hi
  obtain ⟨h', m', hwrite, hy⟩ := yields_write hx hrefs hsmall source.range
  have hbytes : insertAt position source.range (m.bytes x.heap) =
      m.bytes x.heap ++ source.range := by
    rw [insertAt, hend, hx.size_eq hi, List.take_length, List.drop_length, List.append_nil]
  refine ⟨h', m', ?_, hbytes ▸ hy⟩
  rw [Edit.apply, NetMessage.insert_eq, if_pos (Or.inl hend), if_pos hend.ge, hwrite]

omit [DecidableEq ι] [Fintype ι] in
theorem apply_insert_of_dynamic {position : ℕ} {source : Source} {r : ℕ}
    (hd : m.dynamicData = some r) (hend : position ≠ m.size x.heap) :
    (Edit.insert position source).apply x.heap m = none := by
  rw [Edit.apply, NetMessage.insert_eq, if_neg (by simp [hend, hd])]

theorem edited_insert_iff (hx : Sound x) (hi : x.objects i = some m) {position : ℕ}
    (source : Source) (hposition : position ≤ m.size x.heap) :
    x.Edited i (.insert position source) ↔ x.Admits i m (.insert position source) := by
  by_cases hend : position = m.size x.heap
  · obtain ⟨h', m', happly, hy⟩ := @yields_insert_end ι _ x i m _ hx hi position source hend
    exact iff_of_true ((edited_iff_of_yields hx hi happly hy).mpr rfl) (Or.inl hend)
  show _ ↔ position = m.size x.heap ∨ m.dynamicData = none ∧ _
  rw [or_iff_right hend]
  cases hd : m.dynamicData with
  | some r =>
    have hnone := not_edited_of_none hi (@apply_insert_of_dynamic ι x m position source r hd hend)
    exact iff_of_false hnone fun h => absurd h.1 (Option.some_ne_none r)
  | none =>
    have hstatic : m.size x.heap = m.staticSize := by rw [NetMessage.size, hd]
    have hlt : position < m.staticSize := by omega
    rw [and_iff_right rfl, hstatic]
    by_cases hfits : source.range.length + m.staticSize ≤ kDynamicThreshold
    · rw [or_iff_right (by omega)]
      exact edited_insert_shift_iff hx hi hd hlt hfits
    · obtain ⟨h', m', happly, hy⟩ := yields_insert_setDynamic hx hi hd hlt hfits
      exact iff_of_true ((edited_iff_of_yields hx hi happly hy).mpr rfl) (Or.inl (by omega))

omit [DecidableEq ι] [Fintype ι] in
theorem contents_of_refs {r : ℕ} {j : ι} (hj : x.refs j = some r) :
    contents x j = some (x.heap.bytesAt r) := by
  obtain ⟨m', hm', hd⟩ := Option.bind_eq_some_iff.mp hj
  rw [contents_of_some hm', NetMessage.bytes, hd]

theorem contents_modify (hx : Sound x) (hi : x.objects i = some m) {r : ℕ}
    (hd : m.dynamicData = some r) (f : List UInt8 → List UInt8) (j : ι) :
    contents (x.put i (x.heap.modify r f) m) j =
      if x.refs j = some r then some (f (x.heap.bytesAt r)) else contents x j := by
  have hvalid := hx.counts.valid i r ((refs_of_some hi).trans hd)
  have hobjects : (x.put i (x.heap.modify r f) m).objects = x.objects := by
    show Function.update x.objects i (some m) = x.objects
    rw [← hi, Function.update_eq_self]
  rw [contents, contents, refs, hobjects]
  cases x.objects j with
  | none => rfl
  | some m' =>
    show some (m'.bytes (x.heap.modify r f)) = if m'.dynamicData = some r then _ else some _
    unfold NetMessage.bytes
    cases m'.dynamicData with
    | none => rfl
    | some r' =>
      simp only [Gateway.Heap.bytesAt_modify f hvalid, Option.some.injEq, eq_comm]
      split_ifs with hr
      · rw [hr]
      · rfl

/-- Bytes are set in a vector for no other message exactly when they are there or no other message
holds the vector. -/
theorem edited_modify_iff (hx : Sound x) (hi : x.objects i = some m) {r : ℕ} {data : List UInt8}
    (hd : m.dynamicData = some r)
    (he : e.apply x.heap m = some (x.heap.modify r (overwrite data), m))
    (hresult : e.result (m.bytes x.heap) = overwrite data (m.bytes x.heap)) :
    x.Edited i e ↔ data = (m.bytes x.heap).take data.length ∨ ∀ j ≠ i, x.refs j ≠ some r := by
  have hbytes : m.bytes x.heap = x.heap.bytesAt r := by rw [NetMessage.bytes, hd]
  have hrefs : x.refs i = some r := (refs_of_some hi).trans hd
  have hcontents := contents_modify hx hi hd (overwrite data)
  have hedit : x.edit i e = some (x.put i (x.heap.modify r (overwrite data)) m) := by
    rw [edit, hi, Option.bind_some, he]
    rfl
  rw [← overwrite_eq_self_iff, hbytes]
  constructor
  · rintro ⟨m₀, t, hm₀, ht, h⟩
    obtain rfl := Option.some.inj (hi.symm.trans hm₀)
    obtain rfl := Option.some.inj (hedit.symm.trans ht)
    by_contra hneither
    obtain ⟨hnew, hshared⟩ := not_or.mp hneither
    refine hshared fun j hji hj => hnew ?_
    have hother := congrFun h j
    rw [hcontents, if_pos hj, Function.update_of_ne hji, contents_of_refs hj] at hother
    exact Option.some.inj hother
  · intro h
    refine ⟨m, _, hi, hedit, funext fun j => ?_⟩
    rw [hcontents, hresult, hbytes]
    by_cases hji : j = i
    · rw [hji, if_pos hrefs, Function.update_self]
    rw [Function.update_of_ne hji]
    split_ifs with hj
    · obtain h | h := h
      · rw [h, contents_of_refs hj]
      · exact absurd hj (h j hji)
    · rfl

omit [DecidableEq ι] [Fintype ι] in
theorem apply_setBytes {length : Int} {buff : List UInt8} (hlength : 0 ≤ length)
    (hbuff : countToSet length (m.size x.heap) ≤ buff.length) :
    (Edit.setBytes length buff).apply x.heap m =
      match m.dynamicData with
      | none => (m.staticData.copy 0 (buff.take (countToSet length (m.size x.heap)))).map fun d =>
          (x.heap, { m with staticData := d })
      | some r => some
          (x.heap.modify r (overwrite (buff.take (countToSet length (m.size x.heap)))), m) := by
  rw [Edit.apply, NetMessage.setBytes_eq, if_neg (not_lt.mpr hlength), if_neg (not_lt.mpr hbuff)]

theorem yields_setBytes_static (hx : Sound x) (hi : x.objects i = some m) {length : Int}
    {buff : List UInt8} (hd : m.dynamicData = none) (hlength : 0 ≤ length)
    (hbuff : countToSet length (m.size x.heap) ≤ buff.length) :
    ∃ h' m', (Edit.setBytes length buff).apply x.heap m = some (h', m') ∧
      Yields x i h' m' ((Edit.setBytes length buff).result (m.bytes x.heap)) := by
  obtain ⟨hrefs, hsmall⟩ := hx.fits hi
  have hstatic : m.size x.heap = m.staticSize := by rw [NetMessage.size, hd]
  have hcount : (buff.take (countToSet length m.staticSize)).length =
      countToSet length m.staticSize := by
    rw [List.length_take, Nat.min_eq_left (hstatic ▸ hbuff)]
  have hle : countToSet length m.staticSize ≤ m.staticSize ∧
      countToSet length m.staticSize ≤ kDynamicThreshold := by
    unfold countToSet
    omega
  obtain ⟨d, hcopy, htake⟩ := m.staticData.overwrite_eq (hcount.trans_le hle.2)
  have hy := @yields_same ι _ _ x { m with staticData := d } i hx hrefs hsmall
  have hresult : (Edit.setBytes length buff).result (m.bytes x.heap) =
      d.bytes.take m.staticSize := by
    rw [Edit.result, ← hx.size_eq hi, hstatic, htake _ (hcount.trans_le hle.1), NetMessage.bytes,
      hd]
  refine ⟨x.heap, { m with staticData := d }, ?_, ?_⟩
  · rw [apply_setBytes hlength hbuff]
    simp only [hd, hstatic, hcopy, Option.map_some]
  · rw [hresult]
    simpa only [NetMessage.bytes, hd] using hy

theorem edited_setBytes_iff (hx : Sound x) (hi : x.objects i = some m) {length : Int}
    {buff : List UInt8} (hbuff : countToSet length (m.size x.heap) ≤ buff.length) :
    x.Edited i (.setBytes length buff) ↔ x.Admits i m (.setBytes length buff) := by
  show _ ↔ 0 ≤ length ∧ _
  by_cases hlength : 0 ≤ length
  · rw [and_iff_right hlength]
    cases hd : m.dynamicData with
    | none =>
      obtain ⟨h', m', happly, hy⟩ := yields_setBytes_static hx hi hd hlength hbuff
      exact iff_of_true ((edited_iff_of_yields hx hi happly hy).mpr rfl) (Or.inr nofun)
    | some r =>
      have hcount : (buff.take (countToSet length (m.size x.heap))).length =
          countToSet length (m.size x.heap) := by
        rw [List.length_take, Nat.min_eq_left hbuff]
      have happly := @apply_setBytes ι x m length buff hlength hbuff
      simp only [hd] at happly
      have hresult : (Edit.setBytes length buff).result (m.bytes x.heap) =
          overwrite (buff.take (countToSet length (m.size x.heap))) (m.bytes x.heap) := by
        rw [Edit.result, hx.size_eq hi]
      rw [edited_modify_iff hx hi hd happly hresult, hcount]
      simp only [Option.some.injEq, forall_eq']
  · have happly : (Edit.setBytes length buff).apply x.heap m = none := by
      rw [Edit.apply, NetMessage.setBytes_eq, if_pos (not_le.mp hlength)]
    exact iff_of_false (not_edited_of_none hi happly) fun h => absurd h.1 hlength

/-! ## Runs -/

theorem sound_modify (hx : Sound x) (hi : x.objects i = some m) (r : ℕ)
    (f : List UInt8 → List UInt8) : Sound (x.put i (x.heap.modify r f) m) := by
  have hobjects : (x.put i (x.heap.modify r f) m).objects = x.objects := by
    show Function.update x.objects i (some m) = x.objects
    rw [← hi, Function.update_eq_self]
  have hrefs : (x.put i (x.heap.modify r f) m).refs = x.refs := by
    unfold refs
    rw [hobjects]
  refine ⟨⟨fun r' => ?_, fun j r' hj => ?_⟩, fun j m' hj => hx.small j m' (hobjects ▸ hj)⟩
  · rw [hrefs]
    exact hx.counts.counted r'
  · rw [hrefs] at hj
    exact (hx.counts.valid j r' hj).trans_eq (List.length_modify ..).symm

theorem sound_edit (hx : Sound x) {t : Messages ι} (h : x.edit i e = some t) : Sound t := by
  obtain ⟨m, hi, h⟩ := Option.bind_eq_some_iff.mp h
  obtain ⟨⟨h', m'⟩, happly, rfl⟩ := Option.map_eq_some_iff.mp h
  have hsame : ∀ {h₀ m₀ bytes}, e.apply x.heap m = some (h₀, m₀) → Yields x i h₀ m₀ bytes →
      Sound (x.put i h' m') := by
    intro h₀ m₀ bytes happly₀ hy
    obtain ⟨rfl, rfl⟩ := Prod.mk.inj (Option.some.inj (happly.symm.trans happly₀))
    exact (hy.put hx).1
  have hnone : ∀ {P : Prop}, e.apply x.heap m = none → P :=
    fun happly₀ => absurd (happly₀.symm.trans happly) nofun
  cases e with
  | insert position source =>
    by_cases hend : position = m.size x.heap
    · obtain ⟨_, _, happly₀, hy⟩ := @yields_insert_end ι _ x i m _ hx hi position source hend
      exact hsame happly₀ hy
    cases hd : m.dynamicData with
    | some r => exact hnone (apply_insert_of_dynamic hd hend)
    | none =>
      by_cases hlt : position < m.staticSize
      · by_cases hfits : source.range.length + m.staticSize ≤ kDynamicThreshold
        · obtain ⟨_, _, happly₀, hy⟩ := yields_insert_shift hx hi hd hlt hfits
          exact hsame happly₀ hy
        · obtain ⟨_, _, happly₀, hy⟩ := yields_insert_setDynamic hx hi hd hlt hfits
          exact hsame happly₀ hy
      · apply hnone
        rw [Edit.apply, NetMessage.insert_eq, if_neg fun h => h.elim hend fun h => hlt h.2]
  | setBytes length buff =>
    by_cases hlength : 0 ≤ length
    · by_cases hbuff : countToSet length (m.size x.heap) ≤ buff.length
      · cases hd : m.dynamicData with
        | none =>
          obtain ⟨_, _, happly₀, hy⟩ := yields_setBytes_static hx hi hd hlength hbuff
          exact hsame happly₀ hy
        | some r =>
          have happly₀ := @apply_setBytes ι x m length buff hlength hbuff
          simp only [hd] at happly₀
          obtain ⟨rfl, rfl⟩ := Prod.mk.inj (Option.some.inj (happly.symm.trans happly₀))
          exact sound_modify hx hi r _
      · apply hnone
        rw [Edit.apply, NetMessage.setBytes_eq, if_neg (not_lt.mpr hlength),
          if_pos (not_le.mp hbuff)]
    · apply hnone
      rw [Edit.apply, NetMessage.setBytes_eq, if_pos (not_le.mp hlength)]

end

end Messages

inductive Action (ι : Type)
  | operation (e : Operation ι)
  | edit (i : ι) (e : Edit)

namespace Messages
variable {ι : Type} [DecidableEq ι]

def act (x : Messages ι) : Action ι → Option (Messages ι)
  | .operation e => x.step e
  | .edit i e => x.edit i e

section
variable [Fintype ι]

theorem sound_act {x t : Messages ι} {a : Action ι} (hx : Sound x) (h : x.act a = some t) :
    Sound t := by
  cases a with
  | operation e => exact (agrees_step hx e).1 t h
  | edit i e => exact sound_edit hx h

theorem edited_iff_of_sound {x : Messages ι} {i : ι} {m : NetMessage} (hx : Sound x)
    (hi : x.objects i = some m) {e : Edit} (he : e.Inside (m.size x.heap)) :
    x.Edited i e ↔ x.Admits i m e := by
  cases e with
  | insert position source => exact edited_insert_iff hx hi source he
  | setBytes length buff => exact edited_setBytes_iff hx hi he

theorem sound_run {actions : List (Action ι)} {x : Messages ι}
    (hrun : Run.exec act ({} : Messages ι) actions = some x) : Sound x :=
  Run.exec_invariant (fun _ _ _ hx h => sound_act hx h) sound_start hrun

/-- In every state that messages can be in, an insertion or a setting of bytes does to the message
what it should and nothing to the others exactly when it is admitted. -/
theorem edited_iff (actions : List (Action ι)) {x : Messages ι}
    (hrun : Run.exec act ({} : Messages ι) actions = some x) {i : ι} {m : NetMessage}
    (hi : x.objects i = some m) (e : Edit) (he : e.Inside (m.size x.heap)) :
    x.Edited i e ↔ x.Admits i m e :=
  edited_iff_of_sound (sound_run hrun) hi he

end

/-! ## Two messages -/

def noMemory : StaticData := ⟨List.replicate kDynamicThreshold 0, List.length_replicate⟩

def short : List (Action (Fin 2)) :=
  [.operation (.construct 0 noMemory), .operation (.write 0 [1, 2])]

def shared : List (Action (Fin 2)) :=
  [.operation (.constructReserved 0 noMemory 200), .operation (.write 0 [1, 2]),
    .operation (.constructCopy 1 noMemory 0 0)]

theorem edited_two_bytes : ∃ x m, Run.exec act {} short = some x ∧ x.objects 0 = some m ∧
    m.bytes x.heap = [1, 2] ∧ x.Edited 0 (.insert 0 ⟨[8, 9], 0, 2, by decide⟩) := by
  refine ⟨_, _, rfl, rfl, rfl, ?_⟩
  refine (edited_iff short rfl rfl _ (Nat.zero_le _)).mpr (Or.inr ⟨rfl, Or.inr ?_⟩)
  exact List.nil_prefix

/-- A single byte before two is followed by the first of them twice, and bytes that are set in a
vector are set for both. -/
theorem not_edited_one_byte :
    (∃ x, Run.exec act {} short = some x ∧ ¬ x.Edited 0 (.insert 0 ⟨[9], 0, 1, by decide⟩)) ∧
    ∃ x, Run.exec act {} shared = some x ∧ ¬ x.Edited 0 (.setBytes 1 [7]) := by
  refine ⟨⟨_, rfl, fun h => ?_⟩, _, rfl, fun h => ?_⟩
  · have hsound := sound_run (show Run.exec act {} short = some _ from rfl)
    obtain hend | ⟨-, hlong | hprefix⟩ := (edited_iff_of_sound hsound rfl (Nat.zero_le _)).mp h
    · exact absurd hend (by decide)
    · exact absurd hlong (by decide)
    · exact absurd hprefix (by decide)
  · have hsound := sound_run (show Run.exec act {} shared = some _ from rfl)
    have hinside := @Edit.inside_setBytes 1 [7] (by decide)
    obtain ⟨-, hthere | halone⟩ := (edited_iff_of_sound hsound rfl (hinside _)).mp h
    · exact absurd hthere (by decide)
    · exact halone 0 rfl 1 (by decide) rfl

end Messages

end IceBridge.Eddy
