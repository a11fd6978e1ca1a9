import IceBridge.Eddy.NetMessage
import IceBridge.Gateway.Broadcast

/-! Messages that share vectors are byte lists that share nothing: the counts of the vectors are
right, so a vector that is written in place has no second holder. -/

namespace IceBridge.Eddy
open Gateway (Heap kDynamicThreshold)

variable {ι : Type} [DecidableEq ι] [Fintype ι]

/-! ## Counted vectors -/

section UseCount
variable (h : Heap) (r r' : ℕ)

theorem useCount_retain : (h.retain r).useCount r' = h.useCount r' + if r = r' then 1 else 0 := by
  rcases eq_or_ne r r' with rfl | hr
  · simp [Heap.retain]
  · simp [Heap.retain, hr, Function.update_of_ne hr.symm]

theorem useCount_release : (h.release r).useCount r' = h.useCount r' - if r = r' then 1 else 0 := by
  rcases eq_or_ne r r' with rfl | hr
  · simp [Heap.release]
  · simp [Heap.release, hr, Function.update_of_ne hr.symm]

theorem useCount_make (bytes : List UInt8) (hunused : h.useCount h.vectors.length = 0) :
    (h.make bytes).1.useCount r' = h.useCount r' + if h.vectors.length = r' then 1 else 0 := by
  rcases eq_or_ne h.vectors.length r' with rfl | hr
  · simp [Heap.make, hunused]
  · simp [Heap.make, hr, Function.update_of_ne hr.symm]

end UseCount

structure Counts (h : Heap) (ref : ι → Option ℕ) : Prop where
  counted : ∀ r, h.useCount r = Holdings.count ref r
  valid : ∀ i r, ref i = some r → r < h.vectors.length

section Counts
variable {h h' : Heap} {ref : ι → Option ℕ} {i : ι} {r : ℕ}

omit [DecidableEq ι] in
theorem Counts.unused (hc : Counts h ref) : h.useCount h.vectors.length = 0 := by
  rw [hc.counted, Holdings.count_eq_zero_iff]
  exact fun j hj => Nat.lt_irrefl _ (hc.valid j _ hj)

omit [DecidableEq ι] in
theorem Counts.pos (hc : Counts h ref) (hi : ref i = some r) : 0 < h.useCount r := by
  rw [hc.counted, Nat.pos_iff_ne_zero, Ne, Holdings.count_eq_zero_iff]
  exact fun hnone => hnone i hi

theorem Counts.move (hc : Counts h ref) (i : ι) (x : Option ℕ)
    (hlen : h.vectors.length ≤ h'.vectors.length) (hx : ∀ r, x = some r → r < h'.vectors.length)
    (huse : ∀ r, h'.useCount r + (if ref i = some r then 1 else 0) =
      h.useCount r + if x = some r then 1 else 0) : Counts h' (Function.update ref i x) := by
  refine ⟨fun r => ?_, fun j r hj => ?_⟩
  · have hcount := Holdings.count_update ref i x r
    have huse := huse r
    rw [hc.counted r] at huse
    omega
  · by_cases hji : j = i
    · rw [hji, Function.update_self] at hj
      exact hx r hj
    · rw [Function.update_of_ne hji] at hj
      exact (hc.valid j r hj).trans_le hlen

theorem Counts.make (hc : Counts h ref) (hi : ref i = none) (bytes : List UInt8) :
    Counts (h.make bytes).1 (Function.update ref i (some h.vectors.length)) := by
  refine hc.move i _ (by simp [Heap.make]) (fun r hr => ?_) fun r => ?_
  · rw [← Option.some.inj hr]
    simp [Heap.make]
  · rw [useCount_make h r bytes hc.unused, hi]
    simp only [Option.some.injEq, reduceCtorEq, if_false, Nat.add_zero]

theorem Counts.reset (hc : Counts h ref) (i : ι) :
    Counts (Heap.reset h (ref i)) (Function.update ref i none) := by
  cases hi : ref i with
  | none => exact hc.move i none le_rfl nofun fun r => by simp [hi, Heap.reset]
  | some old =>
    have hpos := hc.pos hi
    refine hc.move i none le_rfl nofun fun r => ?_
    rw [Heap.reset, useCount_release, hi]
    simp only [Option.some.injEq, reduceCtorEq, if_false]
    split
    · next hold =>
      rw [← hold]
      omega
    · omega

theorem Counts.assign (hc : Counts h ref) (i : ι) (hr : r < h.vectors.length) :
    Counts (Heap.reset (h.retain r) (ref i)) (Function.update ref i (some r)) := by
  have hvalid : ∀ r', some r = some r' → r' < h.vectors.length := fun r' heq =>
    Option.some.inj heq ▸ hr
  cases hi : ref i with
  | none =>
    refine hc.move i _ le_rfl hvalid fun r' => ?_
    rw [Heap.reset, useCount_retain, hi]
    simp only [Option.some.injEq, reduceCtorEq, if_false, Nat.add_zero]
  | some old =>
    have hpos := hc.pos hi
    refine hc.move i _ le_rfl hvalid fun r' => ?_
    rw [Heap.reset, useCount_release, useCount_retain, hi]
    simp only [Option.some.injEq]
    by_cases hold : old = r'
    · rw [if_pos hold, ← hold]
      omega
    · rw [if_neg hold, Nat.sub_zero, Nat.add_zero]

theorem Counts.copyOnWrite (hc : Counts h ref) (hi : ref i = some r) (bytes : List UInt8) :
    Counts ((h.make bytes).1.release r) (Function.update ref i (some h.vectors.length)) := by
  have hpos := hc.pos hi
  refine hc.move i _ (by simp [Heap.make, Heap.release]) (fun r' hr' => ?_) fun r' => ?_
  · rw [← Option.some.inj hr']
    simp [Heap.make, Heap.release]
  · rw [useCount_release, useCount_make h r' bytes hc.unused, hi]
    simp only [Option.some.injEq]
    by_cases hold : r = r'
    · rw [if_pos hold, ← hold]
      omega
    · rw [if_neg hold, Nat.sub_zero, Nat.add_zero]

end Counts

/-! ## The bytes in the heap -/

section Heap
variable {h : Heap} {r : ℕ}

theorem bytesAt_make_of_lt (bytes : List UInt8) (hr : r < h.vectors.length) :
    (h.make bytes).1.bytesAt r = h.bytesAt r := by
  simp [Heap.make, Heap.bytesAt, List.getElem?_append_left hr]

theorem bytesAt_make (h : Heap) (bytes : List UInt8) :
    (h.make bytes).1.bytesAt h.vectors.length = bytes := by
  simp [Heap.make, Heap.bytesAt]

theorem bytesAt_reset (h : Heap) (x : Option ℕ) (r : ℕ) :
    (Heap.reset h x).bytesAt r = h.bytesAt r := by
  cases x <;> rfl

end Heap

theorem StaticData.copy_eq (d : StaticData) {offset : ℕ} {source : List UInt8}
    (hfits : offset + source.length ≤ kDynamicThreshold) : ∃ d', d.copy offset source = some d' ∧
      d'.bytes.take (offset + source.length) = d.bytes.take offset ++ source := by
  refine ⟨_, dif_pos hfits, ?_⟩
  have hoffset : (d.bytes.take offset).length = offset := by
    rw [List.length_take, d.length_eq]
    exact Nat.min_eq_left (by omega)
  change (d.bytes.take offset ++ (source ++ _)).take _ = _
  rw [← List.append_assoc, List.take_left' (by rw [List.length_append, hoffset])]

theorem NetMessage.copy_staticRange {other : NetMessage}
    (hsmall : other.staticSize ≤ kDynamicThreshold) (d : StaticData) :
    ∃ range d', other.staticRange = some range ∧ d.copy 0 range = some d' ∧
      d'.bytes.take other.staticSize = other.staticData.bytes.take other.staticSize := by
  have hlength : (other.staticData.bytes.take other.staticSize).length = other.staticSize := by
    rw [List.length_take, other.staticData.length_eq, Nat.min_eq_left hsmall]
  have hfits : 0 + (other.staticData.bytes.take other.staticSize).length ≤ kDynamicThreshold := by
    rwa [Nat.zero_add, hlength]
  obtain ⟨d', hcopy, htake⟩ := d.copy_eq hfits
  rw [Nat.zero_add, hlength, List.take_zero, List.nil_append] at htake
  exact ⟨_, d', if_pos hsmall, hcopy, htake⟩

/-! ## The invariant -/

namespace Messages
variable {x : Messages ι} {h : Heap} {m other : NetMessage} {i j : ι}

def refs (x : Messages ι) (i : ι) : Option ℕ := (x.objects i).bind NetMessage.dynamicData

def contents (x : Messages ι) : Contents ι := fun i => (x.objects i).map (NetMessage.bytes x.heap)

structure Sound (x : Messages ι) : Prop where
  counts : Counts x.heap x.refs
  small : ∀ i m, x.objects i = some m → m.dynamicData = none → m.staticSize ≤ kDynamicThreshold

structure Yields (x : Messages ι) (i : ι) (h : Heap) (m : NetMessage) (bytes : List UInt8) : Prop where
  counts : Counts h (Function.update x.refs i m.dynamicData)
  small : m.dynamicData = none → m.staticSize ≤ kDynamicThreshold
  others : ∀ j ≠ i, ∀ r, x.refs j = some r → h.bytesAt r = x.heap.bytesAt r
  bytes_eq : m.bytes h = bytes

omit [Fintype ι] in
theorem refs_put (x : Messages ι) (i : ι) (h : Heap) (m : NetMessage) :
    (x.put i h m).refs = Function.update x.refs i m.dynamicData := by
  funext j
  by_cases hji : j = i
  · simp [refs, put, hji]
  · simp [refs, put, Function.update_of_ne hji]

omit [Fintype ι] [DecidableEq ι] in
theorem refs_of_some (hi : x.objects i = some m) : x.refs i = m.dynamicData := by
  rw [refs, hi, Option.bind_some]

theorem Yields.put {bytes : List UInt8} (hx : Sound x) (hy : Yields x i h m bytes) :
    Sound (x.put i h m) ∧ contents (x.put i h m) = Function.update (contents x) i (some bytes) := by
  refine ⟨⟨?_, fun j m' hj hstatic => ?_⟩, ?_⟩
  · rw [refs_put]
    exact hy.counts
  · by_cases hji : j = i
    · simp only [Messages.put, hji, Function.update_self] at hj
      exact Option.some.inj hj ▸ hy.small (Option.some.inj hj ▸ hstatic)
    · simp only [Messages.put, Function.update_of_ne hji] at hj
      exact hx.small j m' hj hstatic
  · funext j
    by_cases hji : j = i
    · simp [contents, Messages.put, hji, hy.bytes_eq]
    · simp only [contents, Messages.put, Function.update_of_ne hji]
      refine Option.map_congr fun m' hj => ?_
      unfold NetMessage.bytes
      cases hr : m'.dynamicData with
      | none => rfl
      | some r => exact hy.others j hji r (by simp [refs, Option.mem_def.mp hj, hr])

/-! ## The operations of one message -/

theorem Yields.trans {h' : Heap} {m' : NetMessage} {bytes bytes' : List UInt8}
    (hy : Yields x i h m bytes) (hy' : Yields (x.put i h m) i h' m' bytes') :
    Yields x i h' m' bytes' := by
  refine ⟨?_, hy'.small, fun j hji r hj => ?_, hy'.bytes_eq⟩
  · have hcounts := hy'.counts
    rwa [refs_put, Function.update_idem] at hcounts
  · have hkept := hy'.others j hji r (by rw [refs_put, Function.update_of_ne hji, hj])
    exact hkept.trans (hy.others j hji r hj)

theorem yields_same (hx : Sound x) (hi : x.refs i = m.dynamicData)
    (hm : m.dynamicData = none → m.staticSize ≤ kDynamicThreshold) :
    Yields x i x.heap m (m.bytes x.heap) := by
  refine ⟨?_, hm, fun _ _ _ _ => rfl, rfl⟩
  rw [← hi, Function.update_eq_self]
  exact hx.counts

theorem yields_setDynamic (hx : Sound x) (hi : x.refs i = m.dynamicData)
    (hm : m.dynamicData = none → m.staticSize ≤ kDynamicThreshold) :
    ∃ h' m', m.setDynamic x.heap = some (h', m') ∧ (∃ r, m'.dynamicData = some r) ∧
      Yields x i h' m' (m.bytes x.heap) := by
  cases hd : m.dynamicData with
  | some r => exact ⟨x.heap, m, by rw [NetMessage.setDynamic, hd], ⟨r, hd⟩, yields_same hx hi hm⟩
  | none =>
    have hrange : m.staticRange = some (m.bytes x.heap) := by
      rw [NetMessage.staticRange, if_pos (hm hd), NetMessage.bytes, hd]
    refine ⟨_, _, by rw [NetMessage.setDynamic, hd, hrange]; rfl, ⟨_, rfl⟩, ?_⟩
    refine ⟨hx.counts.make (hi.trans hd) _, nofun, fun j _ r hj => ?_, ?_⟩
    · exact bytesAt_make_of_lt _ (hx.counts.valid j r hj)
    · exact bytesAt_make x.heap _

theorem yields_reserve (hx : Sound x) (hi : x.refs i = m.dynamicData)
    (hm : m.dynamicData = none → m.staticSize ≤ kDynamicThreshold) (size : ℕ) :
    ∃ h' m', m.reserve x.heap size = some (h', m') ∧ Yields x i h' m' (m.bytes x.heap) := by
  have hsame := yields_same hx hi hm
  cases hd : m.dynamicData with
  | some r => exact ⟨x.heap, m, by rw [NetMessage.reserve, hd], hsame⟩
  | none =>
    by_cases hsize : size < kDynamicThreshold
    · exact ⟨x.heap, m, by rw [NetMessage.reserve, hd]; exact if_pos hsize, hsame⟩
    · obtain ⟨h', m', hset, -, hy⟩ := yields_setDynamic hx hi hm
      exact ⟨h', m', by rw [NetMessage.reserve, hd]; exact (if_neg hsize).trans hset, hy⟩

theorem yields_clear (hx : Sound x) (hi : x.refs i = m.dynamicData) :
    Yields x i (m.clear x.heap).1 (m.clear x.heap).2 [] := by
  refine ⟨?_, fun _ => Nat.zero_le _, fun _ _ r _ => bytesAt_reset .., rfl⟩
  have hcounts := hx.counts.reset i
  rwa [hi] at hcounts

theorem yields_modify (hx : Sound x) (hi : x.refs i = m.dynamicData) {r : ℕ}
    (hd : m.dynamicData = some r) (halone : ∀ j ≠ i, x.refs j ≠ some r)
    (f : List UInt8 → List UInt8) :
    Yields x i (x.heap.modify r f) m (f (m.bytes x.heap)) := by
  have hvalid := hx.counts.valid i r (hi.trans hd)
  refine ⟨?_, fun hnone => absurd (hnone.symm.trans hd) nofun, fun j hji r' hj => ?_, ?_⟩
  · rw [← hi, Function.update_eq_self]
    exact ⟨hx.counts.counted, fun j r' hj => by
      simpa [Heap.modify] using hx.counts.valid j r' hj⟩
  · have hrr : r ≠ r' := by
      rintro rfl
      exact halone j hji hj
    rw [Gateway.Heap.bytesAt_modify _ hvalid, if_neg hrr]
  · rw [NetMessage.bytes, NetMessage.bytes, hd]
    exact (Gateway.Heap.bytesAt_modify _ hvalid r).trans (if_pos rfl)

theorem yields_insertDynamic (hx : Sound x) (hi : x.refs i = m.dynamicData) {r : ℕ}
    (hd : m.dynamicData = some r) (data : List UInt8) :
    Yields x i (m.insertDynamic x.heap r data).1 (m.insertDynamic x.heap r data).2
      (m.bytes x.heap ++ data) := by
  have hr : x.refs i = some r := hi.trans hd
  have hbytes : m.bytes x.heap = x.heap.bytesAt r := by rw [NetMessage.bytes, hd]
  unfold NetMessage.insertDynamic
  split
  · next hunique =>
    rw [hx.counts.counted] at hunique
    have halone : ∀ j ≠ i, x.refs j ≠ some r :=
      fun j hji hj => hji (Holdings.eq_of_count_eq_one hunique hj hr)
    exact yields_modify hx hi hd halone (· ++ data)
  · refine ⟨hx.counts.copyOnWrite hr _, nofun, fun j _ r' hj => ?_, ?_⟩
    · exact bytesAt_make_of_lt _ (hx.counts.valid j r' hj)
    · exact (bytesAt_make x.heap _).trans (by rw [hbytes])

theorem yields_write (hx : Sound x) (hi : x.refs i = m.dynamicData)
    (hm : m.dynamicData = none → m.staticSize ≤ kDynamicThreshold) (data : List UInt8) :
    ∃ h' m', m.write x.heap data = some (h', m') ∧ Yields x i h' m' (m.bytes x.heap ++ data) := by
  unfold NetMessage.write
  split
  · next hfits =>
    obtain ⟨d, hd, htake⟩ := m.staticData.copy_eq hfits.2
    refine ⟨x.heap, _, by rw [hd]; rfl, ?_⟩
    refine ⟨?_, fun _ => hfits.2, fun _ _ _ _ => rfl, ?_⟩
    · rw [← hi, Function.update_eq_self]
      exact hx.counts
    · simp only [NetMessage.bytes, hfits.1, htake]
  · obtain ⟨h', m', hset, ⟨r, hr⟩, hy⟩ := yields_setDynamic hx hi hm
    have hx' := (hy.put hx).1
    have hi' : (x.put i h' m').refs i = m'.dynamicData := by
      rw [refs_put, Function.update_self]
    have hinsert := yields_insertDynamic hx' hi' hr data
    refine ⟨_, _, by rw [hset]; simp only [Option.bind_eq_bind, Option.bind_some, hr]; rfl, ?_⟩
    rw [← hy.bytes_eq]
    exact hy.trans hinsert

theorem yields_assign (hx : Sound x) (hi : x.refs i = m.dynamicData) (hj : x.objects j = some other) :
    ∃ h' m', m.assign x.heap other = some (h', m') ∧ Yields x i h' m' (other.bytes x.heap) := by
  cases hd : other.dynamicData with
  | some r =>
    have hvalid := hx.counts.valid j r ((refs_of_some hj).trans hd)
    have hcounts := hx.counts.assign i hvalid
    rw [hi] at hcounts
    refine ⟨_, _, by rw [NetMessage.assign, hd], hcounts, fun hnone => ?_, fun _ _ _ _ => ?_, ?_⟩
    · exact absurd hnone (Option.some_ne_none r)
    · exact bytesAt_reset ..
    · rw [NetMessage.bytes, NetMessage.bytes, hd]
      exact bytesAt_reset ..
  | none =>
    have hsmall := hx.small j other hj hd
    obtain ⟨range, d, hrange, hcopy, htake⟩ := NetMessage.copy_staticRange hsmall m.staticData
    have hcounts := hx.counts.reset i
    rw [hi] at hcounts
    refine ⟨Heap.reset x.heap m.dynamicData, { staticSize := other.staticSize, staticData := d }, ?_,
      hcounts, fun _ => hsmall, fun _ _ _ _ => bytesAt_reset .., ?_⟩
    · rw [NetMessage.assign, hd]
      simp only [hrange, hcopy, Option.bind_eq_bind, Option.bind_some]
    · simp only [NetMessage.bytes, hd, htake]

omit [Fintype ι] [DecidableEq ι] in
/-- In each pair of storage modes `Swap` exchanges the vectors and the bytes. -/
theorem swap_eq (hm : m.dynamicData = none → m.staticSize ≤ kDynamicThreshold)
    (hother : other.dynamicData = none → other.staticSize ≤ kDynamicThreshold) (h : Heap) :
    ∃ m' other', m.swap other = some (m', other') ∧
      (m'.dynamicData = other.dynamicData ∧ other'.dynamicData = m.dynamicData) ∧
      (m'.bytes h = other.bytes h ∧ other'.bytes h = m.bytes h) ∧
      (m'.dynamicData = none → m'.staticSize ≤ kDynamicThreshold) ∧
      (other'.dynamicData = none → other'.staticSize ≤ kDynamicThreshold) := by
  unfold NetMessage.swap NetMessage.bytes
  cases hd : m.dynamicData with
  | some r =>
    cases hd' : other.dynamicData with
    | some r' => exact ⟨_, _, rfl, ⟨rfl, rfl⟩, ⟨rfl, rfl⟩, nofun, nofun⟩
    | none =>
      obtain ⟨range, d, hrange, hcopy, htake⟩ :=
        NetMessage.copy_staticRange (hother hd') m.staticData
      refine ⟨{ staticSize := other.staticSize, staticData := d },
        { other with staticSize := m.staticSize, dynamicData := some r }, ?_, ⟨rfl, rfl⟩,
        ⟨htake, rfl⟩, fun _ => hother hd', nofun⟩
      simp only [hrange, hcopy, Option.bind_eq_bind, Option.bind_some]
  | none =>
    cases hd' : other.dynamicData with
    | some r' =>
      obtain ⟨range, d, hrange, hcopy, htake⟩ := NetMessage.copy_staticRange (hm hd) other.staticData
      refine ⟨{ m with staticSize := other.staticSize, dynamicData := some r' },
        { staticSize := m.staticSize, staticData := d }, ?_, ⟨rfl, rfl⟩, ⟨rfl, htake⟩, nofun,
        fun _ => hm hd⟩
      simp only [hrange, hcopy, Option.bind_eq_bind, Option.bind_some]
    | none =>
      obtain ⟨range, d, hrange, hcopy, htake⟩ :=
        NetMessage.copy_staticRange (hother hd') m.staticData
      obtain ⟨tempData, d', htemp, hcopy', htake'⟩ :=
        NetMessage.copy_staticRange (hm hd) other.staticData
      refine ⟨{ m with staticSize := other.staticSize, staticData := d },
        { other with staticSize := m.staticSize, staticData := d' }, ?_, ⟨hd, hd'⟩, ?_,
        fun _ => hother hd', fun _ => hm hd⟩
      · simp only [hrange, hcopy, htemp, hcopy', hd, hd', Option.bind_eq_bind, Option.bind_some]
      · simp only [hd, hd', htake, htake', and_self]

/-! ## Every operation -/

def Agrees (o : Option (Messages ι)) (a : Option (Contents ι)) : Prop :=
  (∀ t, o = some t → Sound t) ∧ o.map contents = a

omit [DecidableEq ι] in
theorem agrees_none : Agrees (ι := ι) none none := ⟨nofun, rfl⟩

theorem Yields.agrees {o : Option (Heap × NetMessage)} {bytes : List UInt8} (hx : Sound x)
    (ho : ∃ h m, o = some (h, m) ∧ Yields x i h m bytes) :
    Agrees (o.map fun (h, m) => x.put i h m)
      (some (Function.update (contents x) i (some bytes))) := by
  obtain ⟨h, m, rfl, hy⟩ := ho
  obtain ⟨hsound, hcontents⟩ := hy.put hx
  exact ⟨fun t ht => Option.some.inj ht ▸ hsound, congrArg some hcontents⟩

omit [DecidableEq ι] in
theorem agrees_same (hx : Sound x) : Agrees (some x) (some (contents x)) :=
  ⟨fun _ ht => Option.some.inj ht ▸ hx, rfl⟩

theorem agrees_swap (hx : Sound x) (hi : x.objects i = some m) (hj : x.objects j = some other)
    (hij : i ≠ j) :
    Agrees ((m.swap other).map fun (m, other) => (x.put i x.heap m).put j x.heap other)
      (some (Function.update (Function.update (contents x) i (some (other.bytes x.heap))) j
        (some (m.bytes x.heap)))) := by
  obtain ⟨m', other', hswap, hrefs, hbytes, hm', hother'⟩ :=
    swap_eq (hx.small i m hi) (hx.small j other hj) x.heap
  have hexchange : ((x.put i x.heap m').put j x.heap other').refs = x.refs ∘ Equiv.swap i j := by
    apply Holdings.eq_comp_swap
    · rw [refs_put, refs_put, Function.update_of_ne hij, Function.update_self, hrefs.1,
        refs_of_some hj]
    · rw [refs_put, Function.update_self, hrefs.2, refs_of_some hi]
    · intro k hki hkj
      rw [refs_put, refs_put, Function.update_of_ne hkj, Function.update_of_ne hki]
  have hsound : Sound ((x.put i x.heap m').put j x.heap other') := by
    refine ⟨⟨fun r => ?_, fun k r hk => ?_⟩, fun k mk hk hstatic => ?_⟩
    · rw [hexchange, Holdings.count_perm]
      exact hx.counts.counted r
    · rw [hexchange] at hk
      exact hx.counts.valid _ r hk
    · simp only [put, Function.update_apply] at hk
      split at hk
      · exact Option.some.inj hk ▸ hother' (Option.some.inj hk ▸ hstatic)
      · split at hk
        · exact Option.some.inj hk ▸ hm' (Option.some.inj hk ▸ hstatic)
        · exact hx.small k mk hk hstatic
  refine ⟨fun t ht => ?_, ?_⟩
  · rw [hswap] at ht
    exact Option.some.inj ht ▸ hsound
  · rw [hswap]
    refine congrArg some (funext fun k => ?_)
    simp only [contents, put, Function.update_apply]
    split
    · exact congrArg some hbytes.2
    · split
      · exact congrArg some hbytes.1
      · rfl

theorem agrees_destroy (hx : Sound x) (hi : x.objects i = some m) :
    Agrees (some ⟨Heap.reset x.heap m.dynamicData, Function.update x.objects i none⟩)
      (some (Function.update (contents x) i none)) := by
  have hrefs : refs ⟨Heap.reset x.heap m.dynamicData, Function.update x.objects i none⟩ =
      Function.update x.refs i none := by
    funext k
    rcases eq_or_ne k i with rfl | hki
    · simp [refs]
    · simp [refs, Function.update_of_ne hki]
  have hcounts := hx.counts.reset i
  rw [refs_of_some hi, ← hrefs] at hcounts
  refine ⟨fun t ht => Option.some.inj ht ▸ ⟨hcounts, fun k mk hk hstatic => ?_⟩,
    congrArg some (funext fun k => ?_)⟩
  · rcases eq_or_ne k i with rfl | hki
    · simp at hk
    · exact hx.small k mk (by simpa [Function.update_of_ne hki] using hk) hstatic
  · rcases eq_or_ne k i with rfl | hki
    · simp [contents]
    · simp only [contents, Function.update_of_ne hki]
      refine Option.map_congr fun m' _ => ?_
      simp only [NetMessage.bytes, bytesAt_reset]

omit [DecidableEq ι] in
theorem Sound.fits (hx : Sound x) (hi : x.objects i = some m) : x.refs i = m.dynamicData ∧
    (m.dynamicData = none → m.staticSize ≤ kDynamicThreshold) :=
  ⟨refs_of_some hi, hx.small i m hi⟩

omit [DecidableEq ι] [Fintype ι] in
theorem contents_of_some (hi : x.objects i = some m) : contents x i = some (m.bytes x.heap) := by
  rw [contents, hi, Option.map_some]

omit [DecidableEq ι] [Fintype ι] in
theorem contents_of_none (hi : x.objects i = none) : contents x i = none := by
  rw [contents, hi, Option.map_none]

theorem agrees_present (hx : Sound x) {f : NetMessage → Option (Heap × NetMessage)}
    {g : List UInt8 → List UInt8}
    (hf : ∀ m, x.objects i = some m →
      ∃ h' m', f m = some (h', m') ∧ Yields x i h' m' (g (m.bytes x.heap))) :
    Agrees ((x.objects i).bind fun m => (f m).map fun (h, m) => x.put i h m)
      ((contents x i).map fun bytes => Function.update (contents x) i (some (g bytes))) := by
  cases hi : x.objects i with
  | none =>
    rw [contents_of_none hi]
    exact agrees_none
  | some m =>
    rw [contents_of_some hi]
    exact Yields.agrees hx (hf m hi)

theorem agrees_absent (hx : Sound x) {o : Option (Heap × NetMessage)} {bytes : List UInt8}
    (ho : x.refs i = none → ∃ h' m', o = some (h', m') ∧ Yields x i h' m' bytes) :
    Agrees (match x.objects i with
      | some _ => none
      | none => o.map fun (h, m) => x.put i h m)
      (match contents x i with
      | some _ => none
      | none => some (Function.update (contents x) i (some bytes))) := by
  cases hi : x.objects i with
  | some m =>
    rw [contents_of_some hi]
    exact agrees_none
  | none =>
    have hrefs : x.refs i = none := by rw [refs, hi, Option.bind_none]
    rw [contents_of_none hi]
    exact Yields.agrees hx (ho hrefs)

omit [DecidableEq ι] in
theorem agrees_pair {f : NetMessage → NetMessage → Option (Messages ι)}
    {g : List UInt8 → List UInt8 → Option (Contents ι)}
    (hf : ∀ m other, x.objects i = some m → x.objects j = some other →
      Agrees (f m other) (g (m.bytes x.heap) (other.bytes x.heap))) :
    Agrees (match x.objects i, x.objects j with
      | some m, some other => f m other
      | _, _ => none)
      (match contents x i, contents x j with
      | some bytes, some others => g bytes others
      | _, _ => none) := by
  cases hi : x.objects i with
  | none =>
    rw [contents_of_none hi]
    exact agrees_none
  | some m =>
    cases hj : x.objects j with
    | none =>
      rw [contents_of_some hi, contents_of_none hj]
      exact agrees_none
    | some other =>
      rw [contents_of_some hi, contents_of_some hj]
      exact hf m other hi hj

theorem agrees_step (hx : Sound x) (e : Operation ι) :
    Agrees (x.step e) (Contents.step (contents x) e) := by
  have hself : ∀ i, ((contents x i).map fun bytes => Function.update (contents x) i (some bytes)) =
      (contents x i).map fun _ => contents x := by
    intro i
    refine Option.map_congr fun bytes hbytes => ?_
    rw [← Option.mem_def.mp hbytes, Function.update_eq_self]
  cases e with
  | construct i memory =>
    refine agrees_absent (o := some (x.heap, { staticSize := 0, staticData := memory })) hx
      fun hrefs => ⟨_, _, rfl, ?_⟩
    exact yields_same hx hrefs fun _ => Nat.zero_le _
  | constructReserved i memory reservedSize =>
    exact agrees_absent hx fun hrefs => yields_reserve hx hrefs (fun _ => Nat.zero_le _) _
  | constructCopy i memory size j =>
    cases hi : x.objects i with
    | some m =>
      simp only [step, Contents.step, hi, contents_of_some hi]
      exact agrees_none
    | none =>
      cases hj : x.objects j with
      | none =>
        simp only [step, Contents.step, hi, hj, contents_of_none hi, contents_of_none hj]
        exact agrees_none
      | some other =>
        have hrefs : x.refs i = none := by rw [refs, hi, Option.bind_none]
        simp only [step, Contents.step, hi, hj, contents_of_none hi, contents_of_some hj]
        exact Yields.agrees hx (yields_assign hx hrefs hj)
  | assign i j =>
    refine agrees_pair fun m other hi hj => ?_
    split
    · next hij =>
      subst hij
      rw [← contents_of_some hj, Function.update_eq_self]
      exact agrees_same hx
    · exact Yields.agrees hx (yields_assign hx (hx.fits hi).1 hj)
  | write i data => exact agrees_present hx fun m hi => yields_write hx (hx.fits hi).1 (hx.fits hi).2 data
  | swap i j =>
    refine agrees_pair fun m other hi hj => ?_
    split
    · next hij =>
      subst hij
      rw [← contents_of_some hi, ← contents_of_some hj, Function.update_idem, Function.update_eq_self]
      exact agrees_same hx
    · next hij => exact agrees_swap hx hi hj hij
  | reserve i size =>
    rw [Contents.step, ← hself]
    exact agrees_present hx fun m hi => yields_reserve hx (hx.fits hi).1 (hx.fits hi).2 size
  | setDynamic i =>
    rw [Contents.step, ← hself]
    refine agrees_present hx fun m hi => ?_
    obtain ⟨h', m', hset, -, hy⟩ := yields_setDynamic hx (hx.fits hi).1 (hx.fits hi).2
    exact ⟨h', m', hset, hy⟩
  | clear i =>
    rw [step, Option.map_eq_bind]
    exact agrees_present (f := fun m => some (m.clear x.heap)) hx fun m hi =>
      ⟨_, _, rfl, yields_clear hx (hx.fits hi).1⟩
  | destroy i =>
    cases hi : x.objects i with
    | none =>
      rw [step, Contents.step, hi, contents_of_none hi]
      exact agrees_none
    | some m =>
      rw [step, Contents.step, hi, contents_of_some hi]
      exact agrees_destroy hx hi

omit [DecidableEq ι] in
theorem sound_start : Sound ({} : Messages ι) := by
  refine ⟨⟨fun r => ?_, nofun⟩, nofun⟩
  rw [eq_comm, Holdings.count_eq_zero_iff]
  exact fun _ => nofun

omit [DecidableEq ι] in
theorem Sound.size_eq (hx : Sound x) (hi : x.objects i = some m) :
    m.size x.heap = (m.bytes x.heap).length := by
  unfold NetMessage.size NetMessage.bytes
  cases hd : m.dynamicData with
  | some r => rfl
  | none =>
    have hsmall := hx.small i m hi hd
    change m.staticSize = (m.staticData.bytes.take m.staticSize).length
    rw [List.length_take, m.staticData.length_eq, Nat.min_eq_left hsmall]

/-- Whatever is done to the messages, each has the bytes and the size of a byte list that shares
nothing with the others. -/
theorem contents_refine (operations : List (Operation ι)) :
    (Run.exec step ({} : Messages ι) operations).map (fun x i =>
      (x.objects i).map fun m => (m.bytes x.heap, m.size x.heap)) =
    (Run.exec Contents.step (fun _ => none) operations).map (fun a i =>
      (a i).map fun bytes => (bytes, bytes.length)) := by
  have hinvariant : ∀ (x : Messages ι) e t, Sound x → x.step e = some t → Sound t :=
    fun x e t hx => (agrees_step hx e).1 t
  have hrun : (Run.exec step ({} : Messages ι) operations).map contents =
      Run.exec Contents.step (contents ({} : Messages ι)) operations :=
    Run.exec_map hinvariant (fun x e hx => (agrees_step hx e).2) sound_start operations
  have hstart : contents ({} : Messages ι) = fun _ => none := rfl
  rw [← hstart, ← hrun, Option.map_map]
  refine Option.map_congr fun t ht => ?_
  have hsound := Run.exec_invariant hinvariant sound_start (Option.mem_def.mp ht)
  funext i
  rw [Function.comp_apply, contents, Option.map_map]
  refine Option.map_congr fun m hm => ?_
  rw [Function.comp_apply, hsound.size_eq (Option.mem_def.mp hm)]

end Messages

end IceBridge.Eddy
