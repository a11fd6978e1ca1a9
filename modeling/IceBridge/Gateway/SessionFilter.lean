import Mathlib.Data.Fin.VecNotation
import Mathlib.Data.Fintype.Basic

/-! Which addresses may connect (`SessionFilter.cpp`). The filter compares addresses as
`inet_addr` returns them, in network byte order, which on a little-endian host is the number
with the last octet highest. -/

namespace IceBridge.Gateway

structure IPv4 where
  a : UInt8
  b : UInt8
  c : UInt8
  d : UInt8
deriving DecidableEq, Repr

namespace IPv4

def octet (ip : IPv4) : Fin 4 → UInt8 := ![ip.a, ip.b, ip.c, ip.d]

def inetAddr (ip : IPv4) : ℕ :=
  ip.a.toNat + 256 * ip.b.toNat + 65536 * ip.c.toNat + 16777216 * ip.d.toNat

def number (ip : IPv4) : ℕ :=
  16777216 * ip.a.toNat + 65536 * ip.b.toNat + 256 * ip.c.toNat + ip.d.toNat

/-- In the first octet in which the two differ, that of `x` is the smaller one. -/
def FirstBelow (x y : IPv4) : Prop :=
  ∃ i, x.octet i < y.octet i ∧ ∀ j, j < i → x.octet j = y.octet j

def LastBelow (x y : IPv4) : Prop :=
  ∃ i, x.octet i < y.octet i ∧ ∀ j, i < j → x.octet j = y.octet j

instance (x y : IPv4) : Decidable (FirstBelow x y) :=
  inferInstanceAs (Decidable (∃ i, x.octet i < y.octet i ∧ ∀ j, j < i → x.octet j = y.octet j))

instance (x y : IPv4) : Decidable (LastBelow x y) :=
  inferInstanceAs (Decidable (∃ i, x.octet i < y.octet i ∧ ∀ j, i < j → x.octet j = y.octet j))

/-- The first octet in which the two differ says one order, and the last one the other. -/
def Crossed (x y : IPv4) : Prop := FirstBelow x y ∧ LastBelow y x ∨ FirstBelow y x ∧ LastBelow x y

end IPv4

structure IPRange where
  startIP : ℕ
  endIP : ℕ
deriving DecidableEq, Repr

structure SessionFilter where
  vectIPBlocked : List IPRange := []

namespace SessionFilter

def addIPRangeAccess (f : SessionFilter) (ipStart ipStop : IPv4) (bPermit : Bool) :
    SessionFilter :=
  if bPermit then f
  else { vectIPBlocked := f.vectIPBlocked ++ [⟨ipStart.inetAddr, ipStop.inetAddr⟩] }

def badIP : IPv4 × IPv4 := (⟨192, 168, 1, 2⟩, ⟨192, 168, 1, 9⟩)

def addBadIP (f : SessionFilter) : SessionFilter := f.addIPRangeAccess badIP.1 badIP.2 false

def blocking (ranges : List (IPv4 × IPv4)) : SessionFilter :=
  ranges.foldl (fun f r => f.addIPRangeAccess r.1 r.2 false) (addBadIP {})

def isAddressAllowed (f : SessionFilter) (ip : IPv4) : Bool :=
  !f.vectIPBlocked.any fun r => decide (ip.inetAddr ≤ r.endIP ∧ r.startIP ≤ ip.inetAddr)

def Refuses (ranges : List (IPv4 × IPv4)) (ip : IPv4) : Prop :=
  (blocking ranges).isAddressAllowed ip = false ↔
    ∃ r ∈ badIP :: ranges, r.1.number ≤ ip.number ∧ ip.number ≤ r.2.number

/-- By the first octet in which it differs from an end, the address is inside of it. -/
def HeldInFront (r : IPv4 × IPv4) (ip : IPv4) : Prop := ¬ ip.FirstBelow r.1 ∧ ¬ r.2.FirstBelow ip

/-- By the last octet in which it differs from an end, the address is inside of it. -/
def HeldAtBack (r : IPv4 × IPv4) (ip : IPv4) : Prop := ¬ ip.LastBelow r.1 ∧ ¬ r.2.LastBelow ip

def Uncrossed (r : IPv4 × IPv4) (ip : IPv4) : Prop := ¬ ip.Crossed r.1 ∧ ¬ r.2.Crossed ip

/-- A range whose ends the address does not cross holds it. Or of the ranges with an end that it
crosses, none holds it in front or at the back, or one does in front and one at the back. -/
def Evens (ranges : List (IPv4 × IPv4)) (ip : IPv4) : Prop :=
  (∃ r ∈ ranges, Uncrossed r ip ∧ HeldInFront r ip) ∨
    (∀ r ∈ ranges, ¬ Uncrossed r ip → ¬ HeldInFront r ip ∧ ¬ HeldAtBack r ip) ∨
    ((∃ r ∈ ranges, ¬ Uncrossed r ip ∧ HeldInFront r ip) ∧
      ∃ r ∈ ranges, ¬ Uncrossed r ip ∧ HeldAtBack r ip)

/-! ## The two orders -/

variable {ranges : List (IPv4 × IPv4)} {r : IPv4 × IPv4} {ip : IPv4}

theorem octets_lt (ip : IPv4) :
    ip.a.toNat < 256 ∧ ip.b.toNat < 256 ∧ ip.c.toNat < 256 ∧ ip.d.toNat < 256 :=
  ⟨ip.a.toNat_lt, ip.b.toNat_lt, ip.c.toNat_lt, ip.d.toNat_lt⟩

theorem firstBelow_iff (x y : IPv4) : x.FirstBelow y ↔ x.number < y.number := by
  have hx := octets_lt x
  have hy := octets_lt y
  unfold IPv4.FirstBelow IPv4.number
  simp [Fin.exists_fin_succ, Fin.forall_fin_succ, IPv4.octet, UInt8.lt_iff_toNat_lt,
    ← UInt8.toNat_inj]
  omega

theorem lastBelow_iff (x y : IPv4) : x.LastBelow y ↔ x.inetAddr < y.inetAddr := by
  have hx := octets_lt x
  have hy := octets_lt y
  unfold IPv4.LastBelow IPv4.inetAddr
  simp [Fin.exists_fin_succ, Fin.forall_fin_succ, IPv4.octet, UInt8.lt_iff_toNat_lt,
    ← UInt8.toNat_inj]
  omega

theorem number_eq_iff (x y : IPv4) : x.number = y.number ↔ x.inetAddr = y.inetAddr := by
  have hx := octets_lt x
  have hy := octets_lt y
  unfold IPv4.number IPv4.inetAddr
  omega

/-- Where the octets do not cross, both orders are one. -/
theorem firstBelow_iff_lastBelow {x y : IPv4} (h : ¬ x.Crossed y) :
    x.FirstBelow y ↔ x.LastBelow y := by
  have heq := number_eq_iff x y
  unfold IPv4.Crossed at h
  simp only [firstBelow_iff, lastBelow_iff] at h ⊢
  omega

theorem heldInFront_iff_heldAtBack (h : Uncrossed r ip) : HeldInFront r ip ↔ HeldAtBack r ip :=
  and_congr (not_congr (firstBelow_iff_lastBelow h.1)) (not_congr (firstBelow_iff_lastBelow h.2))

theorem heldInFront_iff (r : IPv4 × IPv4) (ip : IPv4) :
    HeldInFront r ip ↔ r.1.number ≤ ip.number ∧ ip.number ≤ r.2.number := by
  unfold HeldInFront
  rw [firstBelow_iff, firstBelow_iff, Nat.not_lt, Nat.not_lt]

theorem heldAtBack_iff (r : IPv4 × IPv4) (ip : IPv4) :
    HeldAtBack r ip ↔ r.1.inetAddr ≤ ip.inetAddr ∧ ip.inetAddr ≤ r.2.inetAddr := by
  unfold HeldAtBack
  rw [lastBelow_iff, lastBelow_iff, Nat.not_lt, Nat.not_lt]

theorem vectIPBlocked_blocking (ranges : List (IPv4 × IPv4)) :
    (blocking ranges).vectIPBlocked =
      (badIP :: ranges).map fun r => ⟨r.1.inetAddr, r.2.inetAddr⟩ := by
  have hfold : ∀ f : SessionFilter,
      (ranges.foldl (fun f r => f.addIPRangeAccess r.1 r.2 false) f).vectIPBlocked =
        f.vectIPBlocked ++ ranges.map fun r => ⟨r.1.inetAddr, r.2.inetAddr⟩ := by
    induction ranges with
    | nil => simp
    | cons r ranges ih =>
      intro f
      rw [List.foldl_cons, ih]
      simp [addIPRangeAccess]
  rw [blocking, hfold]
  rfl

/-- The filter goes by the last octet in which addresses differ. -/
theorem isAddressAllowed_eq_false_iff :
    (blocking ranges).isAddressAllowed ip = false ↔ ∃ r ∈ badIP :: ranges, HeldAtBack r ip := by
  rw [isAddressAllowed, vectIPBlocked_blocking, Bool.not_eq_false', List.any_map, List.any_eq_true]
  refine exists_congr fun r => and_congr_right fun _ => ?_
  rw [heldAtBack_iff, Function.comp_apply, decide_eq_true_eq]
  exact and_comm

theorem evens_iff (ranges : List (IPv4 × IPv4)) (ip : IPv4) : Evens ranges ip ↔
    ((∃ r ∈ ranges, HeldAtBack r ip) ↔ ∃ r ∈ ranges, HeldInFront r ip) := by
  constructor
  · rintro (⟨r, hr, huncrossed, hfront⟩ | hnone | ⟨⟨r, hr, -, hfront⟩, r', hr', -, hback⟩)
    · exact iff_of_true ⟨r, hr, (heldInFront_iff_heldAtBack huncrossed).mp hfront⟩ ⟨r, hr, hfront⟩
    · refine exists_congr fun r => and_congr_right fun hr => ?_
      by_cases huncrossed : Uncrossed r ip
      · exact (heldInFront_iff_heldAtBack huncrossed).symm
      · obtain ⟨hfront, hback⟩ := hnone r hr huncrossed
        exact iff_of_false hback hfront
    · exact iff_of_true ⟨r', hr', hback⟩ ⟨r, hr, hfront⟩
  · intro h
    by_cases hsome : ∃ r ∈ ranges, HeldInFront r ip
    · obtain ⟨r', hr', hback⟩ := h.mpr hsome
      obtain ⟨r, hr, hfront⟩ := hsome
      by_cases huncrossed : Uncrossed r ip
      · exact .inl ⟨r, hr, huncrossed, hfront⟩
      by_cases huncrossed' : Uncrossed r' ip
      · exact .inl ⟨r', hr', huncrossed', (heldInFront_iff_heldAtBack huncrossed').mpr hback⟩
      exact .inr (.inr ⟨⟨r, hr, huncrossed, hfront⟩, r', hr', huncrossed', hback⟩)
    · exact .inr (.inl fun r hr _ =>
        ⟨fun hfront => hsome ⟨r, hr, hfront⟩, fun hback => hsome (h.mp ⟨r, hr, hback⟩)⟩)

theorem refused_of_last_octet (hlow : 3 ≤ ip.d) (hhigh : ip.d ≤ 8) :
    (blocking ranges).isAddressAllowed ip = false := by
  rw [isAddressAllowed_eq_false_iff]
  refine ⟨badIP, List.mem_cons_self, (heldAtBack_iff _ _).mpr ?_⟩
  have hip := octets_lt ip
  have hlow' : 3 ≤ ip.d.toNat := UInt8.le_iff_toNat_le.mp hlow
  have hhigh' : ip.d.toNat ≤ 8 := UInt8.le_iff_toNat_le.mp hhigh
  have hstart : badIP.1.inetAddr = 192 + 256 * 168 + 65536 * 1 + 16777216 * 2 := rfl
  have hstop : badIP.2.inetAddr = 192 + 256 * 168 + 65536 * 1 + 16777216 * 9 := rfl
  rw [hstart, hstop, IPv4.inetAddr]
  omega

end SessionFilter

end IceBridge.Gateway
