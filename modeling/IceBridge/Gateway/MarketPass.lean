import IceBridge.Gateway.Market
import IceBridge.Gateway.Places
import Mathlib.Data.List.Induction

/-! The pass of `HeartCheck` over the market. It goes from the first to the last place the market
had at the start, while the listings that have expired leave it. -/

namespace IceBridge.Gateway

def MarketGoods.tick (value : MarketGoods) : MarketGoods :=
  { value with remainTime := value.remainTime - 60 }

namespace World

def withMarket (w : World) (l : List MarketGoods) : World := { w with gloabalMarket := l }

/-- The pass at place `j`. Past the end of the market there is nothing to read. -/
def checkGoods (keys : ℕ → String) (w : World) (j : ℕ) : Option World := do
  let value ← w.gloabalMarket[j]?
  let value := value.tick
  let w := w.withMarket (w.gloabalMarket.set j value)
  if value.remainTime < 0 then w.pushNotify value (keys j) else some w

/-- `BOOST_FOREACH` looks for the end once. The uuids are what `createRandom` would return. -/
def heartCheckMarket (w : World) (keys : ℕ → String) : Option World :=
  (List.range w.gloabalMarket.length).foldlM (checkGoods keys) w

variable {w t : World} {keys : ℕ → String} {e last : MarketGoods}

def OnlyLastExpires (w : World) : Prop :=
  ∀ j e, j + 1 < w.gloabalMarket.length → w.gloabalMarket[j]? = some e → 60 ≤ e.remainTime

def NewEmail (w t : World) (x : UInt32 × String) (sn : String) : Prop :=
  w.emailSale x.1 x.2 = none ∧
    ∃ email, t.emailSale x.1 x.2 = some email ∧ email.diamond ≤ 0 ∧ email.equip.equipSn = sn

structure Passed (w t : World) : Prop where
  market : t.gloabalMarket.Perm
    ((w.gloabalMarket.filter fun e => 60 ≤ e.remainTime).map MarketGoods.tick)
  mailed : ∀ e ∈ w.gloabalMarket, e.remainTime < 60 →
    ∃ key, w.NewEmail t (w.findUserUuid e.player, key) e.equipSn ∧
      ∀ x, w.NewEmail t x e.equipSn → x = (w.findUserUuid e.player, key)
  others : ∀ x : UInt32 × String, t.emailSale x.1 x.2 = w.emailSale x.1 x.2 ∨
    ∃ e ∈ w.gloabalMarket, e.remainTime < 60 ∧ w.NewEmail t x e.equipSn

/-! ## The listings that stay -/

theorem Indexed.withMarket {l : List MarketGoods} (hw : w.Indexed)
    (hl : l.map MarketGoods.equipSn = w.gloabalMarket.map MarketGoods.equipSn) :
    (w.withMarket l).Indexed := by
  unfold Indexed at hw ⊢
  rw [← hl] at hw
  exact hw

theorem checkGoods_stays (w : World) (keys : ℕ → String) (pre post : List MarketGoods)
    (he : 60 ≤ e.remainTime) :
    (w.withMarket (pre ++ e :: post)).checkGoods keys pre.length =
      some (w.withMarket (pre ++ e.tick :: post)) := by
  have htime : ¬ e.tick.remainTime < 0 := by
    unfold MarketGoods.tick
    dsimp only
    omega
  simp [checkGoods, withMarket, htime]

theorem foldlM_checkGoods_stay (keys : ℕ → String) {pre post : List MarketGoods}
    (hmarket : w.gloabalMarket = pre ++ post) (hpre : ∀ e ∈ pre, 60 ≤ e.remainTime) :
    (List.range pre.length).foldlM (checkGoods keys) w =
      some (w.withMarket (pre.map MarketGoods.tick ++ post)) := by
  -- the places before `e` are done, and `e` stands at the next one
  induction pre using List.reverseRecOn generalizing post with
  | nil =>
    rw [List.nil_append] at hmarket
    simp [withMarket, ← hmarket]
  | append_singleton pre e ih =>
    rw [List.append_assoc, List.singleton_append] at hmarket
    have hstart := ih hmarket fun d hd => hpre d (List.mem_append_left _ hd)
    have hstep := checkGoods_stays w keys (pre.map MarketGoods.tick) post (hpre e (by simp))
    rw [List.length_map] at hstep
    rw [List.length_append, List.length_singleton, List.range_succ, List.foldlM_append, hstart]
    simp [hstep]

/-! ## A listing that leaves -/

theorem checkGoods_expires (w : World) (keys : ℕ → String) (pre post : List MarketGoods)
    (he : e.remainTime < 60) :
    (w.withMarket (pre ++ e :: post)).checkGoods keys pre.length =
      (w.withMarket (pre ++ e.tick :: post)).pushNotify e.tick (keys pre.length) := by
  have htime : e.tick.remainTime < 0 := by
    unfold MarketGoods.tick
    dsimp only
    omega
  simp [checkGoods, withMarket, htime]

theorem length_delMarket_le (sn : String) :
    (w.delMarket sn).gloabalMarket.length ≤ w.gloabalMarket.length := by
  unfold delMarket
  split
  · exact le_rfl
  · split
    · split_ifs
      · exact Nat.zero_le _
      · simp
    · exact le_rfl

theorem Indexed.length_delMarket_lt (hw : w.Indexed) (he : e ∈ w.gloabalMarket) :
    (w.delMarket e.equipSn).gloabalMarket.length < w.gloabalMarket.length := by
  rw [(hw.delMarket e.equipSn).2.length_eq]
  apply List.length_filter_lt_length_iff_exists.mpr
  exact ⟨e, he, by simp⟩

theorem length_checkGoods_le {j : ℕ} (ht : w.checkGoods keys j = some t) :
    j < w.gloabalMarket.length ∧ t.gloabalMarket.length ≤ w.gloabalMarket.length := by
  obtain ⟨value, hvalue, ht⟩ := Option.bind_eq_some_iff.mp ht
  refine ⟨(List.getElem?_eq_some_iff.mp hvalue).1, ?_⟩
  dsimp only at ht
  split_ifs at ht
  · rw [gloabalMarket_pushNotify ht]
    refine (length_delMarket_le _).trans ?_
    simp [withMarket]
  · rw [← Option.some.inj ht]
    simp [withMarket]

theorem length_foldlM_checkGoods_le {js : List ℕ} (ht : js.foldlM (checkGoods keys) w = some t) :
    t.gloabalMarket.length ≤ w.gloabalMarket.length :=
  Run.foldlM_preserves (I := fun s _ => s.gloabalMarket.length ≤ w.gloabalMarket.length)
    (fun _ _ _ _ hs ht => (length_checkGoods_le ht).2.trans hs) le_rfl ht

theorem heartCheckMarket_eq_none (keys : ℕ → String) {pre post : List MarketGoods} (hw : w.Indexed)
    (hmarket : w.gloabalMarket = pre ++ e :: post) (hpre : ∀ e ∈ pre, 60 ≤ e.remainTime)
    (he : e.remainTime < 60) (hpost : post ≠ []) : w.heartCheckMarket keys = none := by
  rw [Option.eq_none_iff_forall_ne_some]
  intro t ht
  obtain ⟨m, hm⟩ : ∃ m, post.length = m + 1 :=
    Nat.exists_eq_succ_of_ne_zero fun hzero => hpost (List.length_eq_zero_iff.mp hzero)
  have hlength : w.gloabalMarket.length = pre.length + 1 + m + 1 := by
    rw [hmarket, List.length_append, List.length_cons, hm]
    omega
  unfold heartCheckMarket at ht
  rw [hlength, List.range_succ, List.foldlM_append, List.range_add, List.foldlM_append,
    List.range_succ, List.foldlM_append, foldlM_checkGoods_stay keys hmarket hpre] at ht
  obtain ⟨s, hs, hlast⟩ := Option.bind_eq_some_iff.mp ht
  obtain ⟨r, hr, hrest⟩ := Option.bind_eq_some_iff.mp hs
  have hexpires := checkGoods_expires w keys (pre.map MarketGoods.tick) post he
  rw [List.length_map] at hexpires
  have hsent : _ = some r := hexpires.symm.trans (by simpa using hr)
  have hend : s.checkGoods keys (pre.length + 1 + m) = some t := by
    simpa using hlast
  -- the market is shorter from here on, and the last place is looked at all the same
  have hticked : (w.withMarket (pre.map MarketGoods.tick ++ e.tick :: post)).Indexed := by
    apply hw.withMarket
    rw [hmarket]
    simp [MarketGoods.tick]
  have hshort := hticked.length_delMarket_lt (e := e.tick) (by simp [withMarket])
  rw [← gloabalMarket_pushNotify hsent] at hshort
  simp only [withMarket, List.length_append, List.length_map, List.length_cons, hm] at hshort
  have hs' := length_foldlM_checkGoods_le hrest
  have hbound := (length_checkGoods_le hend).1
  omega

/-! ## The whole pass -/

theorem pushNotify_eq (key : String) (hunused : w.emailSale (w.findUserUuid e.player) key = none) :
    ∃ email t, w.pushNotify e key = some t ∧ email.diamond ≤ 0 ∧
      email.equip.equipSn = e.equipSn ∧ t.emailSale = Function.update w.emailSale
        (w.findUserUuid e.player)
        (Function.update (w.emailSale (w.findUserUuid e.player)) key (some email)) := by
  have hkey : w.createEmailUuid (w.findUserUuid e.player) key = some key := by
    simp [createEmailUuid, hunused]
  cases ht : w.pushNotify e key with
  | none => simp [pushNotify, hkey] at ht
  | some t =>
    have hsent := ht
    simp only [pushNotify, hkey] at hsent
    obtain rfl := Option.some.inj hsent
    refine ⟨_, _, rfl, ?_, ?_, by rw [setEmailSale_emailSale, (delMarket_frame _).2.2.2.1]⟩
    · exact le_rfl
    · simp [EmailSale.written]

theorem Indexed.filter_last {l : List MarketGoods} (hw : w.Indexed)
    (hmarket : w.gloabalMarket = l ++ [e]) :
    (w.gloabalMarket.filter fun d => d.equipSn ≠ e.equipSn) = l := by
  have hnodup := Index.Indexes.nodup hw
  rw [hmarket, List.map_append, List.nodup_append] at hnodup
  have hother : ∀ d ∈ l, d.equipSn ≠ e.equipSn := fun d hd =>
    hnodup.2.2 _ (List.mem_map_of_mem hd) _ (by simp)
  rw [hmarket, List.filter_append, List.filter_eq_self.mpr fun d hd => decide_eq_true (hother d hd)]
  simp

theorem exists_first_expired (l : List MarketGoods) : (∀ e ∈ l, 60 ≤ e.remainTime) ∨
    ∃ pre e post, l = pre ++ e :: post ∧ (∀ d ∈ pre, 60 ≤ d.remainTime) ∧ e.remainTime < 60 := by
  induction l with
  | nil => exact .inl fun e he => absurd he List.not_mem_nil
  | cons d l ih =>
    by_cases hd : 60 ≤ d.remainTime
    · rcases ih with hall | ⟨pre, e, post, hl, hpre, he⟩
      · exact .inl (List.forall_mem_cons.mpr ⟨hd, hall⟩)
      · refine .inr ⟨d :: pre, e, post, ?_, List.forall_mem_cons.mpr ⟨hd, hpre⟩, he⟩
        rw [hl, List.cons_append]
    · exact .inr ⟨[], d, l, rfl, fun e he => absurd he List.not_mem_nil, not_le.mp hd⟩

theorem passed_of_stay (hall : ∀ e ∈ w.gloabalMarket, 60 ≤ e.remainTime) :
    ∃ t, w.heartCheckMarket keys = some t ∧ Passed w t := by
  have hpass := foldlM_checkGoods_stay keys (List.append_nil _).symm hall
  rw [List.append_nil] at hpass
  refine ⟨_, hpass, ?_, fun e he hlate => ?_, fun x => .inl rfl⟩
  · rw [List.filter_eq_self.mpr fun e he => decide_eq_true (hall e he)]
    exact List.Perm.refl _
  · have hstays := hall e he
    omega

theorem passed_of_last {pre : List MarketGoods} (hw : w.Indexed)
    (hkeys : ∀ j uuid, w.emailSale uuid (keys j) = none)
    (hmarket : w.gloabalMarket = pre ++ [last]) (hpre : ∀ e ∈ pre, 60 ≤ e.remainTime)
    (hlast : last.remainTime < 60) : ∃ t, w.heartCheckMarket keys = some t ∧ Passed w t := by
  -- the market when the last one is sent back
  set w' := w.withMarket (pre.map MarketGoods.tick ++ [last.tick]) with hw'
  have hindexed : w'.Indexed := by
    apply hw.withMarket
    rw [hmarket]
    simp [MarketGoods.tick]
  obtain ⟨email, t, ht, hdiamond, hsn, hmail⟩ := pushNotify_eq (w := w') (e := last.tick)
    (keys pre.length) (hkeys _ _)
  have hpass : w.heartCheckMarket keys = some t := by
    have hexpires := checkGoods_expires w keys (pre.map MarketGoods.tick) [] hlast
    rw [List.length_map] at hexpires
    rw [heartCheckMarket, hmarket, List.length_append, List.length_singleton, List.range_succ,
      List.foldlM_append, foldlM_checkGoods_stay keys hmarket hpre]
    simpa [hexpires] using ht
  have hgoods : t.gloabalMarket.Perm (pre.map MarketGoods.tick) := by
    rw [gloabalMarket_pushNotify ht]
    have hdel := (hindexed.delMarket last.tick.equipSn).2
    rwa [hindexed.filter_last rfl] at hdel
  have hnew : w.NewEmail t (w.findUserUuid last.player, keys pre.length) last.equipSn := by
    refine ⟨hkeys _ _, email, ?_, hdiamond, hsn⟩
    rw [hmail]
    simp [hw', withMarket, MarketGoods.tick]
  -- no other mailbox changes, which makes the email the only new one
  have hold : ∀ x, x ≠ (w.findUserUuid last.player, keys pre.length) →
      t.emailSale x.1 x.2 = w.emailSale x.1 x.2 := by
    rintro ⟨v, k⟩ hx
    rw [hmail]
    by_cases hv : v = w.findUserUuid last.player
    · have hk : k ≠ keys pre.length := by
        rintro rfl
        exact hx (by rw [hv])
      simp [hw', withMarket, MarketGoods.tick, hv, hk]
    · simp [hw', withMarket, MarketGoods.tick, hv]
  refine ⟨t, hpass, ?_, fun e he hlate => ?_, fun x => ?_⟩
  · rw [hmarket, List.filter_append, List.filter_eq_self.mpr fun e he => decide_eq_true (hpre e he)]
    simpa [not_le.mpr hlast] using hgoods
  · have hlastOne : e = last := by
      rw [hmarket] at he
      rcases List.mem_append.mp he with hin | hin
      · have hstays := hpre e hin
        omega
      · exact List.mem_singleton.mp hin
    rw [hlastOne]
    refine ⟨_, hnew, fun x hx => ?_⟩
    by_contra hne
    obtain ⟨hnone, email', hsome, -⟩ := hx
    rw [hold x hne, hnone] at hsome
    exact Option.some_ne_none _ hsome.symm
  · by_cases hx : x = (w.findUserUuid last.player, keys pre.length)
    · exact .inr ⟨last, by simp [hmarket], hlast, hx ▸ hnew⟩
    · exact .inl (hold x hx)

/-- The pass does what it is for exactly when no listing but the last expires. -/
theorem passed_iff (hw : w.Indexed) (hkeys : ∀ j uuid, w.emailSale uuid (keys j) = none) :
    (∃ t, w.heartCheckMarket keys = some t ∧ Passed w t) ↔ w.OnlyLastExpires := by
  rcases exists_first_expired w.gloabalMarket with hall | ⟨pre, e, post, hmarket, hpre, he⟩
  · exact iff_of_true (passed_of_stay hall) fun j e _ he => hall e (List.mem_of_getElem? he)
  by_cases hpost : post = []
  · subst hpost
    refine iff_of_true (passed_of_last hw hkeys hmarket hpre he) fun j d hj hd => ?_
    rw [hmarket, List.length_append, List.length_singleton] at hj
    rw [hmarket, List.getElem?_append_left (by omega)] at hd
    exact hpre d (List.mem_of_getElem? hd)
  · constructor
    · rintro ⟨t, ht, -⟩
      rw [heartCheckMarket_eq_none keys hw hmarket hpre he hpost] at ht
      exact absurd ht.symm (Option.some_ne_none t)
    · intro honly
      have hlength := List.length_pos_of_ne_nil hpost
      have hstays := honly pre.length e (by rw [hmarket]; simp; omega) (by simp [hmarket])
      omega

def dueListings (first second : Int) : World :=
  (World.setMarket {} ⟨"a", 5, "x", {}, first⟩).setMarket ⟨"b", 7, "y", {}, second⟩

theorem indexed_dueListings (first second : Int) : (dueListings first second).Indexed := by
  have hnew : "y" ∉ ["x"] := by decide
  exact Indexed.setMarket (Indexed.setMarket Index.indexes_nil List.not_mem_nil) hnew

theorem passed_iff_due : (∃ t, (dueListings 500 59).heartCheckMarket (fun _ => "email") = some t ∧
    Passed (dueListings 500 59) t) ↔ (dueListings 500 59).OnlyLastExpires :=
  passed_iff (indexed_dueListings 500 59) fun _ _ => rfl

/-- The first expires: the pass reads on where the second was. -/
theorem not_passed_due : ¬ ∀ (w : World) (keys : ℕ → String), w.Indexed →
    (∀ j uuid, w.emailSale uuid (keys j) = none) →
    ∃ t, w.heartCheckMarket keys = some t ∧ Passed w t := by
  intro h
  obtain ⟨t, ht, -⟩ := h (dueListings 59 500) (fun _ => "email") (indexed_dueListings 59 500)
    fun _ _ => rfl
  have hmarket : (dueListings 59 500).gloabalMarket =
      [] ++ ⟨"a", 5, "x", {}, 59⟩ :: [⟨"b", 7, "y", {}, 500⟩] := rfl
  have hnone := heartCheckMarket_eq_none (fun _ => "email") (indexed_dueListings 59 500) hmarket
    (fun e he => absurd he List.not_mem_nil) (by decide) (List.cons_ne_nil _ _)
  exact absurd (hnone.symm.trans ht) (Option.some_ne_none t).symm

end World

end IceBridge.Gateway
