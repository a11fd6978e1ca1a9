import IceBridge.Gateway.Goods
import IceBridge.Lib.Index
import IceBridge.Lib.Keyspace
import IceBridge.Lib.Text

/-! The market: the listings of all players and the index of them. The gateway keeps a hash of
each in redis, and reads the hashes when it starts. -/

namespace IceBridge.Gateway

abbrev MarketHash := String → Option Text

namespace MarketHash

def number (hash : MarketHash) (field : String) (default : Int) : Int :=
  ((hash field).map Text.atoi).getD default

def listing (hash : MarketHash) (start : Int) : Option MarketGoods := do
  let player ← hash "player"
  let equipSn ← hash "equip_sn"
  some {
    player := String.ofList player
    remainTime := max 0 (86400 - (start - hash.number "remain_time" 0))
    diamondCost := hash.number "diamond_cost" 1
    equipSn := String.ofList equipSn
    attr := {
      part := hash.number "part" 1
      quality := hash.number "quality" 1
      level := hash.number "level" 1
      attr1Type := hash.number "attr1_type" 0
      attr1Value := hash.number "attr1_value" 0
      attr2Type := hash.number "attr2_type" 0
      attr2Value := hash.number "attr2_value" 0
      extral1Type := hash.number "extral1_type" 0
      extral1Value := hash.number "extral1_value" 0
      extral2Type := hash.number "extral2_type" 0
      extral2Value := hash.number "extral2_value" 0 } }

def hmset (hash : MarketHash) (fields : List (String × Text)) : MarketHash :=
  fields.foldl (fun hash field => Function.update hash field.1 (some field.2)) hash

end MarketHash

def MarketGoods.fields (res : MarketGoods) : List (String × Text) := [
  ("player", res.player.toList),
  ("remain_time", Text.formatInt res.remainTime),
  ("diamond_cost", Text.formatInt res.diamondCost),
  ("equip_sn", res.equipSn.toList),
  ("part", Text.formatInt res.attr.part),
  ("quality", Text.formatInt res.attr.quality),
  ("level", Text.formatInt res.attr.level),
  ("attr1_type", Text.formatInt res.attr.attr1Type),
  ("attr1_value", Text.formatInt res.attr.attr1Value),
  ("attr2_type", Text.formatInt res.attr.attr2Type),
  ("attr2_value", Text.formatInt res.attr.attr2Value),
  ("extral1_type", Text.formatInt res.attr.extral1Type),
  ("extral1_value", Text.formatInt res.attr.extral1Value),
  ("extral2_type", Text.formatInt res.attr.extral2Type),
  ("extral2_value", Text.formatInt res.attr.extral2Value)]

def marketKey (sn : String) : String := "market#" ++ sn

structure MarketServer where
  world : World := {}
  redis : Keyspace String MarketHash := .empty

inductive MarketEvent
  | setMarket (res : MarketGoods)
  | delMarket (sn : String)
  /-- The gateway starts at a time: the reply to `keys market#*` names the hashes in any order. -/
  | getMarketList (order : List String) (start : Int)

namespace MarketServer

def getMarketList (s : MarketServer) (order : List String) (start : Int) : World :=
  order.foldl (fun w key =>
    match (s.redis.find key).bind fun hash => hash.listing start with
    | some res => w.setMarket res
    | none => w) s.world

/-- In redis the remaining time is the one of `res`, which is when the sale began. -/
def setMarket (s : MarketServer) (res : MarketGoods) : MarketServer :=
  let key := marketKey res.equipSn
  let hash := (s.redis.find key).getD fun _ => none
  { world := s.world.setMarket { res with remainTime := 86400 }
    redis := s.redis.set key (hash.hmset res.fields) }

def delMarket (s : MarketServer) (sn : String) : MarketServer :=
  match s.world.marketIndex sn with
  | none => s
  | some i =>
    if i < s.world.gloabalMarket.length then
      { world := s.world.delMarket sn, redis := s.redis.del (marketKey sn) }
    else s

def restart (s : MarketServer) : MarketServer :=
  { s with world := { s.world with gloabalMarket := [], marketIndex := fun _ => none } }

def start (s : MarketServer) (order : List String) (start : Int) : MarketServer :=
  { s with world := s.restart.getMarketList order start }

def step (s : MarketServer) : MarketEvent → Option MarketServer
  | .setMarket res => some (s.setMarket res)
  | .delMarket sn => some (s.delMarket sn)
  | .getMarketList order now => if order.Perm s.redis.keys then some (s.start order now) else none

end MarketServer

namespace World
variable {w t : World} {sn key : String} {e : MarketGoods}

theorem gloabalMarket_pushNotify (ht : w.pushNotify e key = some t) :
    t.gloabalMarket = (w.delMarket e.equipSn).gloabalMarket := by
  obtain ⟨key', -, ht⟩ := Option.bind_eq_some_iff.mp ht
  rw [← Option.some.inj ht]
  exact (setEmailSale_fields _ _ _).1

/-- The index and the market are inverse to each other: it tells where each serial number is,
and knows of no others. -/
def Indexed (w : World) : Prop :=
  Index.Indexes (w.gloabalMarket.map MarketGoods.equipSn) w.marketIndex

def listing (w : World) (sn : String) : Option MarketGoods :=
  (w.marketIndex sn).bind fun i => w.gloabalMarket[i]?

theorem Indexed.of_eq (hw : w.Indexed) (hmarket : t.gloabalMarket = w.gloabalMarket)
    (hindex : t.marketIndex = w.marketIndex) : t.Indexed := by
  unfold Indexed
  rw [hmarket, hindex]
  exact hw

theorem Indexed.index_eq (hw : w.Indexed) {i : ℕ} (he : w.gloabalMarket[i]? = some e) :
    w.marketIndex e.equipSn = some i := by
  rw [hw e.equipSn i, List.getElem?_map, he]
  rfl

theorem Indexed.listing_iff (hw : w.Indexed) :
    w.listing sn = some e ↔ e ∈ w.gloabalMarket ∧ e.equipSn = sn := by
  unfold listing
  rw [Option.bind_eq_some_iff]
  constructor
  · rintro ⟨i, hi, he⟩
    have hsn := (hw sn i).mp hi
    rw [List.getElem?_map, he] at hsn
    exact ⟨List.mem_of_getElem? he, Option.some.inj hsn⟩
  · rintro ⟨hmem, rfl⟩
    obtain ⟨i, hi⟩ := List.getElem?_of_mem hmem
    exact ⟨i, hw.index_eq hi, hi⟩

theorem Indexed.index_of_listing (hw : w.Indexed) (he : w.listing sn = some e) :
    ∃ i, w.marketIndex sn = some i ∧ w.gloabalMarket[i]? = some e ∧ e.equipSn = sn := by
  obtain ⟨i, hi, hlisted⟩ := Option.bind_eq_some_iff.mp he
  exact ⟨i, hi, hlisted, (hw.listing_iff.mp he).2⟩

theorem Indexed.setMarket (hw : w.Indexed)
    (hnew : e.equipSn ∉ w.gloabalMarket.map MarketGoods.equipSn) : (w.setMarket e).Indexed := by
  have hpush := Index.Indexes.push hw hnew
  rw [List.length_map] at hpush
  unfold Indexed World.setMarket
  rw [List.map_append]
  exact hpush

theorem Indexed.delMarket_eq (hw : w.Indexed) {i : ℕ} (hi : w.marketIndex sn = some i)
    (hmarket : t.gloabalMarket = w.gloabalMarket) (hindex : t.marketIndex = w.marketIndex) :
    ∃ last, w.gloabalMarket[w.gloabalMarket.length - 1]? = some last ∧
      i < w.gloabalMarket.length ∧
      t.delMarket sn = { t with
        gloabalMarket := Index.moveLast w.gloabalMarket i last
        marketIndex :=
          Function.update (Function.update w.marketIndex last.equipSn (some i)) sn none } := by
  have hsn := (hw sn i).mp hi
  rw [List.getElem?_map, Option.map_eq_some_iff] at hsn
  obtain ⟨e, he, hsn⟩ := hsn
  have hlt := (List.getElem?_eq_some_iff.mp he).1
  have hne : w.gloabalMarket ≠ [] := List.ne_nil_of_length_pos (by omega)
  have hlast : w.gloabalMarket.getLast? = some (w.gloabalMarket.getLast hne) :=
    List.getLast?_eq_some_getLast hne
  refine ⟨w.gloabalMarket.getLast hne, List.getLast?_eq_getElem? ▸ hlast, hlt, ?_⟩
  -- `t` may differ from `w` in all but the market and its index
  unfold World.delMarket
  simp only [hmarket, hindex, hi, hlast, hlt, decide_true]
  split_ifs with hone
  · obtain ⟨e', hl⟩ := List.length_eq_one_iff.mp hone
    have hi0 : i = 0 := by omega
    subst hi0
    have hee : e' = e := by simpa [hl] using he
    subst hee
    -- the index knew of no other serial number
    have honly : (fun _ => none) =
        Function.update (Function.update w.marketIndex e'.equipSn (some 0)) sn none := by
      funext sn'
      by_cases hsn' : sn' = sn
      · rw [hsn', Function.update_self]
      · rw [Function.update_of_ne hsn', hsn, Function.update_of_ne hsn']
        symm
        rw [Option.eq_none_iff_forall_ne_some]
        intro j hj
        have hheld := (hw sn' j).mp hj
        cases j with
        | zero => exact hsn' (by simpa [hl, hsn, eq_comm] using hheld)
        | succ j => simp [hl] at hheld
    simp [hl, honly, Index.moveLast]
  · rfl

theorem delMarket_of_none (hsn : w.marketIndex sn = none) : w.delMarket sn = w := by
  unfold delMarket
  rw [hsn]

theorem Indexed.notMem_of_none (hw : w.Indexed) (hsn : w.marketIndex sn = none) :
    ∀ e ∈ w.gloabalMarket, e.equipSn ≠ sn := by
  intro e he heq
  have hlisted := hw.listing_iff.mpr ⟨he, heq⟩
  rw [listing, hsn] at hlisted
  exact Option.some_ne_none e hlisted.symm

theorem Indexed.delMarket (hw : w.Indexed) (sn : String) : (w.delMarket sn).Indexed ∧
    (w.delMarket sn).gloabalMarket.Perm (w.gloabalMarket.filter fun e => e.equipSn ≠ sn) := by
  cases hi : w.marketIndex sn with
  | none =>
    rw [delMarket_of_none hi]
    refine ⟨hw, List.Perm.of_eq ?_⟩
    symm
    rw [List.filter_eq_self]
    exact fun e he => decide_eq_true (hw.notMem_of_none hi e he)
  | some i =>
    have hsn := (hw sn i).mp hi
    obtain ⟨last, hlast, hlt, hdel⟩ := hw.delMarket_eq (t := w) hi rfl rfl
    have hlast' : (w.gloabalMarket.map MarketGoods.equipSn)[(w.gloabalMarket.map
        MarketGoods.equipSn).length - 1]? = some last.equipSn := by
      rw [List.getElem?_map, List.length_map, hlast]
      rfl
    rw [hdel]
    constructor
    · have hremove := Index.Indexes.remove hw hsn hlast'
      unfold Indexed
      rw [Index.map_moveLast]
      exact hremove
    · rw [List.getElem?_map, Option.map_eq_some_iff] at hsn
      obtain ⟨e, he, rfl⟩ := hsn
      exact Index.perm_filter_moveLast (Index.Indexes.nodup hw) he hlast

theorem Indexed.listing_delMarket (hw : w.Indexed) (k : String) :
    (w.delMarket sn).listing k = if k = sn then none else w.listing k := by
  obtain ⟨hdel, hperm⟩ := hw.delMarket sn
  apply Option.ext
  intro e
  rw [hdel.listing_iff, hperm.mem_iff, List.mem_filter, decide_eq_true_iff]
  split_ifs with hk
  · -- the one that was asked for is not in what is left
    constructor
    · rintro ⟨⟨-, hne⟩, rfl⟩
      exact absurd hk hne
    · exact False.elim
  · rw [hw.listing_iff]
    constructor
    · rintro ⟨⟨hmem, -⟩, heq⟩
      exact ⟨hmem, heq⟩
    · rintro ⟨hmem, rfl⟩
      exact ⟨⟨hmem, hk⟩, rfl⟩

end World

namespace MarketServer
variable {s t : MarketServer}

theorem delMarket_world (sn : String) : (s.delMarket sn).world = s.world.delMarket sn := by
  unfold delMarket
  cases hi : s.world.marketIndex sn with
  | none => exact (World.delMarket_of_none hi).symm
  | some i =>
    by_cases hlt : i < s.world.gloabalMarket.length
    · simp only [hlt, if_true]
    · simp only [hlt, if_false]
      unfold World.delMarket
      rw [hi]
      cases hlast : s.world.gloabalMarket.getLast? <;> simp [hlt]

def Keyed (s : MarketServer) : Prop :=
  ∀ key hash sn, s.redis.find key = some hash → hash "equip_sn" = some sn →
    key = marketKey (String.ofList sn)

theorem keyed_empty (w : World) : ({ world := w } : MarketServer).Keyed := by
  intro key hash sn hfind
  exact absurd hfind (by simp)

theorem hmset_equipSn (hash : MarketHash) (res : MarketGoods) :
    hash.hmset res.fields "equip_sn" = some res.equipSn.toList := by
  simp [MarketHash.hmset, MarketGoods.fields]

/-- The gateway reads back what it has written; what is left of the day is counted anew. -/
theorem listing_hmset (hash : MarketHash) (res : MarketGoods) (now : Int) :
    (hash.hmset res.fields).listing now =
      some { res with remainTime := max 0 (86400 - (now - res.remainTime)) } := by
  simp [MarketHash.listing, MarketHash.number, MarketHash.hmset, MarketGoods.fields,
    Text.atoi_formatInt]

theorem Keyed.setMarket (hs : s.Keyed) (res : MarketGoods) : (s.setMarket res).Keyed := by
  intro key hash sn hfind hsn
  change Function.update s.redis.find (marketKey res.equipSn) (some _) key = some hash at hfind
  rw [Function.update_apply] at hfind
  split_ifs at hfind with hkey
  · obtain rfl := Option.some.inj hfind
    rw [hmset_equipSn] at hsn
    rw [hkey, ← Option.some.inj hsn, String.ofList_toList]
  · exact hs key hash sn hfind hsn

theorem Keyed.delMarket (hs : s.Keyed) (sn : String) : (s.delMarket sn).Keyed := by
  unfold MarketServer.delMarket
  cases s.world.marketIndex sn with
  | none => exact hs
  | some i =>
    dsimp only
    split_ifs
    · intro key hash sn' hfind hsn
      change Function.update s.redis.find (marketKey sn) none key = some hash at hfind
      rw [Function.update_apply] at hfind
      split_ifs at hfind
      exact hs key hash sn' hfind hsn
    · exact hs

theorem listing_equipSn {hash : MarketHash} {now : Int} {res : MarketGoods}
    (hres : hash.listing now = some res) :
    ∃ sn, hash "equip_sn" = some sn ∧ res.equipSn = String.ofList sn := by
  obtain ⟨player, -, hres⟩ := Option.bind_eq_some_iff.mp hres
  obtain ⟨sn, hsn, hres⟩ := Option.bind_eq_some_iff.mp hres
  exact ⟨sn, hsn, by rw [← Option.some.inj hres]⟩

theorem Keyed.indexed_getMarketList (hs : s.Keyed) (now : Int) {order : List String}
    (hnodup : order.Nodup) (hw : s.world.Indexed)
    (hread : ∀ e ∈ s.world.gloabalMarket, marketKey e.equipSn ∉ order) :
    (s.getMarketList order now).Indexed := by
  unfold getMarketList
  generalize s.world = w at hw hread
  induction order generalizing w with
  | nil => exact hw
  | cons key order ih =>
    obtain ⟨hkey, hnodup⟩ := List.nodup_cons.mp hnodup
    rw [List.foldl_cons]
    cases hres : (s.redis.find key).bind fun hash => hash.listing now with
    | none => exact ih hnodup w hw fun e he hin => hread e he (List.mem_cons_of_mem key hin)
    | some res =>
      obtain ⟨hash, hfind, hlisting⟩ := Option.bind_eq_some_iff.mp hres
      obtain ⟨sn, hsn, hequip⟩ := listing_equipSn hlisting
      have hmarket : marketKey res.equipSn = key := by
        rw [hequip]
        exact (hs key hash sn hfind hsn).symm
      -- a listing with the same serial number would have been read from the same key
      have hnew : res.equipSn ∉ w.gloabalMarket.map MarketGoods.equipSn := by
        intro hin
        obtain ⟨e, he, heq⟩ := List.mem_map.mp hin
        apply hread e he
        rw [heq, hmarket]
        exact List.mem_cons_self
      refine ih hnodup _ (hw.setMarket hnew) fun e he hin => ?_
      rcases List.mem_append.mp he with he | he
      · exact hread e he (List.mem_cons_of_mem key hin)
      · rw [List.mem_singleton.mp he, hmarket] at hin
        exact hkey hin

theorem Keyed.indexed_start (hs : s.Keyed) {order : List String}
    (horder : order.Perm s.redis.keys) (now : Int) : (s.start order now).world.Indexed := by
  have hnodup := horder.nodup_iff.mpr s.redis.nodup
  exact Keyed.indexed_getMarketList (s := s.restart) hs now hnodup Index.indexes_nil
    fun e he => absurd he List.not_mem_nil

def Unlisted (s : MarketServer) : MarketEvent → Prop
  | .setMarket res => res.equipSn ∉ s.world.gloabalMarket.map MarketGoods.equipSn
  | _ => True

/-- What a deletion takes out: the listing with the serial number, if there is one, and no other. -/
def Deletes (s : MarketServer) : MarketEvent → Prop
  | .delMarket sn =>
    (s.delMarket sn).world.gloabalMarket.Perm
      (s.world.gloabalMarket.filter fun e => e.equipSn ≠ sn) ∧
    ∀ k, (s.delMarket sn).world.listing k = if k = sn then none else s.world.listing k
  | _ => True

structure Kept (s : MarketServer) : Prop where
  keyed : s.Keyed
  indexed : s.world.Indexed

theorem Kept.step {e : MarketEvent} (hs : s.Kept) (hunlisted : s.Unlisted e)
    (ht : s.step e = some t) : t.Kept := by
  cases e with
  | setMarket res =>
    obtain rfl := Option.some.inj ht
    exact ⟨hs.keyed.setMarket res, hs.indexed.setMarket hunlisted⟩
  | delMarket sn =>
    obtain rfl := Option.some.inj ht
    refine ⟨hs.keyed.delMarket sn, ?_⟩
    rw [delMarket_world]
    exact (hs.indexed.delMarket sn).1
  | getMarketList order now =>
    simp only [MarketServer.step] at ht
    split_ifs at ht with horder
    obtain rfl := Option.some.inj ht
    exact ⟨hs.keyed, hs.keyed.indexed_start horder now⟩

theorem Kept.deletes (hs : s.Kept) (e : MarketEvent) : s.Deletes e := by
  cases e with
  | delMarket sn =>
    show (s.delMarket sn).world.gloabalMarket.Perm _ ∧ _
    rw [delMarket_world]
    exact ⟨(hs.indexed.delMarket sn).2, hs.indexed.listing_delMarket⟩
  | _ => trivial

/-- From the start of the gateway on, whatever is listed and deleted and however often it starts
again: the index is that of the market, and a deletion takes out what it names. -/
theorem indexed_run (hs : s.Keyed) {order : List String} (horder : order.Perm s.redis.keys)
    (now : Int) {es : List MarketEvent}
    (hunlisted : Run.EachStep step Unlisted (s.start order now) es) :
    Run.Always step (fun t => t.world.Indexed) (s.start order now) es ∧
      Run.EachStep step Deletes (s.start order now) es := by
  have hkept : (s.start order now).Kept := ⟨hs, hs.indexed_start horder now⟩
  have hstep : ∀ s e t, Kept s → Unlisted s e → step s e = some t → Kept t :=
    fun s e t hs hu ht => hs.step hu ht
  constructor
  · exact (Run.always_of_eachStep hstep hkept hunlisted).mono fun t ht => ht.indexed
  · exact hunlisted.of_kept hstep (fun s e hs _ => hs.deletes e) hkept

theorem indexed_run_two : Run.Always step (fun t => t.world.Indexed) (start {} [] 0)
      [.setMarket ⟨"a", 5, "x", {}, 0⟩, .setMarket ⟨"b", 7, "y", {}, 0⟩, .delMarket "x",
        .delMarket "z"] ∧
    Run.EachStep step Deletes (start {} [] 0)
      [.setMarket ⟨"a", 5, "x", {}, 0⟩, .setMarket ⟨"b", 7, "y", {}, 0⟩, .delMarket "x",
        .delMarket "z"] := by
  refine indexed_run (keyed_empty {}) (List.Perm.refl []) 0 ?_
  intro t ht
  obtain rfl := Option.some.inj ht
  refine ⟨List.not_mem_nil, fun t ht => ?_⟩
  obtain rfl := Option.some.inj ht
  have hnew : "y" ∉ ["x"] := by decide
  exact ⟨hnew, fun _ _ => ⟨trivial, fun _ _ => ⟨trivial, trivial⟩⟩⟩

end MarketServer

end IceBridge.Gateway
