import IceBridge.Army.CampQueue
import Mathlib.Data.List.Nodup

/-! Whose camps a player loads. The constructor of `ArmysBuildQueue` asks for the keys that
match `camp#uid*`, which are the player's own exactly when no other player's number begins
with the digits of `uid`. -/

namespace IceBridge.Army
open Text

def CampName := { name : Text // ∀ c ∈ name, c ≠ ' ' ∧ c ≠ '%' }

structure CampRecord where
  uid : UInt32
  whichCamp : CampName
  isoTime : Text
  isBlock : Bool
  armysQueue : List SoldierInfo

namespace CampRecord

def key (r : CampRecord) : Text := campKey r.uid r.whichCamp.val

def value (r : CampRecord) : List Text := writeIntoRedis r.isoTime r.isBlock r.armysQueue

end CampRecord

/-- The camps in Redis, in the order KEYS returns them. -/
structure CampStore where
  records : List CampRecord
  nodup : (records.map CampRecord.key).Nodup

namespace CampStore

def keys (start : Text) (s : CampStore) : List Text :=
  (s.records.map CampRecord.key).filter fun key => start.isPrefixOf key

def lrange (key : Text) (s : CampStore) : List Text :=
  ((s.records.find? fun r => r.key = key).map CampRecord.value).getD []

def ownedBy (uid : UInt32) (s : CampStore) : List CampRecord :=
  s.records.filter fun r => r.uid = uid

end CampStore

def printed (uid : UInt32) : Text := formatInt uid.toInt32.toInt

def ArmysBuildQueue.new (arms : Arms) (fromIsoString : Text → Int) (clock : Text → Int)
    (uid : UInt32) (army : BuildedArmy) (s : CampStore) : ArmysBuildQueue :=
  (s.keys ("camp#".toList ++ printed uid)).foldl
    (fun q key => newTimerQueueFromRedis arms fromIsoString (clock key) key (s.lrange key) q)
    { army := army }

/-! ## Which keys match -/

theorem matches_iff (uid : UInt32) (r : CampRecord) :
    ("camp#".toList ++ printed uid).isPrefixOf r.key ↔ printed uid <+: printed r.uid := by
  rw [List.isPrefixOf_iff_prefix, CampRecord.key, campKey, List.prefix_append_right_inj]
  exact isPrefix_append_cons (sharp_notMem_formatInt _)

namespace CampStore
variable {uid : UInt32} {s t : CampStore}

theorem keys_eq (uid : UInt32) (s : CampStore) :
    s.keys ("camp#".toList ++ printed uid) =
      (s.records.filter fun r => printed uid <+: printed r.uid).map CampRecord.key := by
  rw [keys, List.filter_map]
  congr 1
  apply List.filter_congr
  intro r _
  rw [Bool.eq_iff_iff]
  simpa using matches_iff uid r

theorem lrange_key {r : CampRecord} (hr : r ∈ s.records) : s.lrange r.key = r.value := by
  have hfind : s.records.find? (fun x => x.key = r.key) = some r := by
    have hnodup := s.nodup
    rcases h : s.records.find? (fun x => x.key = r.key) with _ | x
    · have := List.find?_eq_none.mp h r hr
      simp at this
    · have hkey : x.key = r.key := by simpa using List.find?_some h
      have hx : x = r := List.inj_on_of_nodup_map hnodup (List.mem_of_find?_eq_some h) hr hkey
      exact h.trans (congrArg some hx)
  rw [lrange, hfind]
  rfl

def Within (uid : UInt32) (others : Set UInt32) (s : CampStore) : Prop :=
  ∀ r ∈ s.records, r.uid = uid ∨ r.uid ∈ others

def Apart (uid : UInt32) (others : Set UInt32) : Prop :=
  ∀ v ∈ others, v ≠ uid → ¬ printed uid <+: printed v

theorem filter_prefix_eq {others : Set UInt32} (h : Apart uid others) (hs : s.Within uid others) :
    (s.records.filter fun r => printed uid <+: printed r.uid) = s.ownedBy uid := by
  apply List.filter_congr
  intro r hr
  rw [decide_eq_decide]
  refine ⟨fun hpre => ?_, fun heq => heq ▸ List.prefix_rfl⟩
  by_contra hne
  rcases hs r hr with heq | hother
  · exact hne heq
  · exact h r.uid hother hne hpre

end CampStore

section
variable {arms : Arms} {fromIsoString clock : Text → Int} {uid : UInt32} {army : BuildedArmy}
  {others : Set UInt32} {s t : CampStore}
open CampStore

theorem new_eq : ArmysBuildQueue.new arms fromIsoString clock uid army s =
    (s.records.filter fun r => printed uid <+: printed r.uid).foldl
      (fun q r => newTimerQueueFromRedis arms fromIsoString (clock r.key) r.key r.value q)
      { army := army } := by
  rw [ArmysBuildQueue.new, keys_eq, List.foldl_map]
  apply List.foldl_ext
  intro q r hr
  rw [lrange_key (List.mem_of_mem_filter hr)]

/-- A camp that was written with a soldier in its queue appears when it is loaded. -/
theorem campQueue_isSome_of_written {key whichCamp isoTime : Text} {isBlock : Bool}
    {e : SoldierInfo} {now : Int} {q : ArmysBuildQueue} (hkey : afterLast '#' key = whichCamp)
    (h : whichCamp ≠ []) :
    ((newTimerQueueFromRedis arms fromIsoString now key (writeIntoRedis isoTime isBlock [e])
      q).campQueue whichCamp).isSome := by
  simp [newTimerQueueFromRedis, writeIntoRedis, hkey, h]

def oneCamp (v : UInt32) : CampStore where
  records := [⟨v, ⟨['a'], by simp⟩, [], false, [⟨1, 1, 1⟩]⟩]
  nodup := List.nodup_singleton _

/-- The camps, soldiers and timers loaded for `uid` do not depend on the other players'
camps. -/
def Unaffected (arms : Arms) (fromIsoString clock : Text → Int) (army : BuildedArmy)
    (uid : UInt32) (others : Set UInt32) : Prop :=
  ∀ s t : CampStore, s.Within uid others → t.Within uid others → s.ownedBy uid = t.ownedBy uid →
    ArmysBuildQueue.new arms fromIsoString clock uid army s =
      ArmysBuildQueue.new arms fromIsoString clock uid army t

def ReadsOwn (uid : UInt32) (others : Set UInt32) : Prop :=
  ∀ s : CampStore, s.Within uid others →
    s.keys ("camp#".toList ++ printed uid) = (s.ownedBy uid).map CampRecord.key

theorem within_oneCamp {v : UInt32} (hv : v ∈ others) : (oneCamp v).Within uid others := by
  intro r hr
  obtain rfl := List.mem_singleton.mp hr
  exact .inr hv

theorem ownedBy_oneCamp {v : UInt32} (hv : v ≠ uid) : (oneCamp v).ownedBy uid = [] := by
  simp [ownedBy, oneCamp, hv]

theorem campQueue_oneCamp {v : UInt32} (hpre : printed uid <+: printed v) :
    ((ArmysBuildQueue.new arms fromIsoString clock uid army (oneCamp v)).campQueue
      ['a']).isSome := by
  have hkey : afterLast '#' (campKey v ['a']) = ['a'] := afterLast_campKey (by simp)
  rw [new_eq, oneCamp, List.filter_cons_of_pos (by simpa using hpre)]
  exact campQueue_isSome_of_written hkey nofun

/-- A player loads its own camps, whatever the camps of the others, if and only if no
other player's number begins with its own. -/
theorem isolated_iff :
    (Unaffected arms fromIsoString clock army uid others ↔ Apart uid others) ∧
      (ReadsOwn uid others ↔ Apart uid others) := by
  refine ⟨⟨fun h v hv hne hpre => ?_, fun h s t hs ht heq => ?_⟩,
    ⟨fun h v hv hne hpre => ?_, fun h s hs => ?_⟩⟩
  · have hsome : ((ArmysBuildQueue.new arms fromIsoString clock uid army (oneCamp v)).campQueue
        ['a']).isSome := campQueue_oneCamp hpre
    rw [h (oneCamp v) ⟨[], List.nodup_nil⟩ (within_oneCamp hv) nofun (ownedBy_oneCamp hne)] at hsome
    cases hsome
  · rw [new_eq, new_eq, filter_prefix_eq h hs, filter_prefix_eq h ht, heq]
  · have hkeys := h (oneCamp v) (within_oneCamp hv)
    rw [ownedBy_oneCamp hne, keys_eq, oneCamp, List.filter_cons_of_pos (by simpa using hpre)] at hkeys
    cases hkeys
  · rw [keys_eq, filter_prefix_eq h hs]

/-- Player 1 loads the camps of player 12. -/
theorem not_isolated_one_twelve :
    ¬ Unaffected [] (fun _ => 0) (fun _ => 0) {} 1 {12} ∧ ¬ ReadsOwn 1 {12} := by
  constructor
  · intro h
    have heq := h (oneCamp 12) ⟨[], List.nodup_nil⟩ (within_oneCamp rfl) nofun
      (ownedBy_oneCamp (by decide))
    exact absurd (congrArg (fun q => (q.campQueue ['a']).isSome) heq) (by decide)
  · intro h
    exact absurd (h (oneCamp 12) (within_oneCamp rfl)) (by decide)

end

end IceBridge.Army
