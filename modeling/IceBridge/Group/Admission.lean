import IceBridge.Group.Membership

/-! Who is let into a group. A group of type 1 takes anybody, one of type 2 nobody, and one of
type 3 those whom its officers accept; the requests that add a user look at none of that, `joinGroup`
apart. -/

namespace IceBridge.Group

namespace Redis
variable {r r' : Redis} {uid u : String} {groupId g position : Int}

def Enters (r r' : Redis) (u : String) (g : Int) : Prop :=
  (r.groupOf u ≠ some g ∧ r'.groupOf u = some g) ∨ (u ∉ r.members g ∧ u ∈ r'.members g)

instance (r r' : Redis) (u : String) (g : Int) : Decidable (r.Enters r' u g) :=
  inferInstanceAs (Decidable (_ ∨ _))

def Fresh (r : Redis) (uid : String) (groupId : Int) : Prop :=
  (groupId ≠ 0 ∧ r.groupOf uid ≠ some groupId) ∨
    (uid ∉ r.members groupId ∧ (r.point uid).isSome = true)

theorem not_enters_request (request : Int → Finset String) :
    ¬ r.Enters { r with request } u g := by
  rintro (⟨hne, heq⟩ | ⟨hout, hin⟩)
  · exact hne heq
  · exact hout hin

theorem successor_ne (h : r.successor uid groupId = some u) : u ≠ uid := by
  rintro rfl
  exact (mem_withoutUser.mp (successor_mem h)).2 ⟨rfl, rfl⟩

theorem enters_add_iff : r.Enters (r.addUserIntoGroup uid groupId position).1 u g ↔
    (u = uid ∧ g = groupId) ∧ r.Fresh uid groupId := by
  rw [Enters, Fresh, addUserIntoGroup_groupOf, mem_addUserIntoGroup]
  by_cases hu : u = uid
  · subst hu
    rw [if_pos rfl]
    by_cases hg : g = groupId
    · subst hg
      refine Iff.trans (or_congr ?_ (and_congr_right fun hout => ?_))
        (and_iff_right ⟨rfl, rfl⟩).symm
      · by_cases hzero : g = 0 <;> simp [hzero]
      · simp [hout]
    · have hsome : (if groupId = 0 then none else some groupId) ≠ some g := by
        split_ifs
        · exact Option.some_ne_none g |>.symm
        · exact fun h => hg (Option.some.inj h).symm
      simp [hg, hsome]
  · simp [hu]

theorem enters_delete_iff : r.Enters (r.deleteUserFromGroup uid groupId).1 u g ↔
    r.successor uid groupId = some u ∧ g = groupId ∧ groupId ≠ 0 ∧ r.groupOf u ≠ some groupId := by
  rw [deleteUserFromGroup_fst]
  have hout : ∀ u g, ¬ r.Enters (r.withoutUser uid groupId) u g := by
    rintro u g (⟨hne, heq⟩ | ⟨hnot, hin⟩)
    · rw [withoutUser_groupOf] at heq
      split_ifs at heq
      exact hne heq
    · exact hnot (mem_withoutUser.mp hin).1
  cases hsucc : r.successor uid groupId with
  | none => exact iff_of_false (hout u g) fun h => Option.some_ne_none u h.1.symm
  | some m =>
    dsimp only
    constructor
    · rintro (⟨hne, heq⟩ | ⟨hnot, hin⟩)
      · rw [updateUserGroup_groupOf] at heq
        split_ifs at heq with hu hzero
        · subst hu
          obtain rfl := Option.some.inj heq
          exact ⟨rfl, rfl, hzero, hne⟩
        · exact absurd (.inl ⟨hne, heq⟩) (hout u g)
      · rw [updateUserGroup_members] at hin
        exact absurd (.inr ⟨hnot, hin⟩) (hout u g)
    · rintro ⟨hu, rfl, hzero, hne⟩
      obtain rfl := Option.some.inj hu
      refine .inl ⟨hne, ?_⟩
      rw [updateUserGroup_groupOf, if_pos rfl, if_neg hzero]

end Redis

namespace GroupManager

/-- `updateGroupInfo`, which looks at the position of the sender and not at his group. -/
def updateGroupInfo (s : GroupManager) (uid : String)
    (groupIcon groupType minIntegral groupId : Int) : GroupManager × Reply :=
  if s.redis.getGroupPosition uid = some 3 then
    let db := match s.db.lookup groupId with
      | none => s.db
      | some info => s.db.insert groupId { info with groupIcon, groupType, minIntegral }
    ({ s with db }, ⟨true, 0, "", none⟩)
  else (s, ⟨false, 0, "update message failed", none⟩)

end GroupManager

inductive Request
  | group (e : GroupEvent)
  | updateGroup (uid : String) (groupIcon groupType minIntegral groupId : Int)

namespace Request

def sender : Request → String
  | .group (.createGroup uid _ _) | .group (.joinGroup uid _) | .group (.acceptJoin uid _ _)
  | .group (.exitGroup uid _) | .group (.promotePosition uid _) | .updateGroup uid _ _ _ _ => uid

end Request

/-- The manager, with who created each group, and whose requests to join have not led to a
membership yet. -/
structure Hall where
  manager : GroupManager := {}
  creator : Int → Option String := fun _ => none
  pending : Int → Finset String := fun _ => ∅

namespace Hall

def process (s : Hall) : Request → GroupManager
  | .group e => (s.manager.process e).1
  | .updateGroup uid groupIcon groupType minIntegral groupId =>
    (s.manager.updateGroupInfo uid groupIcon groupType minIntegral groupId).1

def creates (s : Hall) : Request → Option String
  | .group (.createGroup uid info inserted) =>
    if s.manager.CreatesGroup uid info inserted then some uid else none
  | _ => none

def asks (s : Hall) : Request → Option (String × Int)
  | .group (.joinGroup uid groupId) =>
    if s.manager.redis.userInGroup uid = false ∧ s.manager.getGroupType groupId = some 3 then
      some (uid, groupId)
    else none
  | _ => none

def step (s : Hall) (e : Request) : Option Hall :=
  let manager := s.process e
  some {
    manager
    creator := match s.creates e with
      | none => s.creator
      | some uid => Function.update s.creator (s.manager.lastrowid + 1) (some uid)
    pending := fun g =>
      (match s.asks e with
        | none => s.pending g
        | some (uid, groupId) => if groupId = g then insert uid (s.pending g) else s.pending g).filter
        fun u => ¬ s.manager.redis.Enters manager.redis u g }

def start (point : String → Option Int) : Hall := { manager := GroupManager.start point }

def Officer (s : Hall) (uid : String) (g : Int) : Prop :=
  s.manager.redis.groupOf uid = some g ∧
    (s.manager.redis.getGroupPosition uid = some 2 ∨ s.manager.redis.getGroupPosition uid = some 3)

def Accepts (s : Hall) (officer u : String) (g : Int) : Prop :=
  s.manager.getGroupType g = some 3 ∧ u ∈ s.pending g ∧ s.Officer officer g

/-- The one who created the group comes back by himself, unless nobody is let in. -/
def Returns (s : Hall) (sender u : String) (g : Int) : Prop :=
  s.creator g = some u ∧ sender = u ∧ s.manager.getGroupType g ≠ some 2

inductive Entitled (s : Hall) (u : String) (g : Int) : Request → Prop
  | creates {e : Request} (hu : s.creates e = some u) (hg : g = s.manager.lastrowid + 1) :
    Entitled s u g e
  | joins (htype : s.manager.getGroupType g = some 1) : Entitled s u g (.group (.joinGroup u g))
  | accepted {officer : String} (h : s.Accepts officer u g) :
    Entitled s u g (.group (.acceptJoin officer u g))
  | returns {e : Request} (h : s.Returns e.sender u g) : Entitled s u g e

def Admitted (s : Hall) (e : Request) : Prop :=
  ∀ t, s.step e = some t → ∀ u g, s.manager.redis.Enters t.manager.redis u g → s.Entitled u g e

/-- Whoever is accepted or promoted and does not belong to the group is accepted by one of its
officers, or has created it; and the successor of an owner who leaves belongs to the group. -/
def Authorised (s : Hall) : Request → Prop
  | .group (.acceptJoin uid joinUid groupId) => s.manager.redis.Fresh joinUid groupId →
    s.Accepts uid joinUid groupId ∨ s.Returns uid joinUid groupId
  | .group (.promotePosition uid promoteUid) => ∀ m, s.manager.redis.user uid = some m →
    m.position = 3 → s.manager.redis.Fresh promoteUid m.groupId → s.Returns uid promoteUid m.groupId
  | .group (.exitGroup uid groupId) => ∀ u, s.manager.redis.successor uid groupId = some u →
    groupId ≠ 0 → s.manager.redis.groupOf u = some groupId
  | _ => True

theorem admitted_iff_process {s : Hall} {e : Request} : s.Admitted e ↔
    ∀ u g, s.manager.redis.Enters (s.process e).redis u g → s.Entitled u g e := by
  constructor
  · exact fun h => h _ rfl
  · intro h t ht
    obtain rfl := Option.some.inj ht
    exact h

theorem admitted_of_redis {s : Hall} {e : Request} (request : Int → Finset String)
    (h : (s.process e).redis = { s.manager.redis with request }) : s.Admitted e := by
  rw [admitted_iff_process, h]
  exact fun u g hin => absurd hin (Redis.not_enters_request request)

theorem admitted_add_iff {s : Hall} {e : Request} {uid : String} {groupId position : Int}
    (h : (s.process e).redis = (s.manager.redis.addUserIntoGroup uid groupId position).1) :
    s.Admitted e ↔ (s.manager.redis.Fresh uid groupId → s.Entitled uid groupId e) := by
  rw [admitted_iff_process, h]
  constructor
  · exact fun hall hfresh => hall uid groupId (Redis.enters_add_iff.mpr ⟨⟨rfl, rfl⟩, hfresh⟩)
  · intro hone u g hin
    obtain ⟨⟨rfl, rfl⟩, hfresh⟩ := Redis.enters_add_iff.mp hin
    exact hone hfresh

theorem admitted_createGroup (s : Hall) (uid : String) (info : GroupInfo) (inserted : Bool) :
    s.Admitted (.group (.createGroup uid info inserted)) := by
  have hredis : (s.process (.group (.createGroup uid info inserted))).redis = _ :=
    s.manager.createGroup_redis uid info inserted
  by_cases hcreates : s.manager.CreatesGroup uid info inserted
  · rw [if_pos hcreates] at hredis
    exact (admitted_add_iff hredis).mpr fun _ => .creates (if_pos hcreates) rfl
  · rw [if_neg hcreates] at hredis
    exact admitted_of_redis s.manager.redis.request hredis

theorem admitted_joinGroup (s : Hall) (uid : String) (groupId : Int) :
    s.Admitted (.group (.joinGroup uid groupId)) := by
  by_cases hjoins : s.manager.JoinsGroup uid groupId
  · have hredis : (s.process (.group (.joinGroup uid groupId))).redis = _ :=
      GroupManager.joinGroup_redis_of_joins uid groupId hjoins
    exact (admitted_add_iff hredis).mpr fun _ => .joins hjoins.2
  · obtain ⟨request, hredis⟩ := GroupManager.joinGroup_redis uid groupId hjoins
    exact admitted_of_redis request hredis

theorem admitted_acceptJoin_iff (s : Hall) (uid joinUid : String) (groupId : Int) :
    s.Admitted (.group (.acceptJoin uid joinUid groupId)) ↔
      s.Authorised (.group (.acceptJoin uid joinUid groupId)) := by
  refine (admitted_add_iff rfl).trans (imp_congr_right fun _ => ?_)
  constructor
  · intro h
    cases h with
    | creates hu hg => exact absurd hu.symm (Option.some_ne_none joinUid)
    | accepted h => exact .inl h
    | returns h => exact .inr h
  · rintro (h | h)
    · exact .accepted h
    · exact .returns h

theorem admitted_exitGroup_iff (s : Hall) (uid : String) (groupId : Int) :
    s.Admitted (.group (.exitGroup uid groupId)) ↔
      s.Authorised (.group (.exitGroup uid groupId)) := by
  have hredis : (s.process (.group (.exitGroup uid groupId))).redis =
      (s.manager.redis.deleteUserFromGroup uid groupId).1 := GroupManager.exitGroup_redis uid groupId
  rw [admitted_iff_process, hredis]
  constructor
  · intro hall u hsucc hzero
    by_contra hne
    -- nobody but the one who leaves has sent anything
    cases hall u groupId (Redis.enters_delete_iff.mpr ⟨hsucc, rfl, hzero, hne⟩) with
    | creates hu hg => exact absurd hu.symm (Option.some_ne_none u)
    | returns h => exact Redis.successor_ne hsucc h.2.1.symm
  · intro hsame u g hin
    obtain ⟨hsucc, rfl, hzero, hne⟩ := Redis.enters_delete_iff.mp hin
    exact absurd (hsame u hsucc hzero) hne

theorem admitted_promotePosition_iff (s : Hall) (uid promoteUid : String) :
    s.Admitted (.group (.promotePosition uid promoteUid)) ↔
      s.Authorised (.group (.promotePosition uid promoteUid)) := by
  have hredis : (s.process (.group (.promotePosition uid promoteUid))).redis = _ :=
    s.manager.promoteUser_redis uid promoteUid
  cases huser : s.manager.redis.user uid with
  | none =>
    rw [huser] at hredis
    refine iff_of_true (admitted_of_redis s.manager.redis.request hredis) ?_
    exact fun m hm => absurd (hm.symm.trans huser) (Option.some_ne_none m)
  | some m =>
    rw [huser] at hredis
    have hauth : s.Authorised (.group (.promotePosition uid promoteUid)) ↔ (m.position = 3 →
        s.manager.redis.Fresh promoteUid m.groupId → s.Returns uid promoteUid m.groupId) := by
      constructor
      · exact fun h => h m huser
      · intro h m' hm'
        obtain rfl := Option.some.inj (huser.symm.trans hm')
        exact h
    by_cases hthree : m.position = 3
    · dsimp only at hredis
      rw [if_pos hthree] at hredis
      rw [hauth, admitted_add_iff hredis, imp_iff_right hthree]
      refine imp_congr_right fun _ => ⟨fun h => ?_, fun h => .returns h⟩
      cases h with
      | creates hu hg => exact absurd hu.symm (Option.some_ne_none promoteUid)
      | returns h => exact h
    · dsimp only at hredis
      rw [if_neg hthree] at hredis
      rw [hauth]
      exact iff_of_true (admitted_of_redis s.manager.redis.request hredis)
        fun h => absurd h hthree

theorem admitted_iff (s : Hall) (e : Request) : s.Admitted e ↔ s.Authorised e := by
  cases e with
  | updateGroup uid groupIcon groupType minIntegral groupId =>
    refine iff_of_true (admitted_of_redis s.manager.redis.request ?_) trivial
    simp only [process, GroupManager.updateGroupInfo]
    split_ifs <;> rfl
  | group e =>
    cases e with
    | createGroup uid info inserted =>
      exact iff_of_true (s.admitted_createGroup uid info inserted) trivial
    | joinGroup uid groupId => exact iff_of_true (s.admitted_joinGroup uid groupId) trivial
    | acceptJoin uid joinUid groupId => exact s.admitted_acceptJoin_iff uid joinUid groupId
    | exitGroup uid groupId => exact s.admitted_exitGroup_iff uid groupId
    | promotePosition uid promoteUid => exact s.admitted_promotePosition_iff uid promoteUid

/-- On any run of requests of any users nobody becomes a member who is not entitled to, exactly
when every acceptance, promotion and exit is an authorised one. -/
theorem admitted_run_iff (point : String → Option Int) (es : List Request) :
    Run.EachEvent step Admitted (start point) es ↔ Run.EachEvent step Authorised (start point) es :=
  Run.eachEvent_congr (I := fun _ => True) (fun _ _ _ _ _ => trivial)
    (fun s e _ => admitted_iff s e) trivial es

/-- A user accepts himself into a group that nobody may join. -/
theorem not_admitted_closed :
    ¬ ∀ (point : String → Option Int) (es : List Request),
      Run.EachEvent step Admitted (start point) es := by
  intro hall
  have hrun := hall (fun _ => some 0)
    [.group (.createGroup "1" ⟨"a", 1, 2, 0⟩ true), .group (.acceptJoin "2" "2" 1)]
  have hentitled := (hrun.2 _ rfl).1 _ rfl "2" 1 (.inl ⟨by decide, by decide⟩)
  cases hentitled with
  | creates hu hg => exact absurd hu (by decide)
  | accepted h => exact absurd h.1 (by decide)
  | returns h => exact absurd h.2.2 (by decide)

end Hall

end IceBridge.Group
