import IceBridge.Group.Manager

/-! The members of a group are the users who belong to it, and its leaders are among them, as
long as nobody is added who belongs elsewhere or has no points, and nobody leaves a group that
is not his. -/

namespace IceBridge.Group

namespace Redis
variable {r : Redis} {uid v : String} {groupId g position : Int}

def groupOf (r : Redis) (uid : String) : Option Int :=
  match r.user uid with
  | none => none
  | some m => if m.groupId = 0 then none else some m.groupId

@[simp] theorem updateUserGroup_user : (r.updateUserGroup uid groupId position).user v =
    if v = uid then some { groupId, position } else r.user v :=
  Function.update_apply _ _ _ _

@[simp] theorem updateUserGroup_members :
    (r.updateUserGroup uid groupId position).members = r.members := rfl

@[simp] theorem updateUserGroup_leaders :
    (r.updateUserGroup uid groupId position).leaders = r.leaders := rfl

theorem updateUserGroup_groupOf : (r.updateUserGroup uid groupId position).groupOf v =
    if v = uid then (if groupId = 0 then none else some groupId) else r.groupOf v := by
  by_cases hv : v = uid <;> simp [groupOf, hv]

theorem addUserIntoGroup_of_none (h : r.point uid = none) :
    r.addUserIntoGroup uid groupId position = (r.updateUserGroup uid groupId position, false) := by
  have hpoint : (r.updateUserGroup uid groupId position).point uid = none := h
  simp [addUserIntoGroup, hpoint]

theorem addUserIntoGroup_of_some {point : Int} (h : r.point uid = some point) :
    r.addUserIntoGroup uid groupId position =
      let r' := (r.updateUserGroup uid groupId position).addUserIntoGroupMembers uid groupId point
      (if position = 2 then r'.addUserIntoGroupLeaders uid groupId else r', true) := by
  have hpoint : (r.updateUserGroup uid groupId position).point uid = some point := h
  unfold addUserIntoGroup
  simp only [hpoint]
  by_cases htwo : position = 2 <;> simp only [htwo, if_true, if_false]

theorem addUserIntoGroup_user : (r.addUserIntoGroup uid groupId position).1.user =
    (r.updateUserGroup uid groupId position).user := by
  cases hpoint : r.point uid with
  | none => rw [addUserIntoGroup_of_none hpoint]
  | some point =>
    rw [addUserIntoGroup_of_some hpoint]
    by_cases htwo : position = 2
    · simp only [htwo, if_true]
      rfl
    · simp only [htwo, if_false]
      rfl

theorem addUserIntoGroup_groupOf : (r.addUserIntoGroup uid groupId position).1.groupOf v =
    if v = uid then (if groupId = 0 then none else some groupId) else r.groupOf v := by
  have heq : (r.addUserIntoGroup uid groupId position).1.groupOf v =
      (r.updateUserGroup uid groupId position).groupOf v := by
    simp only [groupOf, addUserIntoGroup_user]
  rw [heq, updateUserGroup_groupOf]

theorem mem_addUserIntoGroup : v ∈ (r.addUserIntoGroup uid groupId position).1.members g ↔
    v ∈ r.members g ∨ v = uid ∧ g = groupId ∧ (r.point uid).isSome := by
  cases hpoint : r.point uid with
  | none => simp [addUserIntoGroup_of_none hpoint]
  | some point =>
    have hmembers : (r.addUserIntoGroup uid groupId position).1.members =
        Function.update r.members groupId ((r.members groupId).insert uid point) := by
      rw [addUserIntoGroup_of_some hpoint]
      by_cases htwo : position = 2 <;> simp only [htwo, if_true, if_false] <;> rfl
    rw [hmembers]
    by_cases hg : g = groupId
    · subst hg
      simp [or_comm]
    · simp [hg]

theorem mem_leaders_addUserIntoGroup
    (h : v ∈ (r.addUserIntoGroup uid groupId position).1.leaders g) :
    v ∈ r.leaders g ∨ v = uid ∧ g = groupId ∧ (r.point uid).isSome := by
  cases hpoint : r.point uid with
  | none =>
    rw [addUserIntoGroup_of_none hpoint] at h
    exact .inl h
  | some point =>
    rw [addUserIntoGroup_of_some hpoint] at h
    by_cases htwo : position = 2
    · simp only [htwo, if_true] at h
      have hinsert : v ∈ Function.update r.leaders groupId (insert uid (r.leaders groupId)) g := h
      by_cases hg : g = groupId
      · subst hg
        rw [Function.update_self, Finset.mem_insert] at hinsert
        rcases hinsert with hv | hv
        · exact .inr ⟨hv, rfl, rfl⟩
        · exact .inl hv
      · rw [Function.update_of_ne hg] at hinsert
        exact .inl hinsert
    · simp only [htwo, if_false] at h
      exact .inl h

def successor (r : Redis) (uid : String) (groupId : Int) : Option String :=
  if r.getGroupPosition uid = some 3 ∧ (r.withoutUser uid groupId).leaders groupId = ∅ then
    ((r.withoutUser uid groupId).getGroupMembersSorted groupId).head?
  else none

theorem deleteUserFromGroup_fst : (r.deleteUserFromGroup uid groupId).1 =
    match r.successor uid groupId with
    | none => r.withoutUser uid groupId
    | some m => (r.withoutUser uid groupId).updateUserGroup m groupId 3 := by
  unfold deleteUserFromGroup successor chooseGroupOwner
  by_cases hposition : r.getGroupPosition uid = some 3
  · by_cases hleaders : (r.withoutUser uid groupId).leaders groupId = ∅
    · simp only [hposition, hleaders, if_true, and_self, ne_eq, not_true_eq_false, if_false]
      cases (r.withoutUser uid groupId).getGroupMembersSorted groupId <;> rfl
    · simp [hposition, hleaders]
  · simp [hposition]

theorem mem_getGroupMembersSorted :
    v ∈ r.getGroupMembersSorted groupId ↔ v ∈ r.members groupId := by
  simp only [getGroupMembersSorted, List.mem_map, List.mem_insertionSort, AList.mem_keys,
    AList.keys, List.keys]

theorem successor_mem (h : r.successor uid groupId = some v) :
    v ∈ (r.withoutUser uid groupId).members groupId := by
  unfold successor at h
  split_ifs at h
  exact mem_getGroupMembersSorted.mp (List.mem_of_mem_head? h)

theorem mem_withoutUser : v ∈ (r.withoutUser uid groupId).members g ↔
    v ∈ r.members g ∧ ¬ (v = uid ∧ g = groupId) := by
  by_cases hg : g = groupId
  · subst hg
    simp [withoutUser, deleteUserFromGroupMembers, deleteUserFromGroupLeaders, and_comm]
  · simp [withoutUser, deleteUserFromGroupMembers, deleteUserFromGroupLeaders, hg]

theorem mem_leaders_withoutUser : v ∈ (r.withoutUser uid groupId).leaders g ↔
    v ∈ r.leaders g ∧ ¬ (v = uid ∧ g = groupId) := by
  by_cases hg : g = groupId
  · subst hg
    simp [withoutUser, deleteUserFromGroupMembers, deleteUserFromGroupLeaders, and_comm]
  · simp [withoutUser, deleteUserFromGroupMembers, deleteUserFromGroupLeaders, hg]

theorem withoutUser_user : (r.withoutUser uid groupId).user v =
    if v = uid then some { groupId := 0, position := 0 } else r.user v :=
  Function.update_apply _ _ _ _

structure Agree (r : Redis) : Prop where
  members : ∀ u g, u ∈ r.members g ↔ r.groupOf u = some g
  leaders : ∀ u g, u ∈ r.leaders g → u ∈ r.members g

/-- The user can be added to the group: he belongs to no other, and has points. Without points
nothing but the hash is written, and that has to be right already. -/
def CanAdd (r : Redis) (uid : String) (groupId : Int) : Prop :=
  if (r.point uid).isSome then
    groupId ≠ 0 ∧ ∀ g, r.groupOf uid = some g → g = groupId
  else r.groupOf uid = if groupId = 0 then none else some groupId

theorem agree_addUserIntoGroup_iff (h : r.Agree) :
    (r.addUserIntoGroup uid groupId position).1.Agree ↔ r.CanAdd uid groupId := by
  have hleaders : ∀ u g, u ∈ (r.addUserIntoGroup uid groupId position).1.leaders g →
      u ∈ (r.addUserIntoGroup uid groupId position).1.members g := by
    intro u g hu
    rcases mem_leaders_addUserIntoGroup hu with hu | hu
    · exact mem_addUserIntoGroup.mpr (.inl (h.leaders u g hu))
    · exact mem_addUserIntoGroup.mpr (.inr hu)
  by_cases hpoint : (r.point uid).isSome
  · rw [CanAdd, if_pos hpoint]
    constructor
    · intro hnew
      have hadded : uid ∈ (r.addUserIntoGroup uid groupId position).1.members groupId :=
        mem_addUserIntoGroup.mpr (.inr ⟨rfl, rfl, hpoint⟩)
      have hgroup := (hnew.members uid groupId).mp hadded
      rw [addUserIntoGroup_groupOf, if_pos rfl] at hgroup
      have hzero : groupId ≠ 0 := by
        rintro rfl
        simp at hgroup
      refine ⟨hzero, fun g hg => ?_⟩
      have hold : uid ∈ (r.addUserIntoGroup uid groupId position).1.members g :=
        mem_addUserIntoGroup.mpr (.inl ((h.members uid g).mpr hg))
      have hsame := (hnew.members uid g).mp hold
      rw [addUserIntoGroup_groupOf, if_pos rfl, if_neg hzero] at hsame
      exact (Option.some.inj hsame).symm
    · rintro ⟨hzero, honly⟩
      refine ⟨fun u g => ?_, hleaders⟩
      rw [mem_addUserIntoGroup, addUserIntoGroup_groupOf, h.members u g]
      by_cases hu : u = uid
      · subst hu
        rw [if_pos rfl, if_neg hzero]
        constructor
        · rintro (hg | ⟨-, rfl, -⟩)
          · rw [honly g hg]
          · rfl
        · intro hg
          exact .inr ⟨rfl, (Option.some.inj hg).symm, hpoint⟩
      · simp [hu]
  · -- the hash is written before the score is read, and nothing else is
    rw [CanAdd, if_neg hpoint]
    constructor
    · intro hnew
      have hgroup : ∀ g, (r.addUserIntoGroup uid groupId position).1.groupOf uid = some g ↔
          r.groupOf uid = some g := by
        intro g
        rw [← hnew.members, mem_addUserIntoGroup, h.members]
        simp [hpoint]
      rw [← Option.ext hgroup, addUserIntoGroup_groupOf, if_pos rfl]
    · intro hsame
      refine ⟨fun u g => ?_, hleaders⟩
      rw [mem_addUserIntoGroup, addUserIntoGroup_groupOf, h.members u g]
      by_cases hu : u = uid
      · subst hu
        simp [hpoint, hsame]
      · simp [hu]

theorem withoutUser_groupOf : (r.withoutUser uid groupId).groupOf v =
    if v = uid then none else r.groupOf v := by
  by_cases hv : v = uid <;> simp [groupOf, withoutUser_user, hv]

theorem agree_deleteUserFromGroup_iff (h : r.Agree) :
    (r.deleteUserFromGroup uid groupId).1.Agree ↔ ∀ g, r.groupOf uid = some g → g = groupId := by
  rw [deleteUserFromGroup_fst]
  constructor
  · intro hnew g hg
    by_contra hne
    -- the user is still in the set of `g`, and his hash says none
    have hleft : uid ∈ (r.withoutUser uid groupId).members g :=
      mem_withoutUser.mpr ⟨(h.members uid g).mpr hg, fun hgone => hne hgone.2⟩
    have hnone : (r.withoutUser uid groupId).groupOf uid = none := by simp [withoutUser_groupOf]
    cases hsucc : r.successor uid groupId with
    | none =>
      rw [hsucc] at hnew
      have hgroup := (hnew.members uid g).mp hleft
      simp [hnone] at hgroup
    | some m =>
      rw [hsucc] at hnew
      have hm : uid ≠ m := by
        rintro rfl
        exact (mem_withoutUser.mp (successor_mem hsucc)).2 ⟨rfl, rfl⟩
      have hgroup := (hnew.members uid g).mp hleft
      rw [updateUserGroup_groupOf, if_neg hm, hnone] at hgroup
      exact absurd hgroup (by simp)
  · intro honly
    have hwithout : (r.withoutUser uid groupId).Agree := by
      refine ⟨fun u g => ?_, fun u g hu => ?_⟩
      · rw [mem_withoutUser, withoutUser_groupOf, h.members u g]
        by_cases hu : u = uid
        · subst hu
          simpa using honly g
        · simp [hu]
      · obtain ⟨hleader, hkept⟩ := mem_leaders_withoutUser.mp hu
        exact mem_withoutUser.mpr ⟨h.leaders u g hleader, hkept⟩
    cases hsucc : r.successor uid groupId with
    | none => exact hwithout
    | some m =>
      have hgroup := (hwithout.members m groupId).mp (successor_mem hsucc)
      have hzero : groupId ≠ 0 := by
        rintro rfl
        unfold groupOf at hgroup
        split at hgroup
        · exact absurd hgroup (by simp)
        · next hm =>
          split_ifs at hgroup with hne
          exact hne (Option.some.inj hgroup)
      refine ⟨fun u g => ?_, hwithout.leaders⟩
      rw [updateUserGroup_members, hwithout.members u g, updateUserGroup_groupOf, if_neg hzero]
      by_cases hu : u = m
      · simp [hu, hgroup]
      · simp [hu]

end Redis

namespace GroupManager
variable {s t : GroupManager}

def CreatesGroup (s : GroupManager) (uid : String) (info : GroupInfo) (inserted : Bool) : Prop :=
  s.redis.userInGroup uid = false ∧ s.searchGroup info.groupName = false ∧ inserted = true

def JoinsGroup (s : GroupManager) (uid : String) (groupId : Int) : Prop :=
  s.redis.userInGroup uid = false ∧ s.getGroupType groupId = some 1

instance (s : GroupManager) (uid : String) (info : GroupInfo) (inserted : Bool) :
    Decidable (s.CreatesGroup uid info inserted) := inferInstanceAs (Decidable (_ ∧ _ ∧ _))

instance (s : GroupManager) (uid : String) (groupId : Int) : Decidable (s.JoinsGroup uid groupId) :=
  inferInstanceAs (Decidable (_ ∧ _))

theorem createGroup_redis (uid : String) (info : GroupInfo) (inserted : Bool) :
    (s.createGroup uid info inserted).1.redis =
      if s.CreatesGroup uid info inserted then
        (s.redis.addUserIntoGroup uid (s.lastrowid + 1) 3).1
      else s.redis := by
  unfold createGroup
  by_cases hin : s.redis.userInGroup uid = true
  · simp [CreatesGroup, hin]
  · by_cases hname : s.searchGroup info.groupName = true
    · simp [CreatesGroup, hin, hname]
    · cases inserted <;> simp [CreatesGroup, hin, hname]

theorem joinGroup_redis (uid : String) (groupId : Int) (h : ¬ s.JoinsGroup uid groupId) :
    ∃ request, (s.joinGroup uid groupId).1.redis = { s.redis with request } := by
  cases hin : s.redis.userInGroup uid with
  | true => exact ⟨s.redis.request, by simp [joinGroup, hin]⟩
  | false =>
    have hone : (s.getGroupType groupId).getD 0 ≠ 1 := by
      intro hone
      refine h ⟨hin, ?_⟩
      cases htype : s.getGroupType groupId with
      | none => simp [htype] at hone
      | some type => simpa [htype] using hone
    simp only [joinGroup, hin, hone, if_false, Bool.false_eq_true]
    split_ifs <;> exact ⟨_, rfl⟩

theorem joinGroup_redis_of_joins (uid : String) (groupId : Int) (h : s.JoinsGroup uid groupId) :
    (s.joinGroup uid groupId).1.redis = (s.redis.addUserIntoGroup uid groupId 1).1 := by
  simp [joinGroup, h.1, h.2]

theorem promoteUser_redis (uid promoteUid : String) :
    (s.promoteUser uid promoteUid).1.redis =
      match s.redis.user uid with
      | none => s.redis
      | some m =>
        if m.position = 3 then (s.redis.addUserIntoGroup promoteUid m.groupId 2).1 else s.redis := by
  unfold promoteUser
  cases s.redis.user uid with
  | none => rfl
  | some m => by_cases hm : m.position = 3 <;> simp [hm]

theorem exitGroup_redis (uid : String) (groupId : Int) :
    (s.exitGroup uid groupId).1.redis = (s.redis.deleteUserFromGroup uid groupId).1 := by
  unfold exitGroup
  rcases s.redis.deleteUserFromGroup uid groupId with ⟨redis, _ | n⟩ <;> rfl

def Asks (A : Redis → String → Int → Int → Prop) (E : Redis → String → Int → Prop)
    (s : GroupManager) : GroupEvent → Prop
  | .createGroup uid info inserted =>
    s.CreatesGroup uid info inserted → A s.redis uid (s.lastrowid + 1) 3
  | .joinGroup uid groupId => s.JoinsGroup uid groupId → A s.redis uid groupId 1
  | .acceptJoin _ joinUid groupId => A s.redis joinUid groupId 1
  | .exitGroup uid groupId => E s.redis uid groupId
  | .promotePosition uid promoteUid =>
    ∀ m, s.redis.user uid = some m → m.position = 3 → A s.redis promoteUid m.groupId 2

/-- A request keeps `P` when it meets what `A` and `E` say of adding and taking out. -/
theorem step_iff_asks {P : Redis → Prop} {A : Redis → String → Int → Int → Prop}
    {E : Redis → String → Int → Prop}
    (hrequest : ∀ r request, P r → P { r with request })
    (hadd : ∀ r uid groupId position, P r →
      (P (r.addUserIntoGroup uid groupId position).1 ↔ A r uid groupId position))
    (hexit : ∀ r uid groupId, P r → (P (r.deleteUserFromGroup uid groupId).1 ↔ E r uid groupId))
    {e : GroupEvent} (h : P s.redis) (ht : s.step e = some t) : P t.redis ↔ Asks A E s e := by
  obtain rfl := Option.some.inj ht
  cases e with
  | createGroup uid info inserted =>
    simp only [process, createGroup_redis, Asks]
    split_ifs with hcreates
    · rw [hadd _ _ _ _ h]
      exact ⟨fun hcan _ => hcan, fun hcan => hcan hcreates⟩
    · exact iff_of_true h fun hnot => absurd hnot hcreates
  | joinGroup uid groupId =>
    simp only [process, Asks]
    by_cases hjoins : s.JoinsGroup uid groupId
    · rw [joinGroup_redis_of_joins uid groupId hjoins, hadd _ _ _ _ h]
      exact ⟨fun hcan _ => hcan, fun hcan => hcan hjoins⟩
    · obtain ⟨request, hredis⟩ := joinGroup_redis uid groupId hjoins
      rw [hredis]
      exact iff_of_true (hrequest _ _ h) fun hnot => absurd hnot hjoins
  | acceptJoin uid joinUid groupId => exact hadd _ _ _ _ h
  | exitGroup uid groupId =>
    simp only [process, exitGroup_redis, Asks]
    exact hexit _ _ _ h
  | promotePosition uid promoteUid =>
    simp only [process, promotePosition, promoteUser_redis, Asks]
    cases huser : s.redis.user uid with
    | none => exact iff_of_true h fun m hm => absurd hm (by simp)
    | some m =>
      by_cases hm : m.position = 3
      · simp only [if_pos hm]
        rw [hadd _ _ _ _ h]
        constructor
        · rintro hcan m' hm' -
          obtain rfl := Option.some.inj hm'
          exact hcan
        · exact fun hcan => hcan m rfl hm
      · simp only [if_neg hm]
        refine iff_of_true h fun m' hm' hthree => ?_
        obtain rfl := Option.some.inj hm'
        exact absurd hthree hm

/-- A user who is added can be added, and nobody leaves a group while he belongs to another. -/
def Keeps : GroupManager → GroupEvent → Prop :=
  Asks (fun r uid groupId _ => r.CanAdd uid groupId) fun r uid groupId =>
    ∀ g, r.groupOf uid = some g → g = groupId

theorem agree_step_iff {e : GroupEvent} (h : s.redis.Agree) (ht : s.step e = some t) :
    t.redis.Agree ↔ s.Keeps e :=
  step_iff_asks (fun _ _ h => ⟨h.members, h.leaders⟩)
    (fun _ _ _ _ h => Redis.agree_addUserIntoGroup_iff h)
    (fun _ _ _ h => Redis.agree_deleteUserFromGroup_iff h) h ht

theorem agree_start (point : String → Option Int) : (start point).redis.Agree :=
  ⟨fun u g => by simp [start, Redis.groupOf], fun u g hu => by simp [start] at hu⟩

/-- On any run of requests of any users the members, the leaders and the users' own groups agree
exactly when every request keeps to it. -/
theorem agree_run_iff (point : String → Option Int) (es : List GroupEvent) :
    Run.Always step (fun s => s.redis.Agree) (start point) es ↔
      Run.EachStep step Keeps (start point) es :=
  Run.always_iff_eachStep (I := fun _ => True) (fun _ _ _ _ _ => trivial)
    (fun _ _ _ _ hs ht => agree_step_iff hs ht) trivial (agree_start point) es

/-- A user of one group is accepted into another. -/
theorem not_agree_accepted :
    ¬ ∀ (point : String → Option Int) (es : List GroupEvent),
      Run.Always step (fun s => s.redis.Agree) (start point) es := by
  intro hall
  have hrun := hall (fun _ => some 0)
    [.createGroup "1" ⟨"a", 1, 1, 0⟩ true, .acceptJoin "2" "1" 9]
  have hmember := (((hrun.2 _ rfl).2 _ rfl).members "1" 1).mp (by decide)
  revert hmember
  decide

end GroupManager

end IceBridge.Group
