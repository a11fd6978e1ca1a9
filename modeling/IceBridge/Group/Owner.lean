import IceBridge.Group.Membership

/-! Every group has one owner, as long as nobody is added at a position that takes the owner's
away or gives a second one, and an owner who leaves has nobody behind him, or a successor. -/

namespace IceBridge.Group

namespace Redis
variable {r : Redis} {uid v : String} {groupId g position : Int}

def Owns (r : Redis) (u : String) (g : Int) : Prop :=
  u ∈ r.members g ∧ r.getGroupPosition u = some 3

def Owned (r : Redis) : Prop := ∀ g u, u ∈ r.members g → ∃! o, r.Owns o g

structure AddKeeps (r : Redis) (uid : String) (groupId position : Int) : Prop where
  same : ∀ g, uid ∈ r.members g → (position = 3 ↔ r.getGroupPosition uid = some 3)
  new : (r.point uid).isSome → uid ∉ r.members groupId →
    (position = 3 ↔ ∀ u, u ∉ r.members groupId)

theorem addUserIntoGroup_position : (r.addUserIntoGroup uid groupId position).1.getGroupPosition v =
    if v = uid then some position else r.getGroupPosition v := by
  unfold getGroupPosition
  rw [addUserIntoGroup_user]
  by_cases hv : v = uid <;> simp [hv]

theorem owns_addUserIntoGroup_of_ne (hv : v ≠ uid) :
    (r.addUserIntoGroup uid groupId position).1.Owns v g ↔ r.Owns v g := by
  simp [Owns, mem_addUserIntoGroup, addUserIntoGroup_position, hv]

theorem owns_addUserIntoGroup_self : (r.addUserIntoGroup uid groupId position).1.Owns uid g ↔
    uid ∈ (r.addUserIntoGroup uid groupId position).1.members g ∧ position = 3 := by
  rw [Owns, addUserIntoGroup_position, if_pos rfl, Option.some_inj]

theorem addKeeps_of_owned (h : r.Owned)
    (hnew : (r.addUserIntoGroup uid groupId position).1.Owned) :
    r.AddKeeps uid groupId position := by
  -- the one who owned the group before owns it still, and so it is `uid` or `uid` is no owner
  have hstill : ∀ {g o o'}, o ≠ uid → r.Owns o g →
      (∀ v, (r.addUserIntoGroup uid groupId position).1.Owns v g → v = o') →
      uid ∈ (r.addUserIntoGroup uid groupId position).1.members g → position ≠ 3 := by
    intro g o o' hne ho honly hin hthree
    have heq := honly o ((owns_addUserIntoGroup_of_ne hne).mpr ho)
    exact hne (heq.trans (honly uid (owns_addUserIntoGroup_self.mpr ⟨hin, hthree⟩)).symm)
  refine ⟨fun g hg => ?_, fun hpoint hout => ?_⟩
  · obtain ⟨o, ho, honly⟩ := h g uid hg
    have hg' : uid ∈ (r.addUserIntoGroup uid groupId position).1.members g :=
      mem_addUserIntoGroup.mpr (.inl hg)
    obtain ⟨o', ho', honly'⟩ := hnew g uid hg'
    constructor
    · intro hthree
      by_cases hne : o = uid
      · exact hne ▸ ho.2
      · exact absurd hthree (hstill hne ho honly' hg')
    · intro howner
      have huid : uid = o := honly uid ⟨hg, howner⟩
      have ho'uid : o' = uid := by
        by_contra hne
        exact hne ((honly o' ((owns_addUserIntoGroup_of_ne hne).mp ho')).trans huid.symm)
      exact (owns_addUserIntoGroup_self.mp (ho'uid ▸ ho')).2
  · have hin : uid ∈ (r.addUserIntoGroup uid groupId position).1.members groupId :=
      mem_addUserIntoGroup.mpr (.inr ⟨rfl, rfl, hpoint⟩)
    obtain ⟨o', ho', honly'⟩ := hnew groupId uid hin
    constructor
    · intro hthree u hu
      obtain ⟨o, ho, -⟩ := h groupId u hu
      have hne : o ≠ uid := fun heq => hout (heq ▸ ho.1)
      exact hstill hne ho honly' hin hthree
    · intro hempty
      have ho'uid : o' = uid := by
        by_contra hne
        exact hempty o' ((owns_addUserIntoGroup_of_ne hne).mp ho').1
      exact (owns_addUserIntoGroup_self.mp (ho'uid ▸ ho')).2

theorem AddKeeps.owned (hkeeps : r.AddKeeps uid groupId position) (h : r.Owned) :
    (r.addUserIntoGroup uid groupId position).1.Owned := by
  obtain ⟨hsame, hfirst⟩ := hkeeps
  intro g u hu
  by_cases hmember : ∃ w, w ∈ r.members g
  · obtain ⟨w, hw⟩ := hmember
    obtain ⟨o, ho, honly⟩ := h g w hw
    by_cases hne : o = uid
    · subst hne
      have hin : o ∈ (r.addUserIntoGroup o groupId position).1.members g :=
        mem_addUserIntoGroup.mpr (.inl ho.1)
      refine ⟨o, owns_addUserIntoGroup_self.mpr ⟨hin, (hsame g ho.1).mpr ho.2⟩, fun v hv => ?_⟩
      by_contra hvo
      exact hvo (honly v ((owns_addUserIntoGroup_of_ne hvo).mp hv))
    · refine ⟨o, (owns_addUserIntoGroup_of_ne hne).mpr ho, fun v hv => ?_⟩
      by_cases hvuid : v = uid
      · subst hvuid
        have hpos := (owns_addUserIntoGroup_self.mp hv).2
        by_cases hin : v ∈ r.members g
        · exact honly v ⟨hin, (hsame g hin).mp hpos⟩
        · rcases mem_addUserIntoGroup.mp hv.1 with hin' | ⟨-, rfl, hpoint⟩
          · exact absurd hin' hin
          · exact absurd hw ((hfirst hpoint hin).mp hpos w)
      · exact honly v ((owns_addUserIntoGroup_of_ne hvuid).mp hv)
  · -- the group was empty, and `uid` is its first member
    have hempty : ∀ w, w ∉ r.members g := fun w hw => hmember ⟨w, hw⟩
    rcases mem_addUserIntoGroup.mp hu with hin | ⟨rfl, rfl, hpoint⟩
    · exact absurd hin (hempty u)
    · have hthree := (hfirst hpoint (hempty u)).mpr hempty
      refine ⟨u, owns_addUserIntoGroup_self.mpr ⟨hu, hthree⟩, fun v hv => ?_⟩
      by_contra hne
      exact hempty v ((owns_addUserIntoGroup_of_ne hne).mp hv).1

theorem owned_addUserIntoGroup_iff (h : r.Owned) :
    (r.addUserIntoGroup uid groupId position).1.Owned ↔ r.AddKeeps uid groupId position :=
  ⟨addKeeps_of_owned h, fun hkeeps => hkeeps.owned h⟩

theorem owns_withoutUser :
    (r.withoutUser uid groupId).Owns v g ↔ v ≠ uid ∧ r.Owns v g := by
  by_cases hv : v = uid <;>
    simp [Owns, mem_withoutUser, getGroupPosition, withoutUser_user, hv]

theorem owns_successor {m : String} (hm : m ≠ uid) :
    ((r.withoutUser uid groupId).updateUserGroup m groupId 3).Owns v g ↔
      v = m ∧ m ∈ r.members g ∨ v ≠ m ∧ v ≠ uid ∧ r.Owns v g := by
  by_cases hv : v = m
  · subst hv
    simp [Owns, mem_withoutUser, getGroupPosition, hm]
  · have howns : (r.withoutUser uid groupId).Owns v g ↔ v ≠ uid ∧ r.Owns v g := owns_withoutUser
    simpa [Owns, getGroupPosition, hv] using howns

/-- An owner who leaves is in no other group and leaves nobody behind him, where nobody comes
after him. His successor is in all his groups, and in another one only as its owner. -/
def ExitKeeps (r : Redis) (uid : String) (groupId : Int) : Prop :=
  r.getGroupPosition uid = some 3 →
    match r.successor uid groupId with
    | none => ∀ g, uid ∈ r.members g → g = groupId ∧ ∀ u ∈ r.members g, u = uid
    | some m => ∀ g, (uid ∈ r.members g → m ∈ r.members g) ∧
        (m ∈ r.members g → uid ∈ r.members g ∨ r.getGroupPosition m = some 3)

theorem owned_withoutUser (h : r.Owned)
    (hleft : ∀ g, r.Owns uid g → ∀ u, u ∉ (r.withoutUser uid groupId).members g) :
    (r.withoutUser uid groupId).Owned := by
  intro g u hu
  obtain ⟨o, ho, honly⟩ := h g u (mem_withoutUser.mp hu).1
  have hne : o ≠ uid := by
    rintro rfl
    exact hleft g ho u hu
  exact ⟨o, owns_withoutUser.mpr ⟨hne, ho⟩, fun v hv => honly v (owns_withoutUser.mp hv).2⟩

theorem owned_withoutUser_iff (h : r.Owned) (hthree : r.getGroupPosition uid = some 3) :
    (r.withoutUser uid groupId).Owned ↔
      ∀ g, uid ∈ r.members g → g = groupId ∧ ∀ u ∈ r.members g, u = uid := by
  constructor
  · intro hnew g hg
    obtain ⟨o, -, honly⟩ := h g uid hg
    have hnobody : ∀ u, u ∉ (r.withoutUser uid groupId).members g := by
      intro u hu
      obtain ⟨o', ho', -⟩ := hnew g u hu
      obtain ⟨hne, howns⟩ := owns_withoutUser.mp ho'
      exact hne ((honly o' howns).trans (honly uid ⟨hg, hthree⟩).symm)
    constructor
    · by_contra hne
      exact hnobody uid (mem_withoutUser.mpr ⟨hg, fun hgone => hne hgone.2⟩)
    · intro u hu
      by_contra hne
      exact hnobody u (mem_withoutUser.mpr ⟨hu, fun hgone => hne hgone.1⟩)
  · intro halone
    refine owned_withoutUser h fun g howns u hu => ?_
    obtain ⟨hg, hall⟩ := halone g howns.1
    obtain ⟨hu, hkept⟩ := mem_withoutUser.mp hu
    exact hkept ⟨hall u hu, hg⟩

theorem owned_successor_iff (h : r.Owned) (hthree : r.getGroupPosition uid = some 3) {m : String}
    (hsucc : r.successor uid groupId = some m) :
    ((r.withoutUser uid groupId).updateUserGroup m groupId 3).Owned ↔
      ∀ g, (uid ∈ r.members g → m ∈ r.members g) ∧
        (m ∈ r.members g → uid ∈ r.members g ∨ r.getGroupPosition m = some 3) := by
  obtain ⟨hmember, hkept⟩ := mem_withoutUser.mp (successor_mem hsucc)
  have hm : m ≠ uid := fun heq => hkept ⟨heq, rfl⟩
  have howns : ∀ {v g}, ((r.withoutUser uid groupId).updateUserGroup m groupId 3).Owns v g ↔
      v = m ∧ m ∈ r.members g ∨ v ≠ m ∧ v ≠ uid ∧ r.Owns v g := owns_successor hm
  constructor
  · intro hnew g
    constructor
    · intro hg
      by_cases hgroup : g = groupId
      · exact hgroup ▸ hmember
      · -- in another group of his the owner is gone, and only `m` can be the next
        obtain ⟨o, -, honly⟩ := h g uid hg
        obtain ⟨o', ho', -⟩ := hnew g uid (mem_withoutUser.mpr ⟨hg, fun hgone => hgroup hgone.2⟩)
        rcases howns.mp ho' with ⟨-, hin⟩ | ⟨-, hne, ho'⟩
        · exact hin
        · exact absurd ((honly o' ho').trans (honly uid ⟨hg, hthree⟩).symm) hne
    · intro hin
      by_cases hg : uid ∈ r.members g
      · exact .inl hg
      · obtain ⟨o, ho, -⟩ := h g m hin
        obtain ⟨o', -, honly'⟩ := hnew g m (mem_withoutUser.mpr ⟨hin, fun hgone => hm hgone.1⟩)
        have hne : o ≠ uid := fun heq => hg (heq ▸ ho.1)
        have hom : o = m := by
          by_contra hom
          exact hom ((honly' o (howns.mpr (.inr ⟨hom, hne, ho⟩))).trans
            (honly' m (howns.mpr (.inl ⟨rfl, hin⟩))).symm)
        exact .inr (hom ▸ ho.2)
  · intro hall g u hu
    obtain ⟨hfollows, hother⟩ := hall g
    obtain ⟨o, ho, honly⟩ := h g u (mem_withoutUser.mp hu).1
    by_cases hin : m ∈ r.members g
    · refine ⟨m, howns.mpr (.inl ⟨rfl, hin⟩), fun v hv => ?_⟩
      rcases howns.mp hv with ⟨rfl, -⟩ | ⟨-, hne, hv⟩
      · rfl
      · rcases hother hin with hg | hmthree
        · exact absurd ((honly v hv).trans (honly uid ⟨hg, hthree⟩).symm) hne
        · exact (honly v hv).trans (honly m ⟨hin, hmthree⟩).symm
    · have hom : o ≠ m := fun heq => hin (heq ▸ ho.1)
      have hne : o ≠ uid := fun heq => hin (hfollows (heq ▸ ho.1))
      refine ⟨o, howns.mpr (.inr ⟨hom, hne, ho⟩), fun v hv => ?_⟩
      rcases howns.mp hv with ⟨-, hmin⟩ | ⟨-, -, hv⟩
      · exact absurd hmin hin
      · exact honly v hv

theorem owned_deleteUserFromGroup_iff (h : r.Owned) :
    (r.deleteUserFromGroup uid groupId).1.Owned ↔ r.ExitKeeps uid groupId := by
  rw [deleteUserFromGroup_fst]
  unfold ExitKeeps
  by_cases hthree : r.getGroupPosition uid = some 3
  · cases hsucc : r.successor uid groupId with
    | none => simpa [hthree] using owned_withoutUser_iff h hthree
    | some m => simpa [hthree] using owned_successor_iff h hthree hsucc
  · have hsucc : r.successor uid groupId = none := by simp [successor, hthree]
    rw [hsucc]
    exact iff_of_true (owned_withoutUser h fun g howns => absurd howns.2 hthree)
      fun hposition => absurd hposition hthree

end Redis

namespace GroupManager
variable {s t : GroupManager}

def stepOwnExit (s : GroupManager) (e : GroupEvent) : Option GroupManager :=
  match e with
  | .exitGroup uid groupId => if s.redis.getGroupId uid = some groupId then s.step e else none
  | _ => s.step e

def KeepsOwner : GroupManager → GroupEvent → Prop := Asks Redis.AddKeeps Redis.ExitKeeps

theorem step_of_stepOwnExit {e : GroupEvent} (ht : s.stepOwnExit e = some t) :
    s.step e = some t := by
  unfold stepOwnExit at ht
  split at ht
  · split_ifs at ht
    exact ht
  · exact ht

theorem owned_step_iff {e : GroupEvent} (h : s.redis.Owned) (ht : s.step e = some t) :
    t.redis.Owned ↔ s.KeepsOwner e :=
  step_iff_asks (fun _ _ h => h) (fun _ _ _ _ h => Redis.owned_addUserIntoGroup_iff h)
    (fun _ _ _ h => Redis.owned_deleteUserFromGroup_iff h) h ht

theorem owned_start (point : String → Option Int) : (start point).redis.Owned :=
  fun _ u hu => absurd hu (AList.notMem_empty u)

/-- On any run of requests of any users, in which users leave only their own groups, every group
with a member has one owner exactly when every request keeps to it. -/
theorem owned_run_iff (point : String → Option Int) (es : List GroupEvent) :
    Run.Always stepOwnExit (fun s => s.redis.Owned) (start point) es ↔
      Run.EachStep stepOwnExit KeepsOwner (start point) es :=
  Run.always_iff_eachStep (I := fun _ => True) (fun _ _ _ _ _ => trivial)
    (fun _ _ _ _ hs ht => owned_step_iff hs (step_of_stepOwnExit ht)) trivial
    (owned_start point) es

/-- The owner leaves behind a leader and a member. -/
theorem not_owned_left :
    ¬ ∀ (point : String → Option Int) (es : List GroupEvent),
      Run.Always stepOwnExit (fun s => s.redis.Owned) (start point) es := by
  intro hall
  have hrun := hall (fun _ => some 0) [.createGroup "1" ⟨"a", 1, 1, 0⟩ true, .joinGroup "2" 1,
    .promotePosition "1" "2", .exitGroup "1" 1]
  have hend := ((((hrun.2 _ rfl).2 _ rfl).2 _ rfl).2 _ rfl)
  obtain ⟨o, ⟨hmember, howner⟩, -⟩ := hend 1 "2" (by decide)
  have ho : o = "2" := by
    rw [AList.mem_keys] at hmember
    exact List.mem_singleton.mp hmember
  subst ho
  revert howner
  decide

end GroupManager

end IceBridge.Group
