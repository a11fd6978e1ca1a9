import IceBridge.Pvp.Tables

/-! What a message can do to a battle. The entry of an attacker outlives his battle: it lets him
report deaths in a battle that is gone, or in one of somebody else. -/

namespace IceBridge.Pvp

namespace PvpServer
variable {s t : PvpServer} {u v : UInt32}

def Outsider (s : PvpServer) (uid : UInt32) : Prop :=
  s.getBattleMap uid = none ∧ ∀ d, s.attacker d ≠ some uid

end PvpServer

def PvpEvent.sender : PvpEvent → Option UInt32
  | .login uid _ | .logout uid | .startAttack uid _ | .objectDie uid _ | .relay uid _
  | .dfderIsready uid | .atkerStopBattle uid | .notUnpacked uid => some uid
  | .updateBattleMaps => none

namespace PvpServer
variable {s t : PvpServer} {u v : UInt32}

def Unchanged (s t : PvpServer) : Prop :=
  ∀ d b, s.getBattleMap d = some b → t.getBattleMap d = some b

/-- No null battle is written to, and a message of an outsider changes no battle. -/
def Safe (s : PvpServer) (e : PvpEvent) : Prop :=
  ∃ t, s.step e = some t ∧ ∀ uid, e.sender = some uid → s.Outsider uid → s.Unchanged t

end PvpServer

namespace BattleMap
variable {b : BattleMap} {body : ObjectDie}

structure Counted (b : BattleMap) (body : ObjectDie) : Prop where
  died : buildingNum ≤ b.diedBuildingNum
  stars : b.starNum = 3
  townhall : body.isTownhall = true → b.townhallIsDied = true
  loot : ∀ type res, body.buildingType = some type → body.curRes = some res →
    1 ≤ type → type ≤ 4 → res = 0

theorem plusLoot_eq_self_iff (type res : Int) :
    b.plusLoot type res = b ↔ (1 ≤ type → type ≤ 4 → res = 0) := by
  constructor
  · intro h hlow hhigh
    have hwood := congrArg woodLoot h
    have hstone := congrArg stoneLoot h
    have hore := congrArg oreLoot h
    have hconcrete := congrArg concreteLoot h
    simp only [plusLoot] at hwood hstone hore hconcrete
    have hcases : type = 1 ∨ type = 2 ∨ type = 3 ∨ type = 4 := by omega
    rcases hcases with rfl | rfl | rfl | rfl
    · rw [if_pos rfl] at hwood
      omega
    · rw [if_pos rfl] at hstone
      omega
    · rw [if_pos rfl] at hore
      omega
    · rw [if_pos rfl] at hconcrete
      omega
  · intro hnone
    have hzero : ∀ n : Int, 1 ≤ n → n ≤ 4 → ∀ loot, (if type = n then loot + res else loot) = loot := by
      intro n hlow hhigh loot
      split_ifs with htype
      · rw [hnone (by omega) (by omega), Int.add_zero]
      · rfl
    simp [plusLoot, hzero]

theorem plusDiedBuildingNum_eq_self_iff :
    b.plusDiedBuildingNum = b ↔ buildingNum ≤ b.diedBuildingNum ∧ b.starNum = 3 := by
  by_cases hlow : b.diedBuildingNum < buildingNum
  · refine iff_of_false (fun h => ?_) fun h => absurd hlow (not_lt.mpr h.1)
    have hdied := congrArg diedBuildingNum h
    simp only [plusDiedBuildingNum, if_pos hlow] at hdied
    omega
  · have hratio : 1 ≤ b.diedBuildingNum / buildingNum :=
      (Nat.one_le_div_iff (by decide)).mpr (not_lt.mp hlow)
    have hhalf : ¬ (1 ≤ 2 * (b.diedBuildingNum / buildingNum) ∧
        b.diedBuildingNum / buildingNum < 1) := by omega
    have hplus : b.plusDiedBuildingNum = { b with starNum := 3 } := by
      simp only [plusDiedBuildingNum, if_neg hlow, if_neg hhalf, if_pos hratio]
    rw [hplus]
    constructor
    · intro h
      exact ⟨not_lt.mp hlow, (congrArg starNum h).symm⟩
    · rintro ⟨-, hstars⟩
      rw [← hstars]

theorem buildingDied_fields (b : BattleMap) (body : ObjectDie) : (b.buildingDied body).townhallIsDied =
      (body.isTownhall || b.townhallIsDied) ∧
    (b.buildingDied body).diedBuildingNum = b.plusDiedBuildingNum.diedBuildingNum ∧
    (body.isTownhall = false ∨ b.townhallIsDied = true →
      (b.buildingDied body).starNum = b.plusDiedBuildingNum.starNum) := by
  have hflag : b.townhallIsDied = true → ({ b with townhallIsDied := true } : BattleMap) = b := by
    intro hdied
    rw [← hdied]
  unfold buildingDied
  cases htown : body.isTownhall with
  | false => cases body.buildingType <;> cases body.curRes <;> exact ⟨rfl, rfl, fun _ => rfl⟩
  | true =>
    refine ⟨?_, ?_, fun h => ?_⟩
    · cases body.buildingType <;> cases body.curRes <;> rfl
    · cases body.buildingType <;> cases body.curRes <;> rfl
    · have hdied : b.townhallIsDied = true := h.resolve_left (by decide)
      simp only [if_true, hflag hdied]
      cases body.buildingType <;> cases body.curRes <;> rfl

theorem buildingDied_eq_self_iff : b.buildingDied body = b ↔ b.Counted body := by
  obtain ⟨htown, hdied, hstars⟩ := buildingDied_fields b body
  have hflag : (body.isTownhall = true → b.townhallIsDied = true) →
      (if body.isTownhall then ({ b with townhallIsDied := true } : BattleMap) else b) = b := by
    intro h
    split_ifs with hbody
    · rw [← h hbody]
    · rfl
  have hloot : b.plusDiedBuildingNum = b →
      (body.isTownhall = true → b.townhallIsDied = true) →
      (b.buildingDied body = b ↔ ∀ type res, body.buildingType = some type →
        body.curRes = some res → 1 ≤ type → type ≤ 4 → res = 0) := by
    intro hplus htownhall
    unfold buildingDied
    simp only [hflag htownhall, hplus]
    cases body.buildingType with
    | none => simp
    | some type =>
      cases body.curRes with
      | none => simp
      | some res => simpa using plusLoot_eq_self_iff type res
  constructor
  · intro h
    have htownhall : body.isTownhall = true → b.townhallIsDied = true := by
      intro hbody
      rw [h, hbody] at htown
      exact htown
    have hplus : b.plusDiedBuildingNum = b := by
      rw [h] at hdied hstars
      have hstars' := hstars (by
        cases hbody : body.isTownhall with
        | false => exact .inl rfl
        | true => exact .inr (htownhall hbody))
      have heta : b.plusDiedBuildingNum = { b with
          diedBuildingNum := b.plusDiedBuildingNum.diedBuildingNum
          starNum := b.plusDiedBuildingNum.starNum } := rfl
      rw [heta, ← hdied, ← hstars']
    obtain ⟨hall, hthree⟩ := plusDiedBuildingNum_eq_self_iff.mp hplus
    exact ⟨hall, hthree, htownhall, (hloot hplus htownhall).mp h⟩
  · rintro ⟨hall, hthree, htownhall, hnone⟩
    exact (hloot (plusDiedBuildingNum_eq_self_iff.mpr ⟨hall, hthree⟩) htownhall).mpr hnone

end BattleMap

namespace PvpServer
variable {s t : PvpServer} {u v : UInt32}

def Finds (s : PvpServer) : PvpEvent → Prop
  | .objectDie uid body =>
    s.getPeerUid uid ≠ 0 → s.isAttackerOrDefender uid = 2 → body.isBuilding = true →
      ∃ b, s.getBattleMap (s.getPeerUid uid) = some b ∧ (s.Outsider uid → b.Counted body)
  | .atkerStopBattle uid => s.Outsider uid → s.getBattleMap (s.getPeerUid uid) = none
  | .logout uid =>
    s.Outsider uid → s.isAttackerOrDefender uid = 2 → s.getBattleMap (s.getPeerUid uid) = none
  | _ => True

theorem unchanged_setBattleMap {b : BattleMap} (b' : BattleMap) (hb : s.getBattleMap u = some b) :
    s.Unchanged (s.setBattleMap u b') ↔ b' = b := by
  constructor
  · intro h
    have hnew := h u b hb
    rw [setBattleMap_getBattleMap, if_pos rfl] at hnew
    exact Option.some.inj hnew
  · rintro rfl d x hx
    rw [setBattleMap_getBattleMap]
    split_ifs with hd
    · exact (hd ▸ hb).symm.trans hx
    · exact hx

theorem unchanged_retreat_iff (withLoot : Bool) :
    s.Unchanged (s.retreat u v withLoot) ↔ s.getBattleMap v = none := by
  unfold retreat
  cases hb : s.getBattleMap v with
  | none => exact iff_of_true (fun _ _ h => h) rfl
  | some b =>
    refine iff_of_false (fun h => ?_) (by simp)
    have hgone := h v b hb
    simp at hgone

theorem Unchanged.of_eq (h : ∀ d, t.getBattleMap d = s.getBattleMap d) : s.Unchanged t :=
  fun d _ hb => (h d).trans hb

theorem safe_iff {e : PvpEvent} (ht : s.step e = some t) (hu : e.sender = some u) :
    s.Safe e ↔ (s.Outsider u → s.Unchanged t) := by
  constructor
  · rintro ⟨t', ht', hsafe⟩ hout
    obtain rfl := Option.some.inj (ht.symm.trans ht')
    exact hsafe u hu hout
  · intro hsafe
    refine ⟨t, ht, fun uid huid hout => ?_⟩
    obtain rfl := Option.some.inj (hu.symm.trans huid)
    exact hsafe hout

theorem safe_startAttack (u v : UInt32) : s.Safe (.startAttack u v) := by
  refine (safe_iff rfl rfl).mpr fun _ d b hb => ?_
  unfold startAttack
  cases hv : s.getBattleMap v with
  | some _ => exact hb
  | none =>
    have hne : d ≠ v := by
      rintro rfl
      simp [hv] at hb
    obtain ⟨-, hmaps⟩ := insertBattleMap_of_none hv (BattleMap.init u v s.point)
    exact (hmaps d).trans ((if_neg hne).trans hb)

theorem safe_objectDie_iff (u : UInt32) (body : ObjectDie) :
    s.Safe (.objectDie u body) ↔ s.Finds (.objectDie u body) := by
  have hstep : s.step (.objectDie u body) = s.objectDie u body := rfl
  unfold objectDie at hstep
  dsimp only at hstep
  split_ifs at hstep with hpeer hreport
  · exact iff_of_true ((safe_iff hstep rfl).mpr fun _ => Unchanged.of_eq fun _ => rfl)
      fun hne => absurd hpeer hne
  · obtain ⟨hrole, hbuilding⟩ := hreport
    have hrole' : s.isAttackerOrDefender u = 2 := hrole
    -- the report is for the battle of the peer, which may be over
    cases hb : s.getBattleMap (s.getPeerUid u) with
    | none =>
      have hnone : s.step (.objectDie u body) = none := by
        rw [hstep, sendToPlayer_getBattleMap, sendToPlayer_getBattleMap, hb]
        rfl
      refine iff_of_false ?_ ?_
      · rintro ⟨t, ht, -⟩
        rw [hnone] at ht
        exact absurd ht (by simp)
      · intro hfinds
        obtain ⟨b, hb', -⟩ := hfinds hpeer hrole' hbuilding
        rw [hb] at hb'
        exact absurd hb' (by simp)
    | some b =>
      have hsome : s.step (.objectDie u body) =
          some (((s.sendToPlayer (s.getPeerUid u) .objectDie).sendToPlayer u .ack).setBattleMap
            (s.getPeerUid u) (b.buildingDied body)) := by
        rw [hstep, sendToPlayer_getBattleMap, sendToPlayer_getBattleMap, hb]
        rfl
      have hunchanged := unchanged_setBattleMap (b.buildingDied body) hb
      rw [safe_iff hsome rfl]
      constructor
      · intro hsafe _ _ _
        exact ⟨b, hb, fun hout =>
          BattleMap.buildingDied_eq_self_iff.mp (hunchanged.mp (hsafe hout))⟩
      · intro hfinds hout
        obtain ⟨b', hb', hcounted⟩ := hfinds hpeer hrole' hbuilding
        obtain rfl := Option.some.inj (hb.symm.trans hb')
        exact hunchanged.mpr (BattleMap.buildingDied_eq_self_iff.mpr (hcounted hout))
  · refine iff_of_true ((safe_iff hstep rfl).mpr fun _ => Unchanged.of_eq fun _ => rfl) ?_
    intro _ hrole hbuilding
    exact absurd ⟨hrole, hbuilding⟩ hreport

theorem safe_logout_iff (u : UInt32) : s.Safe (.logout u) ↔ s.Finds (.logout u) := by
  rw [safe_iff (t := s.logout u) rfl rfl]
  refine imp_congr_right fun _ => ?_
  have hrole : ∀ online, ({ s with onlinePlayers := online } : PvpServer).isAttackerOrDefender u =
      s.isAttackerOrDefender u := fun _ => rfl
  unfold logout
  simp only [hrole]
  split_ifs with hone htwo
  · exact iff_of_true (Unchanged.of_eq fun _ => rfl)
      fun htwo => absurd (hone.symm.trans htwo) (by decide)
  · rw [imp_iff_right htwo]
    exact unchanged_retreat_iff (s := ({ s with onlinePlayers := _ } : PvpServer).sendToPlayer
      (s.getPeerUid u) .atkerLogout) false
  · exact iff_of_true (Unchanged.of_eq fun _ => rfl) fun htwo' => absurd htwo' htwo

theorem safe_step_iff (s : PvpServer) (e : PvpEvent) : s.Safe e ↔ s.Finds e := by
  cases e with
  | login uid peerUid =>
    refine iff_of_true ((safe_iff rfl rfl).mpr fun hout => ?_) trivial
    have hnone : ({ s with onlinePlayers := Function.update s.onlinePlayers uid true } :
        PvpServer).getBattleMap uid = none := hout.1
    unfold login
    simp only [hnone]
    exact Unchanged.of_eq fun _ => rfl
  | logout uid => exact safe_logout_iff uid
  | startAttack uid peerUid => exact iff_of_true (safe_startAttack uid peerUid) trivial
  | objectDie uid body => exact safe_objectDie_iff uid body
  | relay uid request =>
    have hrelay : ∀ checksPeer acks, s.Unchanged (s.relayTo uid request checksPeer acks) := by
      intro checksPeer acks
      unfold relayTo
      dsimp only
      split_ifs <;> exact Unchanged.of_eq fun _ => rfl
    refine iff_of_true ((safe_iff rfl rfl).mpr fun _ => ?_) trivial
    unfold relay
    cases request <;> exact hrelay _ _
  | dfderIsready uid =>
    refine iff_of_true ((safe_iff rfl rfl).mpr fun hout => ?_) trivial
    unfold dfderIsready
    simp only [hout.1]
    split_ifs <;> exact Unchanged.of_eq fun _ => rfl
  | atkerStopBattle uid =>
    rw [safe_iff (t := s.atkerStopBattle uid) rfl rfl]
    refine imp_congr_right fun _ => ?_
    exact unchanged_retreat_iff (s := (s.sendToPlayer (s.getPeerUid uid) .atkerStopBattle).sendToPlayer
      uid .ack) true
  | notUnpacked uid =>
    exact iff_of_true ((safe_iff rfl rfl).mpr fun _ => Unchanged.of_eq fun _ => rfl) trivial
  | updateBattleMaps =>
    exact iff_of_true ⟨_, rfl, fun uid huid => absurd huid (by simp [PvpEvent.sender])⟩ trivial

end PvpServer

end IceBridge.Pvp
