import IceBridge.Lib.Inverse
import IceBridge.Pvp.Battle

/-! The two tables of the pvp worker. An attacker stays in `playerPairs` when his battle ends,
and so the tables agree only until the first battle is over. -/

namespace IceBridge.Pvp

namespace BattleMap

def ticked (b : BattleMap) : Option BattleMap :=
  if b.isStart = false then some b
  else if 3000 ≤ b.update.getCurTick then none
  else some b.update

theorem ticked_attackerID {b t : BattleMap} (h : b.ticked = some t) :
    t.attackerID = b.attackerID := by
  unfold ticked at h
  split_ifs at h <;> obtain rfl := Option.some.inj h <;> rfl

end BattleMap

namespace PvpServer
variable {s t : PvpServer} {u v : UInt32}

@[simp] theorem setBattleMap_getBattleMap (b : BattleMap) :
    (s.setBattleMap u b).getBattleMap v = if v = u then some b else s.getBattleMap v := by
  by_cases hv : v = u
  · subst hv
    simp [setBattleMap, getBattleMap]
  · simp [setBattleMap, getBattleMap, AList.lookup_insert_ne hv, hv]

@[simp] theorem setBattleMap_playerPairs (b : BattleMap) :
    (s.setBattleMap u b).playerPairs = s.playerPairs := rfl

@[simp] theorem deinitializeBattleMap_getBattleMap :
    (s.deinitializeBattleMap u).getBattleMap v = if v = u then none else s.getBattleMap v := by
  by_cases hv : v = u
  · subst hv
    simp [deinitializeBattleMap, getBattleMap]
  · simp [deinitializeBattleMap, getBattleMap, AList.lookup_erase_ne hv, hv]

@[simp] theorem deinitializeBattleMap_playerPairs :
    (s.deinitializeBattleMap u).playerPairs = s.playerPairs := rfl

@[simp] theorem sendToPlayer_getBattleMap (msg : Response) :
    (s.sendToPlayer u msg).getBattleMap v = s.getBattleMap v := rfl

@[simp] theorem sendToPlayer_playerPairs (msg : Response) :
    (s.sendToPlayer u msg).playerPairs = s.playerPairs := rfl

@[simp] theorem sendResult_getBattleMap (b : BattleMap) (a d : UInt32) (loot : Option (List Int)) :
    (s.sendResult b a d loot).getBattleMap v = s.getBattleMap v := rfl

@[simp] theorem plusPlayerPoint_getBattleMap (points : Int) :
    (s.plusPlayerPoint u points).getBattleMap v = s.getBattleMap v := rfl

theorem insertBattleMap_of_none (hb : s.getBattleMap u = none) (item : BattleMap) :
    (s.insertBattleMap u item).playerPairs =
        Function.update s.playerPairs item.attackerID (some u) ∧
      ∀ v, (s.insertBattleMap u item).getBattleMap v =
        if v = u then some item else s.getBattleMap v := by
  unfold insertBattleMap
  rw [hb]
  exact ⟨rfl, fun v => setBattleMap_getBattleMap item⟩

theorem updateBattleMap_getBattleMap : (s.updateBattleMap u).getBattleMap v =
    if v = u then (s.getBattleMap u).bind BattleMap.ticked else s.getBattleMap v := by
  unfold updateBattleMap
  cases hb : s.getBattleMap u with
  | none =>
    by_cases hv : v = u
    · simp [hv, hb]
    · simp [hv]
  | some b =>
    by_cases hstart : b.isStart = false
    · by_cases hv : v = u
      · simp [hv, hb, BattleMap.ticked, hstart]
      · simp [hstart, hv]
    · by_cases hask : b.update.getCurTick % 20 = 0 <;>
        by_cases hend : 3000 ≤ b.update.getCurTick <;>
        simp [hstart, hask, hend, BattleMap.ticked]

theorem updateBattleMap_playerPairs : (s.updateBattleMap u).playerPairs = s.playerPairs := by
  unfold updateBattleMap
  cases s.getBattleMap u with
  | none => rfl
  | some b =>
    dsimp only
    split_ifs <;> rfl

theorem foldl_updateBattleMap (us : List UInt32) (hus : us.Nodup) :
    (us.foldl updateBattleMap s).playerPairs = s.playerPairs ∧
      ∀ v, (us.foldl updateBattleMap s).getBattleMap v =
        if v ∈ us then (s.getBattleMap v).bind BattleMap.ticked else s.getBattleMap v := by
  induction us generalizing s with
  | nil => simp
  | cons u us ih =>
    obtain ⟨hu, hrest⟩ := List.nodup_cons.mp hus
    obtain ⟨hpairs, hmaps⟩ := ih (s := s.updateBattleMap u) hrest
    refine ⟨hpairs.trans updateBattleMap_playerPairs, fun v => ?_⟩
    rw [List.foldl_cons, hmaps v, updateBattleMap_getBattleMap]
    by_cases hv : v = u
    · subst hv
      simp [hu]
    · simp [hv]

theorem nodup_uids (s : PvpServer) : s.uids.Nodup :=
  (List.perm_insertionSort _ _).nodup_iff.mpr s.battleMaps.keys_nodup

theorem mem_uids : v ∈ s.uids ↔ s.getBattleMap v ≠ none :=
  (List.mem_insertionSort _).trans (not_iff_comm.mp AList.lookup_eq_none.symm).symm

theorem updateBattleMaps_getBattleMap (v : UInt32) :
    s.updateBattleMaps.getBattleMap v = (s.getBattleMap v).bind BattleMap.ticked := by
  have hmaps := (foldl_updateBattleMap (s := s) s.uids s.nodup_uids).2 v
  rw [← updateBattleMaps] at hmaps
  rw [hmaps]
  split_ifs with hv
  · rfl
  · have hnone : s.getBattleMap v = none := not_not.mp fun hb => hv (mem_uids.mpr hb)
    simp [hnone]

theorem updateBattleMaps_playerPairs : s.updateBattleMaps.playerPairs = s.playerPairs :=
  (foldl_updateBattleMap s.uids s.nodup_uids).1

def attacker (s : PvpServer) (uid : UInt32) : Option UInt32 :=
  (s.getBattleMap uid).map BattleMap.attackerID

theorem getPeerUid_eq : s.getPeerUid u = (s.attacker u).getD ((s.playerPairs u).getD 0) := by
  unfold getPeerUid attacker
  cases s.getBattleMap u <;> rfl

structure Agree (s : PvpServer) : Prop where
  pairs : ∀ a d, s.playerPairs a = some d ↔ s.attacker d = some a
  peers : ∀ u p, s.getPeerUid u = p → p ≠ 0 → s.getPeerUid p = u

theorem Agree.congr (h : s.Agree) (hpairs : t.playerPairs = s.playerPairs)
    (hattacker : t.attacker = s.attacker) : t.Agree := by
  refine ⟨fun a d => ?_, fun u p hp hne => ?_⟩
  · rw [hpairs, hattacker]
    exact h.pairs a d
  · rw [getPeerUid_eq, hpairs, hattacker, ← getPeerUid_eq] at hp ⊢
    exact h.peers u p hp hne

theorem not_agree_of_ended (h : s.Agree) (hpairs : t.playerPairs = s.playerPairs) {a d : UInt32}
    (hbattle : s.attacker d = some a) (hended : t.attacker d = none) : ¬ t.Agree := by
  intro ht
  have hsame : t.attacker = s.attacker := Table.Inverse.right_unique h.pairs (hpairs ▸ ht.pairs)
  rw [hsame, hbattle] at hended
  exact absurd hended (by simp)

theorem peers_iff (h : Table.Inverse s.playerPairs s.attacker) :
    (∀ u p, s.getPeerUid u = p → p ≠ 0 → s.getPeerUid p = u) ↔
      ∀ a d, s.playerPairs a = some d → a ≠ 0 → ∀ x, s.attacker a = some x → x = d := by
  have hattacked : ∀ {u x}, s.attacker u = some x → s.getPeerUid u = x := by
    intro u x hx
    rw [getPeerUid_eq, hx]
    rfl
  constructor
  · intro hpeers a d hd ha x hx
    have hpeer := hpeers d a (hattacked ((h a d).mp hd)) ha
    exact (hattacked hx).symm.trans hpeer
  · -- the peer of `u` is the one who attacks him, or else the one he attacks
    intro hbattles u p hp hne
    cases hx : s.attacker u with
    | some x =>
      obtain rfl : x = p := (hattacked hx).symm.trans hp
      have hpair := (h x u).mpr hx
      rw [getPeerUid_eq, hpair]
      cases hy : s.attacker x with
      | none => rfl
      | some y => exact hbattles x u hpair hne y hy
    | none =>
      rw [getPeerUid_eq, hx] at hp
      cases hy : s.playerPairs u with
      | none =>
        rw [hy] at hp
        exact absurd hp.symm hne
      | some y =>
        rw [hy] at hp
        obtain rfl : y = p := hp
        exact hattacked ((h u y).mp hy)

/-- What is asked of an attack that can begin: the attacker attacks nobody, who attacks him is
the one he attacks, and whom that one attacks is he. -/
structure Free (s : PvpServer) (a d : UInt32) : Prop where
  idle : s.playerPairs a = none
  attacked : a ≠ 0 → ∀ x, s.attacker a = some x → x = d
  attacks : d ≠ 0 → ∀ x, s.playerPairs d = some x → x = a

theorem agree_attack_iff (h : s.Agree) {a d : UInt32} (hd : s.attacker d = none)
    (hpairs : t.playerPairs = Function.update s.playerPairs a (some d))
    (hattacker : t.attacker = Function.update s.attacker d (some a)) : t.Agree ↔ s.Free a d := by
  have hinverse : Table.Inverse t.playerPairs t.attacker ↔ s.playerPairs a = none := by
    rw [hpairs, hattacker]
    exact Table.Inverse.update_iff h.pairs hd
  have hold := (peers_iff h.pairs).mp h.peers
  constructor
  · intro ht
    have hidle := hinverse.mp ht.pairs
    have hnew := (peers_iff ht.pairs).mp ht.peers
    have hpair : t.playerPairs a = some d := by rw [hpairs, Function.update_self]
    refine ⟨hidle, fun ha x hx => ?_, fun hdne e he => ?_⟩
    · have had : a ≠ d := by
        rintro rfl
        rw [hd] at hx
        exact absurd hx (by simp)
      refine hnew a d hpair ha x ?_
      rw [hattacker, Function.update_of_ne had, hx]
    · have hda : d ≠ a := by
        rintro rfl
        rw [hidle] at he
        exact absurd he (by simp)
      refine (hnew d e ?_ hdne a ?_).symm
      · rw [hpairs, Function.update_of_ne hda, he]
      · rw [hattacker, Function.update_self]
  · rintro ⟨hidle, hattacked, hattacks⟩
    have hpairs' := hinverse.mpr hidle
    refine ⟨hpairs', (peers_iff hpairs').mpr fun a' d' hpair ha' x hx => ?_⟩
    rw [hpairs] at hpair
    rw [hattacker] at hx
    by_cases haa : a' = a
    · -- the new battle
      subst haa
      rw [Function.update_self] at hpair
      obtain rfl := Option.some.inj hpair
      by_cases had : a' = d
      · rw [had, Function.update_self] at hx
        exact (Option.some.inj hx).symm
      · rw [Function.update_of_ne had] at hx
        exact hattacked ha' x hx
    · -- a battle that there was, of the new defender or of another player
      rw [Function.update_of_ne haa] at hpair
      by_cases had : a' = d
      · subst had
        rw [Function.update_self] at hx
        rw [hattacks ha' d' hpair]
        exact (Option.some.inj hx).symm
      · rw [Function.update_of_ne had] at hx
        exact hold a' d' hpair ha' x hx

theorem attacker_setBattleMap {b b' : BattleMap} (hb : s.getBattleMap u = some b)
    (hattacker : b'.attackerID = b.attackerID) : (s.setBattleMap u b').attacker = s.attacker := by
  funext v
  by_cases hv : v = u
  · subst hv
    simp [attacker, hb, hattacker]
  · simp [attacker, hv]

theorem buildingDied_attackerID (b : BattleMap) (body : ObjectDie) :
    (b.buildingDied body).attackerID = b.attackerID := by
  unfold BattleMap.buildingDied
  dsimp only
  split <;> split_ifs <;> rfl

theorem agree_retreat_iff (h : s.Agree) (withLoot : Bool) :
    (s.retreat u v withLoot).Agree ↔ s.attacker v = none := by
  unfold retreat
  cases hb : s.getBattleMap v with
  | none =>
    have hnone : s.attacker v = none := by simp [attacker, hb]
    exact iff_of_true h hnone
  | some b =>
    have hbattle : s.attacker v = some b.attackerID := by simp [attacker, hb]
    refine iff_of_false (not_agree_of_ended h rfl hbattle ?_) (by simp [hbattle])
    simp [attacker]

def Keeps (s : PvpServer) : PvpEvent → Prop
  | .startAttack uid peerUid => s.attacker peerUid = none → s.Free uid peerUid
  | .updateBattleMaps =>
    ∀ d b, s.getBattleMap d = some b → b.isStart = true → b.update.getCurTick < 3000
  | .atkerStopBattle uid => s.attacker (s.getPeerUid uid) = none
  | .logout uid => s.isAttackerOrDefender uid = 2 → s.attacker (s.getPeerUid uid) = none
  | _ => True

theorem agree_startAttack_iff (h : s.Agree) :
    (s.startAttack u v).Agree ↔ (s.attacker v = none → s.Free u v) := by
  unfold startAttack
  cases hb : s.getBattleMap v with
  | some b =>
    have hbattle : s.attacker v = some b.attackerID := by simp [attacker, hb]
    exact iff_of_true h fun hnone => absurd hnone (by simp [hbattle])
  | none =>
    have hnone : s.attacker v = none := by simp [attacker, hb]
    rw [imp_iff_right hnone]
    obtain ⟨hpairs, hmaps⟩ := insertBattleMap_of_none hb (BattleMap.init u v s.point)
    refine agree_attack_iff h hnone hpairs ?_
    funext x
    simp only [attacker, sendToPlayer_getBattleMap, hmaps x, Function.update_apply]
    split_ifs <;> rfl

theorem agree_updateBattleMaps_iff (h : s.Agree) :
    s.updateBattleMaps.Agree ↔
      ∀ d b, s.getBattleMap d = some b → b.isStart = true → b.update.getCurTick < 3000 := by
  constructor
  · intro ht d b hb hstart
    by_contra hlast
    have hended : b.ticked = none := by
      simp [BattleMap.ticked, hstart, not_lt.mp hlast]
    refine not_agree_of_ended h updateBattleMaps_playerPairs (a := b.attackerID) (d := d) ?_ ?_ ht
    · simp [attacker, hb]
    · simp [attacker, updateBattleMaps_getBattleMap, hb, hended]
  · intro hlast
    refine h.congr updateBattleMaps_playerPairs ?_
    funext d
    unfold attacker
    rw [updateBattleMaps_getBattleMap]
    cases hb : s.getBattleMap d with
    | none => rfl
    | some b =>
      cases hticked : b.ticked with
      | some b' => simp [hticked, BattleMap.ticked_attackerID hticked]
      | none =>
        unfold BattleMap.ticked at hticked
        split_ifs at hticked with hstart hend
        exact absurd hend (not_le.mpr (hlast d b hb (by simpa using hstart)))

theorem agree_step_iff {e : PvpEvent} (h : s.Agree) (ht : s.step e = some t) :
    t.Agree ↔ s.Keeps e := by
  cases e with
  | startAttack uid peerUid =>
    obtain rfl := Option.some.inj ht
    exact agree_startAttack_iff h
  | updateBattleMaps =>
    obtain rfl := Option.some.inj ht
    exact agree_updateBattleMaps_iff h
  | atkerStopBattle uid =>
    obtain rfl := Option.some.inj ht
    have hsent : ((s.sendToPlayer (s.getPeerUid uid) .atkerStopBattle).sendToPlayer uid .ack).Agree :=
      h.congr rfl rfl
    exact agree_retreat_iff hsent true
  | logout uid =>
    obtain rfl := Option.some.inj ht
    have hoffline : ({ s with onlinePlayers := Function.update s.onlinePlayers uid false } :
        PvpServer).Agree := h.congr rfl rfl
    simp only [Keeps, logout]
    split_ifs with hone htwo
    · refine iff_of_true (hoffline.congr rfl rfl) fun htwo => ?_
      exact absurd (hone.symm.trans htwo) (by decide)
    · have hsent : (({ s with onlinePlayers := Function.update s.onlinePlayers uid false } :
          PvpServer).sendToPlayer (s.getPeerUid uid) .atkerLogout).Agree := h.congr rfl rfl
      exact (agree_retreat_iff hsent false).trans ⟨fun hnone _ => hnone, fun hnone => hnone htwo⟩
    · exact iff_of_true hoffline fun htwo' => absurd htwo' htwo
  | login uid peerUid =>
    obtain rfl := Option.some.inj ht
    refine iff_of_true ?_ trivial
    unfold login
    dsimp only
    split
    · exact h.congr rfl rfl
    · next b hb => exact h.congr rfl (attacker_setBattleMap hb rfl)
  | objectDie uid body =>
    refine iff_of_true ?_ trivial
    simp only [step, objectDie] at ht
    split_ifs at ht
    · exact Option.some.inj ht ▸ h
    · obtain ⟨b, hb, rfl⟩ := Option.map_eq_some_iff.mp ht
      exact h.congr rfl (attacker_setBattleMap hb (buildingDied_attackerID b body))
    · exact Option.some.inj ht ▸ h.congr rfl rfl
  | relay uid request =>
    obtain rfl := Option.some.inj ht
    refine iff_of_true ?_ trivial
    have hrelay : ∀ checksPeer acks, (s.relayTo uid request checksPeer acks).Agree := by
      intro checksPeer acks
      unfold relayTo
      dsimp only
      split_ifs <;> exact h.congr rfl rfl
    unfold relay
    cases request <;> exact hrelay _ _
  | dfderIsready uid =>
    obtain rfl := Option.some.inj ht
    refine iff_of_true ?_ trivial
    unfold dfderIsready
    dsimp only
    split_ifs
    · exact h
    · split
      · exact h
      · next b hb => exact h.congr rfl (attacker_setBattleMap hb rfl)
  | notUnpacked uid =>
    obtain rfl := Option.some.inj ht
    exact iff_of_true h trivial

theorem agree_start (point : UInt32 → Int) : Agree { point } where
  pairs a d := by simp [attacker, getBattleMap]
  peers u p hp hne := absurd hp.symm hne

/-- On any run of messages and ticks the tables agree exactly when no battle ends and nobody
begins one who is in another, in any of the two roles. -/
theorem tables_agree_run_iff (point : UInt32 → Int) (es : List PvpEvent) :
    Run.Always step Agree { point } es ↔ Run.EachStep step Keeps { point } es :=
  Run.always_iff_eachStep (I := fun _ => True) (fun _ _ _ _ _ => trivial)
    (fun _ _ _ _ hs ht => agree_step_iff hs ht) trivial (agree_start point) es

/-- The attacker logs out. -/
theorem not_agree_logout :
    ¬ ∀ (point : UInt32 → Int) (es : List PvpEvent), Run.Always step Agree { point } es := by
  intro hall
  have hrun := hall (fun _ => 0) [.startAttack 1 2, .logout 1]
  have hpair := (((hrun.2 _ rfl).2 _ rfl).pairs 1 2).mp (by decide)
  revert hpair
  decide

end PvpServer

end IceBridge.Pvp
