import IceBridge.Pvp.Tables

/-! How a battle is settled. The points of both sides are meant to be those they had at the start;
both are read from the attacker, and only the battles that run out of time write any. -/

namespace IceBridge.Pvp

def documented (starNum : ℕ) (atkerPoint dfderPoint : Int) : Int × Int :=
  if 0 < starNum then
    let atker := (30 - (atkerPoint - dfderPoint).tdiv 10) * (starNum / 3 : ℕ) +
      (if starNum = 3 then 6 else 0)
    (atker, -atker)
  else
    let dfder := 20 + (atkerPoint - dfderPoint).tdiv 20
    (-dfder, dfder)

def Response.result : UInt32 × Response → Option (UInt32 × ℕ × Int)
  | (uid, .battleResult starNum gettedPoint _) => some (uid, starNum, gettedPoint)
  | _ => none

/-- How a battle can end: in the turn of `updateBattleMaps` that comes after those of the battles
`pre`, by the message of a player, or when he leaves. -/
inductive Ending
  | timeOut (pre : List UInt32)
  | atkerStopBattle (uid : UInt32)
  | logout (uid : UInt32)

namespace PvpServer

def results (s : PvpServer) : List (UInt32 × ℕ × Int) := s.sent.filterMap Response.result

def before (s : PvpServer) : Ending → PvpServer
  | .timeOut pre => pre.foldl updateBattleMap s
  | _ => s

def finish (s : PvpServer) (d : UInt32) : Ending → PvpServer
  | .timeOut pre => (pre.foldl updateBattleMap s).updateBattleMap d
  | .atkerStopBattle uid => s.atkerStopBattle uid
  | .logout uid => s.logout uid

structure Ends (s : PvpServer) (d : UInt32) (e : Ending) : Prop where
  turn : ∀ pre, e = .timeOut pre → ∃ post, s.uids = pre ++ d :: post
  gone : (s.finish d e).getBattleMap d = none

/-- From `s` to `t` the two sides are told what they gain, which is what the comments say, and
their points change by that. -/
structure Settled (s t : PvpServer) (a d : UInt32) (starNum : ℕ) (atkerPoint dfderPoint : Int) :
    Prop where
  reported : t.results = s.results ++
    [(a, starNum, (documented starNum atkerPoint dfderPoint).1),
      (d, starNum, (documented starNum atkerPoint dfderPoint).2)]
  stored : ∀ u, t.point u = s.point u +
    (if u = a then (documented starNum atkerPoint dfderPoint).1 else 0) +
    (if u = d then (documented starNum atkerPoint dfderPoint).2 else 0)

end PvpServer

/-- The battle runs out of time, and the points of the two sides are close enough not to count; or
its attacker stops it, who attacks himself. -/
def Ending.Even (a d : UInt32) (diedBuildingNum : ℕ) (atkerPoint dfderPoint : Int) : Ending → Prop
  | .timeOut _ =>
    if diedBuildingNum = buildingNum then (atkerPoint - dfderPoint).tdiv 10 = 0
    else (atkerPoint - dfderPoint).tdiv 20 = 0
  | .atkerStopBattle uid => uid = a ∧ a = d
  | .logout _ => False

/-! ## A battle as long as it goes on -/

namespace BattleMap
variable {b : BattleMap} {a d : UInt32} {point : Int}

structure Fought (b : BattleMap) (a d : UInt32) (point : Int) : Prop where
  attackerID : b.attackerID = a
  defenderID : b.defenderID = d
  atkerPoint : b.atkerPoint = point
  dfderPoint : b.dfderPoint = point
  died : b.diedBuildingNum ≤ buildingNum
  starNum : b.starNum = if b.diedBuildingNum = buildingNum then 3 else 0

theorem fought_init (a d : UInt32) (point : UInt32 → Int) :
    (init a d point).Fought a d (point a) :=
  ⟨rfl, rfl, rfl, rfl, Nat.zero_le _, rfl⟩

theorem Fought.plusDiedBuildingNum (h : b.Fought a d point) :
    b.plusDiedBuildingNum.Fought a d point := by
  have hdied := h.died
  have hstars := h.starNum
  refine ⟨h.attackerID, h.defenderID, h.atkerPoint, h.dfderPoint, ?_, ?_⟩
  · unfold BattleMap.plusDiedBuildingNum
    dsimp only
    split_ifs <;> omega
  · unfold BattleMap.plusDiedBuildingNum
    dsimp only
    generalize hdied' : (if b.diedBuildingNum < buildingNum then b.diedBuildingNum + 1
      else b.diedBuildingNum) = died
    have hle : died ≤ buildingNum := by
      rw [← hdied']
      split_ifs <;> omega
    -- the ratio is one of integers, which is 0 until the last building is destroyed
    rcases Nat.lt_or_eq_of_le hle with hlt | heq
    · have hratio : died / buildingNum = 0 := Nat.div_eq_of_lt hlt
      have hlow : b.diedBuildingNum ≠ buildingNum := by
        rw [← hdied'] at hlt
        split_ifs at hlt <;> omega
      rw [hratio, if_neg (by omega), if_neg (by omega), if_neg (Nat.ne_of_lt hlt), hstars, if_neg hlow]
    · have hratio : died / buildingNum = 1 := by
        rw [heq]
        exact Nat.div_self (by decide)
      rw [hratio, if_neg (by omega), if_pos le_rfl, if_pos heq]

theorem Fought.buildingDied (h : b.Fought a d point) (body : ObjectDie) :
    (b.buildingDied body).Fought a d point := by
  have htown : ∀ b : BattleMap, b.Fought a d point →
      (if body.isTownhall then ({ b with townhallIsDied := true } : BattleMap) else b).Fought a d
        point := by
    intro b hb
    split_ifs
    · exact ⟨hb.attackerID, hb.defenderID, hb.atkerPoint, hb.dfderPoint, hb.died, hb.starNum⟩
    · exact hb
  have hplus := (htown b h).plusDiedBuildingNum
  unfold BattleMap.buildingDied
  dsimp only
  split
  · exact ⟨hplus.attackerID, hplus.defenderID, hplus.atkerPoint, hplus.dfderPoint, hplus.died,
      hplus.starNum⟩
  · exact hplus

theorem Fought.ticked {t : BattleMap} (h : b.Fought a d point) (ht : b.ticked = some t) :
    t.Fought a d point := by
  unfold BattleMap.ticked at ht
  split_ifs at ht
  · exact Option.some.inj ht ▸ h
  · obtain rfl := Option.some.inj ht
    exact ⟨h.attackerID, h.defenderID, h.atkerPoint, h.dfderPoint, h.died, h.starNum⟩

theorem Fought.setStart (h : b.Fought a d point) (isStart : Bool) :
    ({ b with isStart } : BattleMap).Fought a d point :=
  ⟨h.attackerID, h.defenderID, h.atkerPoint, h.dfderPoint, h.died, h.starNum⟩

/-- What the code reports: the difference of the points is never seen. -/
theorem Fought.gettedPoint (h : b.Fought a d point) : b.gettedPoint =
    if b.diedBuildingNum = buildingNum then (36, -36) else (-20, 20) := by
  unfold BattleMap.gettedPoint
  rw [h.starNum, h.atkerPoint, h.dfderPoint, Int.sub_self]
  by_cases hall : b.diedBuildingNum = buildingNum
  · rw [if_pos hall, if_pos hall]
    rfl
  · rw [if_neg hall, if_neg hall]
    rfl

end BattleMap

namespace PvpServer
variable {s t : PvpServer} {a d u v : UInt32} {point : Int}

def Fights (a d : UInt32) (point : Int) (s : PvpServer) : Prop :=
  ∃ b, s.getBattleMap d = some b ∧ b.Fought a d point

theorem Fights.of_eq (h : s.Fights a d point) (heq : t.getBattleMap d = s.getBattleMap d) :
    t.Fights a d point := by
  obtain ⟨b, hb, hfought⟩ := h
  exact ⟨b, heq.trans hb, hfought⟩

theorem Fights.setBattleMap {b b' : BattleMap} (h : s.Fights a d point)
    (hb : s.getBattleMap u = some b)
    (hb' : b.Fought a d point → b'.Fought a d point) : (s.setBattleMap u b').Fights a d point := by
  obtain ⟨x, hx, hfought⟩ := h
  by_cases hd : d = u
  · subst hd
    obtain rfl := Option.some.inj (hb.symm.trans hx)
    exact ⟨b', by simp, hb' hfought⟩
  · refine ⟨x, ?_, hfought⟩
    rw [setBattleMap_getBattleMap, if_neg hd]
    exact hx

theorem Fights.retreat (h : s.Fights a d point) (withLoot : Bool)
    (hon : (s.retreat u v withLoot).getBattleMap d ≠ none) :
    (s.retreat u v withLoot).Fights a d point := by
  unfold PvpServer.retreat at hon ⊢
  cases hb : s.getBattleMap v with
  | none => exact h
  | some b =>
    rw [hb] at hon
    refine h.of_eq ?_
    dsimp only at hon ⊢
    rw [deinitializeBattleMap_getBattleMap] at hon ⊢
    by_cases hd : d = v
    · exact absurd (if_pos hd) hon
    · exact if_neg hd

theorem fights_step {e : PvpEvent} (h : s.Fights a d point) (ht : s.step e = some t)
    (hon : t.getBattleMap d ≠ none) : t.Fights a d point := by
  cases e with
  | startAttack uid peerUid =>
    -- a defender who is attacked already is not attacked by another one
    obtain rfl := Option.some.inj ht
    unfold startAttack
    cases hb : s.getBattleMap peerUid with
    | some b => exact h
    | none =>
      refine h.of_eq (((insertBattleMap_of_none hb _).2 d).trans (if_neg ?_))
      rintro rfl
      obtain ⟨b, hb', -⟩ := h
      exact absurd (hb'.symm.trans hb) (Option.some_ne_none b)
  | updateBattleMaps =>
    obtain rfl := Option.some.inj ht
    obtain ⟨b, hb, hfought⟩ := h
    obtain ⟨b', hb'⟩ := Option.ne_none_iff_exists'.mp hon
    rw [updateBattleMaps_getBattleMap, hb] at hb'
    refine ⟨b', ?_, hfought.ticked hb'⟩
    rw [updateBattleMaps_getBattleMap, hb]
    exact hb'
  | atkerStopBattle uid =>
    obtain rfl := Option.some.inj ht
    unfold atkerStopBattle at hon ⊢
    refine Fights.retreat ?_ true hon
    exact h.of_eq rfl
  | logout uid =>
    obtain rfl := Option.some.inj ht
    simp only [logout] at hon ⊢
    split_ifs at hon ⊢
    · exact h.of_eq rfl
    · refine Fights.retreat ?_ false hon
      exact h.of_eq rfl
    · exact h.of_eq rfl
  | login uid peerUid =>
    obtain rfl := Option.some.inj ht
    unfold login
    dsimp only
    split
    · exact h.of_eq rfl
    · next b hb => exact (Fights.setBattleMap (h.of_eq rfl) hb fun hb => hb.setStart false).of_eq rfl
  | objectDie uid body =>
    simp only [step, objectDie] at ht
    split_ifs at ht
    · exact Option.some.inj ht ▸ h
    · obtain ⟨b, hb, rfl⟩ := Option.map_eq_some_iff.mp ht
      exact Fights.setBattleMap (h.of_eq rfl) hb fun hb => hb.buildingDied body
    · exact Option.some.inj ht ▸ h.of_eq rfl
  | relay uid request =>
    obtain rfl := Option.some.inj ht
    have hrelay : ∀ checksPeer acks, (s.relayTo uid request checksPeer acks).Fights a d point := by
      intro checksPeer acks
      unfold relayTo
      dsimp only
      split_ifs <;> exact h.of_eq rfl
    unfold relay
    cases request <;> exact hrelay _ _
  | dfderIsready uid =>
    obtain rfl := Option.some.inj ht
    unfold dfderIsready
    dsimp only
    split_ifs
    · exact h
    · split
      · exact h
      · next b hb => exact (h.setBattleMap hb fun hb => hb.setStart true).of_eq rfl
  | notUnpacked uid => exact Option.some.inj ht ▸ h

theorem fights_startAttack (hfree : s.getBattleMap d = none) :
    (s.startAttack a d).Fights a d (s.point a) := by
  unfold startAttack
  rw [hfree]
  refine ⟨_, ((insertBattleMap_of_none hfree _).2 d).trans (if_pos rfl), ?_⟩
  exact BattleMap.fought_init a d s.point

/-! ## What the endings report -/

@[simp] theorem sendToPlayer_results (msg : Response) :
    (s.sendToPlayer u msg).results = s.results ++ (Response.result (u, msg)).toList := by
  rw [results, sendToPlayer, List.filterMap_append]
  cases hmsg : Response.result (u, msg) <;> simp [results, hmsg]

@[simp] theorem sendToPlayer_point (msg : Response) : (s.sendToPlayer u msg).point = s.point := rfl

theorem plusPlayerPoint_point (points : Int) :
    (s.plusPlayerPoint u points).point v = s.point v + if v = u then points else 0 := by
  change Function.update s.point u (s.point u + points) v = _
  rw [Function.update_apply]
  split_ifs with hv
  · rw [hv]
  · rw [Int.add_zero]

theorem sendResult_results (b : BattleMap) (loot : Option (List Int)) :
    (s.sendResult b u v loot).results =
      s.results ++ [(u, b.starNum, b.gettedPoint.1), (v, b.starNum, b.gettedPoint.2)] := by
  rw [sendResult, sendToPlayer_results, sendToPlayer_results, List.append_assoc]
  rfl

theorem retreat_spec {b : BattleMap} (hb : s.getBattleMap v = some b) (withLoot : Bool) :
    (s.retreat u v withLoot).results =
        s.results ++ [(u, b.starNum, b.gettedPoint.1), (v, b.starNum, b.gettedPoint.2)] ∧
      (s.retreat u v withLoot).point = s.point := by
  unfold retreat
  rw [hb]
  exact ⟨sendResult_results b _, rfl⟩

theorem updateBattleMap_spec {b : BattleMap} (hb : s.getBattleMap d = some b)
    (hgone : (s.updateBattleMap d).getBattleMap d = none) :
    (s.updateBattleMap d).results = s.results ++
        [(b.attackerID, b.starNum, b.gettedPoint.1), (b.defenderID, b.starNum, b.gettedPoint.2)] ∧
      ∀ u, (s.updateBattleMap d).point u = s.point u +
        (if u = b.attackerID then b.gettedPoint.1 else 0) +
        (if u = b.defenderID then b.gettedPoint.2 else 0) := by
  have hticked : b.ticked = none := by
    have hmap := updateBattleMap_getBattleMap (s := s) (u := d) (v := d)
    rw [if_pos rfl, hb, hgone] at hmap
    exact hmap.symm
  have hend : b.isStart ≠ false ∧ 3000 ≤ b.update.getCurTick := by
    unfold BattleMap.ticked at hticked
    split_ifs at hticked with hstart hend
    exact ⟨hstart, hend⟩
  unfold updateBattleMap
  rw [hb]
  dsimp only
  rw [if_neg hend.1, if_pos hend.2]
  generalize hasked : (if b.update.getCurTick % 20 = 0 then
    (s.sendToPlayer b.update.attackerID .askCurState).sendToPlayer b.update.defenderID .askCurState
    else s) = s'
  have hs' : s'.results = s.results ∧ s'.point = s.point := by
    rw [← hasked]
    split_ifs
    · simp [Response.result]
    · exact ⟨rfl, rfl⟩
  constructor
  · have hresults := sendResult_results (s := s') (u := b.attackerID) (v := b.defenderID) b none
    rw [hs'.1] at hresults
    exact hresults
  · intro u
    change ((_ : PvpServer).plusPlayerPoint _ _).point u = _
    rw [plusPlayerPoint_point, plusPlayerPoint_point, ← hs'.2]
    rfl

/-! ## Which endings are settled as documented -/

/-- The code reports what is documented when the difference of the points makes none. -/
theorem gettedPoint_eq_iff {b : BattleMap} (h : b.Fought a d point) (dfderPoint : Int) :
    b.gettedPoint = documented b.starNum point dfderPoint ↔
      if b.diedBuildingNum = buildingNum then (point - dfderPoint).tdiv 10 = 0
      else (point - dfderPoint).tdiv 20 = 0 := by
  rw [h.gettedPoint, h.starNum]
  by_cases hall : b.diedBuildingNum = buildingNum
  · have hdoc : documented 3 point dfderPoint =
        ((30 - (point - dfderPoint).tdiv 10) * 1 + 6,
          -((30 - (point - dfderPoint).tdiv 10) * 1 + 6)) := rfl
    rw [if_pos hall, if_pos hall, if_pos hall, hdoc, Prod.mk.injEq]
    omega
  · have hdoc : documented 0 point dfderPoint =
        (-(20 + (point - dfderPoint).tdiv 20), 20 + (point - dfderPoint).tdiv 20) := rfl
    rw [if_neg hall, if_neg hall, if_neg hall, hdoc, Prod.mk.injEq]
    omega

theorem settled_of_reported {uid : UInt32} {b : BattleMap} {dfderPoint : Int}
    (hresults : t.results = s.results ++
      [(uid, b.starNum, b.gettedPoint.1), (d, b.starNum, b.gettedPoint.2)])
    (h : Settled s t a d b.starNum point dfderPoint) :
    uid = a ∧ b.gettedPoint = documented b.starNum point dfderPoint := by
  have heq := List.append_cancel_left (hresults.symm.trans h.reported)
  obtain ⟨hatker, hdfder⟩ := List.cons.inj heq
  obtain ⟨huid, hatker⟩ := Prod.mk.inj hatker
  obtain ⟨hdfder, -⟩ := List.cons.inj hdfder
  exact ⟨huid, Prod.ext (Prod.mk.inj hatker).2 (Prod.mk.inj (Prod.mk.inj hdfder).2).2⟩

theorem settled_left_iff {uid : UInt32} {b : BattleMap} {dfderPoint : Int}
    (hb : b.Fought a d point) (hself : a = d → point = dfderPoint)
    (hresults : t.results = s.results ++
      [(uid, b.starNum, b.gettedPoint.1), (d, b.starNum, b.gettedPoint.2)])
    (hpoint : t.point = s.point) :
    Settled s t a d b.starNum point dfderPoint ↔ uid = a ∧ a = d := by
  have hgetted := hb.gettedPoint
  constructor
  · intro h
    obtain ⟨huid, hdoc⟩ := settled_of_reported hresults h
    refine ⟨huid, ?_⟩
    by_contra had
    have hstored := h.stored a
    rw [hpoint, if_pos rfl, if_neg had, ← hdoc, hgetted] at hstored
    split_ifs at hstored <;> omega
  · rintro ⟨rfl, rfl⟩
    have hdoc : b.gettedPoint = documented b.starNum point dfderPoint := by
      rw [gettedPoint_eq_iff hb, hself rfl, Int.sub_self]
      split_ifs <;> rfl
    refine ⟨hdoc ▸ hresults, fun u => ?_⟩
    rw [hpoint, ← hdoc, hgetted]
    split_ifs <;> omega

theorem peer_of_gone {b : BattleMap} {withLoot : Bool} (hb : s.getBattleMap d = some b)
    (hgone : (s.retreat u v withLoot).getBattleMap d = none) : v = d := by
  by_contra hne
  refine absurd (hb.symm.trans (Eq.trans ?_ hgone)) (Option.some_ne_none b)
  unfold retreat
  cases s.getBattleMap v with
  | none => rfl
  | some x => exact ((deinitializeBattleMap_getBattleMap).trans (if_neg (Ne.symm hne))).symm

theorem settled_retreat_iff (s' : PvpServer) {b : BattleMap} {dfderPoint : Int} {withLoot : Bool}
    (hb : s'.getBattleMap d = some b) (hfought : b.Fought a d point)
    (hself : a = d → point = dfderPoint) (hsame : s'.results = s.results ∧ s'.point = s.point)
    (hgone : (s'.retreat u v withLoot).getBattleMap d = none) :
    Settled s (s'.retreat u v withLoot) a d b.starNum point dfderPoint ↔ u = a ∧ a = d := by
  obtain rfl := peer_of_gone hb hgone
  obtain ⟨hresults, hpoint⟩ := retreat_spec (u := u) hb withLoot
  rw [hsame.1] at hresults
  exact settled_left_iff hfought hself hresults (hpoint.trans hsame.2)

/-- A battle that ran to its end is settled as documented exactly when its end is even. -/
theorem settled_iff {s₀ s : PvpServer} {a d : UInt32} (hfree : s₀.getBattleMap d = none)
    {es : List PvpEvent}
    (hon : Run.Always step (fun s => s.getBattleMap d ≠ none) (s₀.startAttack a d) es)
    (hrun : Run.exec step (s₀.startAttack a d) es = some s) {e : Ending} (hend : s.Ends d e)
    {b : BattleMap} (hb : s.getBattleMap d = some b) :
    Settled (s.before e) (s.finish d e) a d b.starNum (s₀.point a) (s₀.point d) ↔
      e.Even a d b.diedBuildingNum (s₀.point a) (s₀.point d) := by
  obtain ⟨b', hb', hfought⟩ := Run.exec_within (I := Fights a d (s₀.point a))
    (fun _ _ _ h ht hon => fights_step h ht hon) (fights_startAttack hfree) hon hrun
  obtain rfl := Option.some.inj (hb.symm.trans hb')
  have hself : a = d → s₀.point a = s₀.point d := fun h => congrArg s₀.point h
  have hgone := hend.gone
  cases e with
  | timeOut pre =>
    obtain ⟨post, hkeys⟩ := hend.turn pre rfl
    have hnodup := s.nodup_uids
    rw [hkeys] at hnodup
    -- the turns before leave the battle of `d` alone
    have hpre : d ∉ pre := fun hd => (List.nodup_append.mp hnodup).2.2 d hd d List.mem_cons_self rfl
    have hturn : (pre.foldl updateBattleMap s).getBattleMap d = some b := by
      rw [(foldl_updateBattleMap pre (List.nodup_append.mp hnodup).1).2, if_neg hpre, hb]
    obtain ⟨hresults, hpoint⟩ := updateBattleMap_spec hturn hgone
    rw [hfought.attackerID, hfought.defenderID] at hresults hpoint
    refine Iff.trans ⟨fun h => (settled_of_reported hresults h).2, fun hdoc => ?_⟩
      (gettedPoint_eq_iff hfought (s₀.point d))
    exact ⟨hdoc ▸ hresults, hdoc ▸ hpoint⟩
  | atkerStopBattle uid =>
    refine settled_retreat_iff (s := s)
      ((s.sendToPlayer (s.getPeerUid uid) .atkerStopBattle).sendToPlayer uid .ack) hb hfought hself
      ⟨?_, rfl⟩ hgone
    simp [Response.result]
  | logout uid =>
    let s' : PvpServer :=
      { s with onlinePlayers := Function.update s.onlinePlayers uid false }
    have hlogout : s.logout uid = if s.isAttackerOrDefender uid = 1 then
        s'.sendToPlayer (s.getPeerUid uid) .dfderLogout
      else if s.isAttackerOrDefender uid = 2 then
        (s'.sendToPlayer (s.getPeerUid uid) .atkerLogout).retreat uid (s.getPeerUid uid) false
      else s' := rfl
    have hon : ∀ t : PvpServer, t.getBattleMap d = some b → s.logout uid ≠ t := by
      rintro t ht rfl
      exact absurd (ht.symm.trans hgone) (Option.some_ne_none b)
    change Settled s (s.logout uid) a d b.starNum _ _ ↔ False
    split_ifs at hlogout with hone htwo
    · exact absurd hlogout (hon _ hb)
    · rw [finish, hlogout] at hgone
      rw [hlogout, settled_retreat_iff (s := s) (s'.sendToPlayer (s.getPeerUid uid) .atkerLogout)
        hb hfought hself ⟨?_, rfl⟩ hgone]
      · -- the attacker of himself is a defender when he leaves
        refine iff_of_false ?_ id
        rintro ⟨rfl, rfl⟩
        unfold isAttackerOrDefender at hone
        rw [hb] at hone
        exact hone rfl
      · rw [sendToPlayer_results]
        exact List.append_nil _
    · exact absurd hlogout (hon _ hb)

theorem exec_ticks {b : BattleMap} (hb : s.getBattleMap d = some b) (hstart : b.isStart = true)
    {k : ℕ} (hk : b.ticks + k < 3000) :
    (∃ t, Run.exec step s (List.replicate k .updateBattleMaps) = some t ∧
      t.getBattleMap d = some { b with ticks := b.ticks + k }) ∧
    Run.Always step (fun s => s.getBattleMap d ≠ none) s (List.replicate k .updateBattleMaps) := by
  have hon : s.getBattleMap d ≠ none := by simp [hb]
  induction k generalizing s b with
  | zero => exact ⟨⟨s, rfl, hb⟩, hon⟩
  | succ k ih =>
    have hticked : b.ticked = some b.update := by
      have hlow : ¬ 3000 ≤ b.update.getCurTick := by
        change ¬ 3000 ≤ (b.ticks + 1) % 2 ^ 16
        omega
      rw [BattleMap.ticked, if_neg (by simp [hstart]), if_neg hlow]
    have hnext : s.updateBattleMaps.getBattleMap d = some b.update := by
      rw [updateBattleMaps_getBattleMap, hb]
      exact hticked
    have hsum : b.update.ticks + k = b.ticks + (k + 1) := by
      change b.ticks + 1 + k = _
      omega
    obtain ⟨⟨t, ht, hlast⟩, hall⟩ := ih hnext hstart (by omega) (by simp [hnext])
    refine ⟨⟨t, ht, ?_⟩, hon, fun u hu => ?_⟩
    · rw [hlast, hsum]
      rfl
    · exact Option.some.inj hu ▸ hall

theorem ends_timeOut {b : BattleMap} (hb : s.getBattleMap d = some b) (hlast : b.ticked = none) :
    ∃ pre, s.Ends d (.timeOut pre) := by
  have hmem : d ∈ s.uids := mem_uids.mpr (hb ▸ Option.some_ne_none b)
  obtain ⟨pre, post, hkeys⟩ := List.append_of_mem hmem
  have hnodup := s.nodup_uids
  rw [hkeys] at hnodup
  have hpre : d ∉ pre := fun hd => (List.nodup_append.mp hnodup).2.2 d hd d List.mem_cons_self rfl
  refine ⟨pre, fun pre' hpre' => ⟨post, by rw [← Ending.timeOut.inj hpre', hkeys]⟩, ?_⟩
  rw [finish, updateBattleMap_getBattleMap, if_pos rfl,
    (foldl_updateBattleMap pre (List.nodup_append.mp hnodup).1).2, if_neg hpre, hb]
  exact hlast

def timedRun : List PvpEvent :=
  .objectDie 1 { isBuilding := true, isTownhall := false, buildingType := some 1, curRes := some 9 } ::
    List.replicate 2999 .updateBattleMaps

def nearly : PvpServer := { point := fun u => if u = 1 then 50 else 45 }

theorem settled_iff_timeOut : ∃ s pre, Run.exec step (nearly.startAttack 1 2) timedRun = some s ∧
    (Settled (s.before (.timeOut pre)) (s.finish 2 (.timeOut pre)) 1 2 0 50 45 ↔
      (Ending.timeOut pre).Even 1 2 1 50 45) := by
  obtain ⟨t, ht⟩ : ∃ t, (nearly.startAttack 1 2).step (timedRun.headD (.notUnpacked 1)) = some t :=
    ⟨_, rfl⟩
  obtain ⟨b, hb⟩ : ∃ b, t.getBattleMap 2 = some b := by
    obtain rfl := Option.some.inj ht
    exact ⟨_, rfl⟩
  have hfields : b.isStart = true ∧ b.ticks = 0 ∧ b.starNum = 0 ∧ b.diedBuildingNum = 1 := by
    obtain rfl := Option.some.inj ht
    obtain rfl := Option.some.inj hb
    exact ⟨rfl, rfl, rfl, rfl⟩
  obtain ⟨hstart, hticks, hstars, hdied⟩ := hfields
  obtain ⟨⟨s, hs, hlast⟩, hall⟩ := exec_ticks hb hstart (k := 2999) (by omega)
  obtain ⟨pre, hend⟩ := ends_timeOut hlast <| by
    have hover : 3000 ≤ ({ b with ticks := b.ticks + 2999 } : BattleMap).update.getCurTick := by
      change 3000 ≤ (b.ticks + 2999 + 1) % 2 ^ 16
      omega
    rw [BattleMap.ticked, if_neg (by simp [hstart]), if_pos hover]
  have hrun : Run.exec step (nearly.startAttack 1 2) timedRun = some s :=
    Option.bind_eq_some_iff.mpr ⟨t, ht, hs⟩
  have hon : Run.Always step (fun s => s.getBattleMap 2 ≠ none) (nearly.startAttack 1 2) timedRun :=
    ⟨Option.some_ne_none _, fun u hu => Option.some.inj (ht.symm.trans hu) ▸ hall⟩
  have hsettled := settled_iff rfl hon hrun hend hlast
  dsimp only at hsettled
  rw [hstars, hdied] at hsettled
  exact ⟨s, pre, hrun, hsettled⟩

/-- The attacker stops at once: he is told that he has lost 20 points, and keeps them. -/
theorem not_settled_stopped :
    ¬ ∀ (s₀ s : PvpServer) (a d : UInt32) (es : List PvpEvent) (e : Ending) (b : BattleMap),
      s₀.getBattleMap d = none →
      Run.Always step (fun s => s.getBattleMap d ≠ none) (s₀.startAttack a d) es →
      Run.exec step (s₀.startAttack a d) es = some s → s.Ends d e → s.getBattleMap d = some b →
        Settled (s.before e) (s.finish d e) a d b.starNum (s₀.point a) (s₀.point d) := by
  intro h
  have hsettled := h {} (PvpServer.startAttack {} 1 2) 1 2 [] (.atkerStopBattle 1) _ rfl
    (Option.some_ne_none _) rfl ⟨fun _ h => Ending.noConfusion h, rfl⟩ rfl
  exact absurd (hsettled.stored 1) (by decide)

end PvpServer

end IceBridge.Pvp
