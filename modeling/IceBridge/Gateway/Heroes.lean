import IceBridge.Gateway.Services

/-! The heroes of a player across logins. The post of a hero is stored in the field by which the
loader tells the player's heroes from those in the tavern and from those that are gone. -/

namespace IceBridge.Gateway

namespace LoginWorker
variable {cfg : Config} {s t : LoginWorker} {now : Int}

/-- The player's heroes and those in the tavern are stored as the session has them, each under
its own uuid, and every record of a hero without a post is that of one the player has. -/
structure Rostered (s : LoginWorker) : Prop where
  held : ∀ i h, s.player.myHero i = some h →
    i < 5 ∧ h.heroSn = i + 1 ∧ s.record.hero.find h.heroUuid = some h
  slots : ∀ i h, s.player.myHero i = some h → (s.player.heroEquip h.heroUuid).length = 6
  random : ∀ i h, s.randHero i = some h →
    i < 3 ∧ h.heroSn = i + 1 ∧ h.whereIs = 1 ∧ s.record.hero.find h.heroUuid = some h
  apart : ∀ i h j g, s.player.myHero i = some h → s.randHero j = some g → h.heroUuid ≠ g.heroUuid
  stored : ∀ heroUuid h, s.record.hero.find heroUuid = some h →
    h.heroUuid = heroUuid ∧ 1 ≤ h.heroSn ∧ h.heroSn ≤ 5 ∧
      (h.whereIs ≤ 0 → s.player.myHero (h.heroSn - 1).toNat = some h)

namespace Rostered

theorem eq_of_heroUuid {i j : ℕ} {h g : Hero} (hs : s.Rostered) (hh : s.player.myHero i = some h)
    (hg : s.player.myHero j = some g) (huuid : g.heroUuid = h.heroUuid) : j = i ∧ g = h := by
  obtain ⟨-, hi, hstored⟩ := hs.held i h hh
  obtain ⟨-, hj, hstored'⟩ := hs.held j g hg
  rw [huuid] at hstored'
  obtain rfl := Option.some.inj (hstored.symm.trans hstored')
  exact ⟨by omega, rfl⟩

theorem eq_of_randUuid {i j : ℕ} {h g : Hero} (hs : s.Rostered) (hh : s.randHero i = some h)
    (hg : s.randHero j = some g) (huuid : g.heroUuid = h.heroUuid) : j = i := by
  obtain ⟨-, hi, -, hstored⟩ := hs.random i h hh
  obtain ⟨-, hj, -, hstored'⟩ := hs.random j g hg
  rw [huuid] at hstored'
  obtain rfl := Option.some.inj (hstored.symm.trans hstored')
  omega

theorem of_sameRoster (hs : s.Rostered) (h : SameRoster s t) : t.Rostered := by
  have hfind : ∀ heroUuid, t.record.hero.find heroUuid = s.record.hero.find heroUuid := by
    intro v
    rcases h.hero v with hsame | ⟨i, hero, hheld, huuid, hfound⟩
    · exact hsame
    · rw [hfound, ← huuid, (hs.held i hero hheld).2.2]
  have hmine := h.heroes.myHero
  refine ⟨?_, ?_, ?_, ?_, ?_⟩
  · intro i hero hheld
    rw [hmine] at hheld
    rw [hfind]
    exact hs.held i hero hheld
  · intro i hero hheld
    rw [hmine] at hheld
    rw [h.heroes.slots]
    exact hs.slots i hero hheld
  · intro i hero hrand
    rw [h.randHero] at hrand
    rw [hfind]
    exact hs.random i hero hrand
  · intro i hero j g hheld hrand
    rw [hmine] at hheld
    rw [h.randHero] at hrand
    exact hs.apart i hero j g hheld hrand
  · intro v hero hfound
    rw [hfind] at hfound
    rw [hmine]
    exact hs.stored v hero hfound

theorem put {i : ℕ} {h : Hero} (hs : s.Rostered) (hi : i < 5) (hsn : h.heroSn = i + 1)
    (hmine : t.player.myHero = Function.update s.player.myHero i (some h))
    (hfind : t.record.hero.find = Function.update s.record.hero.find h.heroUuid (some h))
    (hown : ∀ g, s.player.myHero i = some g → g.heroUuid = h.heroUuid)
    (hother : ∀ j g, j ≠ i → s.player.myHero j = some g → g.heroUuid ≠ h.heroUuid)
    (hrandom : ∀ j g, t.randHero j = some g → s.randHero j = some g ∧ h.heroUuid ≠ g.heroUuid)
    (hslots : (t.player.heroEquip h.heroUuid).length = 6)
    (hsame : ∀ v, v ≠ h.heroUuid → t.player.heroEquip v = s.player.heroEquip v) :
    t.Rostered := by
  refine ⟨?_, ?_, ?_, ?_, ?_⟩
  · intro j g hg
    rw [hmine, Function.update_apply] at hg
    rw [hfind]
    split_ifs at hg with hj
    · obtain rfl := Option.some.inj hg
      exact ⟨hj ▸ hi, hj ▸ hsn, Function.update_self _ _ _⟩
    · rw [Function.update_of_ne (hother j g hj hg)]
      exact hs.held j g hg
  · intro j g hg
    rw [hmine, Function.update_apply] at hg
    split_ifs at hg with hj
    · obtain rfl := Option.some.inj hg
      exact hslots
    · rw [hsame _ (hother j g hj hg)]
      exact hs.slots j g hg
  · intro j g hg
    obtain ⟨hg, huuid⟩ := hrandom j g hg
    rw [hfind, Function.update_of_ne huuid.symm]
    exact hs.random j g hg
  · intro j g k f hg hf
    obtain ⟨hf, huuid⟩ := hrandom k f hf
    rw [hmine, Function.update_apply] at hg
    split_ifs at hg
    · obtain rfl := Option.some.inj hg
      exact huuid
    · exact hs.apart j g k f hg hf
  · intro v g hg
    rw [hfind, Function.update_apply] at hg
    rw [hmine]
    split_ifs at hg with hv
    · obtain rfl := Option.some.inj hg
      have hplace : (h.heroSn - 1).toNat = i := by omega
      refine ⟨hv.symm, by omega, by omega, ?_⟩
      intro _
      rw [hplace]
      exact Function.update_self _ _ _
    · obtain ⟨huuid, hlow, hhigh, hmineg⟩ := hs.stored v g hg
      refine ⟨huuid, hlow, hhigh, ?_⟩
      intro hpost
      have hheld := hmineg hpost
      rw [Function.update_apply]
      split_ifs with hplace
      · rw [hplace] at hheld
        exact absurd (huuid.symm.trans (hown g hheld)) hv
      · exact hheld

theorem setHero {i : ℕ} {h : Hero} (hs : s.Rostered) (hh : s.player.myHero i = some h)
    (post : Int) : (s.setHero i { h with whereIs := post }).Rostered := by
  obtain ⟨hi, hsn, -⟩ := hs.held i h hh
  refine hs.put (h := { h with whereIs := post }) hi hsn ?_ ?_ ?_ ?_ ?_ ?_ ?_
  · rw [player_setHero]
  · rw [record_setHero]
    rfl
  · intro g hg
    rw [Option.some.inj (hg.symm.trans hh)]
  · exact fun j g hj hg huuid => hj (hs.eq_of_heroUuid hh hg huuid).1
  · exact fun j g hg => ⟨hg, hs.apart i h j g hh hg⟩
  · rw [player_setHero]
    exact hs.slots i h hh
  · intro v _
    rw [player_setHero]

theorem getRandHero (hs : s.Rostered) (heroSn : Int) :
    (s.getRandHero heroSn).worker.Rostered := by
  unfold LoginWorker.getRandHero
  split_ifs
  · split
    · next position h hposition hh =>
      have hlt : position < 5 := List.mem_range.mp (List.mem_of_find?_eq_some hposition)
      have hnone := List.find?_some hposition
      have hfree : s.player.myHero position = none := Option.isNone_iff_eq_none.mp hnone
      set p : Player := { s.player with
        heroEquip := Function.update s.player.heroEquip h.heroUuid emptySlots }
      have hplayer : ∀ r, ({ s.setPlayer p with randHero := r } : LoginWorker).player = p :=
        fun _ => player_setPlayer p
      refine hs.put (h := { h with whereIs := 0, heroSn := position + 1 }) hlt rfl ?_ ?_ ?_ ?_ ?_
        ?_ ?_
      · dsimp only [accept]
        rw [player_setHero, hplayer]
      · dsimp only [accept]
        rw [record_setHero]
        rfl
      · intro g hg
        exact absurd (hfree.symm.trans hg) (by simp)
      · exact fun j g _ hg => hs.apart j g _ h hg hh
      · intro j g hg
        have hupdate : Function.update s.randHero (heroSn - 1).toNat none j = some g := hg
        rw [Function.update_apply] at hupdate
        split_ifs at hupdate with hj
        exact ⟨hupdate, fun huuid => hj (hs.eq_of_randUuid hh hupdate huuid.symm)⟩
      · dsimp only [accept]
        rw [player_setHero, hplayer]
        show (Function.update s.player.heroEquip h.heroUuid emptySlots h.heroUuid).length = 6
        rw [Function.update_self]
        rfl
      · intro v hv
        dsimp only [accept]
        rw [player_setHero, hplayer]
        exact Function.update_of_ne hv _ _
    · exact hs
  · exact hs

theorem appointHero (hs : s.Rostered) (heroUuid : String) (jobTitle : Int) :
    (s.appointHero heroUuid jobTitle).worker.Rostered :=
  appointHero_keeps (fun _ _ _ post hs hh => hs.setHero hh post) hs heroUuid jobTitle

theorem cancelHero (hs : s.Rostered) (heroUuid : String) :
    (s.cancelHero heroUuid).worker.Rostered :=
  cancelHero_keeps (fun _ _ _ post hs hh => hs.setHero hh post) hs heroUuid

theorem refreshRandomHero_keeps {i : ℕ} {heroUuid : String} {g : Hero} (space : Int)
    (hnew : s.record.hero.find heroUuid = none) (hg : s.record.hero.find g.heroUuid = some g)
    (hold : ∀ old, s.randHero i = some old → old.heroUuid ≠ g.heroUuid) :
    (s.refreshRandomHero i heroUuid space).record.hero.find g.heroUuid = some g := by
  have hne : g.heroUuid ≠ heroUuid := by
    intro huuid
    rw [huuid, hnew] at hg
    exact Option.some_ne_none g hg.symm
  rw [LoginWorker.refreshRandomHero, record_setRecord, Records.setHero, Keyspace.find_set,
    Function.update_of_ne hne]
  split
  · exact hg
  · next old hrandOld =>
    rw [Records.delHero, Keyspace.find_del, Function.update_of_ne (hold old hrandOld).symm]
    exact hg

theorem refreshRandomHero_back {i : ℕ} {heroUuid v : String} {space : Int} {g : Hero}
    (hg : (s.refreshRandomHero i heroUuid space).record.hero.find v = some g) :
    v = heroUuid ∧ g = { heroUuid, curGoodsSpace := space, heroSn := i + 1, whereIs := 1 } ∨
      s.record.hero.find v = some g := by
  rw [LoginWorker.refreshRandomHero, record_setRecord, Records.setHero, Keyspace.find_set,
    Function.update_apply] at hg
  split_ifs at hg with hv
  · exact .inl ⟨hv, (Option.some.inj hg).symm⟩
  · refine .inr ?_
    split at hg
    · exact hg
    · rw [Records.delHero, Keyspace.find_del, Function.update_apply] at hg
      split_ifs at hg
      exact hg

theorem refreshRandomHero {i : ℕ} {heroUuid : String} (hs : s.Rostered) (hi : i < 3)
    (hnew : s.record.hero.find heroUuid = none) (space : Int) :
    (s.refreshRandomHero i heroUuid space).Rostered := by
  set res : Hero := { heroUuid, curGoodsSpace := space, heroSn := i + 1, whereIs := 1 }
  have hplayer : (s.refreshRandomHero i heroUuid space).player = s.player := by
    rw [LoginWorker.refreshRandomHero, player_setRecord]
    rfl
  have hrand : (s.refreshRandomHero i heroUuid space).randHero =
      Function.update s.randHero i (some res) := rfl
  have hfind : (s.refreshRandomHero i heroUuid space).record.hero.find heroUuid = some res := by
    rw [LoginWorker.refreshRandomHero, record_setRecord, Records.setHero, Keyspace.find_set]
    exact Function.update_self _ _ _
  refine ⟨?_, ?_, ?_, ?_, ?_⟩
  · intro j g hg
    rw [hplayer] at hg
    obtain ⟨hj, hsn, hfound⟩ := hs.held j g hg
    exact ⟨hj, hsn, refreshRandomHero_keeps space hnew hfound
      fun old hold => (hs.apart j g i old hg hold).symm⟩
  · intro j g hg
    rw [hplayer] at hg ⊢
    exact hs.slots j g hg
  · intro j g hg
    rw [hrand, Function.update_apply] at hg
    split_ifs at hg with hj
    · obtain rfl := Option.some.inj hg
      exact ⟨hj ▸ hi, hj ▸ rfl, rfl, hfind⟩
    · obtain ⟨hlt, hsn, hpost, hfound⟩ := hs.random j g hg
      refine ⟨hlt, hsn, hpost, refreshRandomHero_keeps space hnew hfound ?_⟩
      exact fun old hold huuid => hj (hs.eq_of_randUuid hold hg huuid.symm)
  · intro j g k f hg hf
    rw [hplayer] at hg
    rw [hrand, Function.update_apply] at hf
    split_ifs at hf
    · obtain rfl := Option.some.inj hf
      intro huuid
      have hfound := (hs.held j g hg).2.2
      rw [huuid, hnew] at hfound
      exact Option.some_ne_none g hfound.symm
    · exact hs.apart j g k f hg hf
  · intro v g hg
    rw [hplayer]
    rcases refreshRandomHero_back hg with ⟨rfl, rfl⟩ | hbefore
    · refine ⟨rfl, ?_, ?_, ?_⟩
      · show (1 : Int) ≤ i + 1
        omega
      · show (i : Int) + 1 ≤ 5
        omega
      · intro hpost
        have hone : (1 : Int) ≤ 0 := hpost
        omega
    · exact hs.stored v g hbefore

theorem find_refreshRandomHero {i : ℕ} {heroUuid v : String} (space : Int) (hne : v ≠ heroUuid)
    (hnone : s.record.hero.find v = none) :
    (s.refreshRandomHero i heroUuid space).record.hero.find v = none := by
  cases hfind : (s.refreshRandomHero i heroUuid space).record.hero.find v with
  | none => rfl
  | some g =>
    rcases refreshRandomHero_back hfind with ⟨hv, -⟩ | hbefore
    · exact absurd hv hne
    · exact absurd (hnone.symm.trans hbefore) (by simp)

theorem foldl_refreshRandomHero {new : NewHeroes} (hinj : Function.Injective new.heroUuid)
    {l : List (Fin 3)} (hl : l.Nodup) (hs : s.Rostered)
    (hnew : ∀ i ∈ l, s.record.hero.find (new.heroUuid i) = none) :
    (l.foldl (fun t i => t.refreshRandomHero i (new.heroUuid i) (new.curGoodsSpace i)) s).Rostered := by
  induction l generalizing s with
  | nil => exact hs
  | cons i l ih =>
    obtain ⟨hi, hl⟩ := List.nodup_cons.mp hl
    apply ih hl (hs.refreshRandomHero i.isLt (hnew i List.mem_cons_self) _)
    intro j hj
    have hne : new.heroUuid j ≠ new.heroUuid i := fun huuid => hi (hinj huuid ▸ hj)
    exact find_refreshRandomHero _ hne (hnew j (List.mem_cons_of_mem i hj))

theorem recruit {randomType : Int} {new : NewHeroes} {reply : ServiceReply} (hs : s.Rostered)
    (hr : s.recruit cfg randomType new = some reply) : reply.worker.Rostered := by
  obtain ⟨reply', hreply, hr⟩ := Option.bind_eq_some_iff.mp hr
  have hsame : SameRoster s reply'.worker :=
    sameRoster_onEstate (fun _ _ => Estate.sameHeroes_recruit) hreply
  have hs' := hs.of_sameRoster hsame
  split_ifs at hr with _ hunused
  · exact Option.some.inj hr ▸ hs'
  · obtain rfl := Option.some.inj hr
    obtain ⟨hinj, hnew⟩ := hunused
    have hnone : ∀ i ∈ List.finRange 3, reply'.worker.record.hero.find (new.heroUuid i) = none := by
      intro i _
      rw [record_onEstate hreply]
      exact Option.isNone_iff_eq_none.mp (hnew i).1
    refine (foldl_refreshRandomHero hinj (List.nodup_finRange 3) hs' hnone).of_sameRoster ?_
    refine ⟨rfl, rfl, SameHeroes.refl _, rfl, fun _ => .inl ?_⟩
    rw [record_setRecord]
    rfl

theorem serve {r : Request} {reply : ServiceReply} (hs : s.Rostered)
    (hr : s.serve cfg now r = some reply) : reply.worker.Rostered := by
  by_cases hother : r.ForHeroes
  · cases r with
    | recruit randomType new => exact hs.recruit hr
    | getRandHero heroSn => exact Option.some.inj hr ▸ hs.getRandHero heroSn
    | dropHero heroSn => exact (Slotted.dropHero hs.slots hr).symm ▸ hs
    | appointHero heroUuid jobTitle => exact Option.some.inj hr ▸ hs.appointHero heroUuid jobTitle
    | cancelHero heroUuid => exact Option.some.inj hr ▸ hs.cancelHero heroUuid
    | _ => exact absurd hother id
  · exact hs.of_sameRoster (sameRoster_serve hr hother)

end Rostered

/-- Logout, a new connection and a login: the replies to `keys` name the records in any order. -/
def relogin (cfg : Config) (s : LoginWorker) (now : Int) (isMan : Bool)
    (heroKeys equipKeys : List String) : Option LoginWorker :=
  if heroKeys.Perm s.record.hero.keys ∧ equipKeys.Perm s.record.equip.keys then
    let world := { s.world with
      player := Function.update s.world.player s.playerUuid {}
      online := Function.update s.world.online s.playerUuid false }
    (onConnect world s.records s.registry 0 0 0 0 isMan).loginHandle2 cfg s.playerUuid now
      heroKeys equipKeys
  else none

def seat (h : Hero) : ℕ := (h.heroSn - 1).toNat

/-- What `get_all_hero` makes of records with the numbers that the gateway writes. -/
theorem foldlM_getHero {l : List Hero} {m m' : Loaded} (h : l.foldlM getHero m = some m')
    (hsn : ∀ a ∈ l, 1 ≤ a.heroSn ∧ a.heroSn ≤ 5) :
    m'.myHero = Keyspace.place seat m.myHero (l.filter fun a => a.whereIs ≤ 0) ∧
      m'.randHero = Keyspace.place seat m.randHero
        (l.filter fun a => a.whereIs = 1 ∧ a.heroSn < 4) := by
  induction l generalizing m with
  | nil => exact Option.some.inj h ▸ ⟨rfl, rfl⟩
  | cons a l ih =>
    rw [List.foldlM_cons] at h
    obtain ⟨u, hu, h⟩ := Option.bind_eq_some_iff.mp h
    obtain ⟨hmine, hrandom⟩ := ih h fun b hb => hsn b (List.mem_cons_of_mem a hb)
    obtain ⟨hlow, hhigh⟩ := hsn a List.mem_cons_self
    have hsix : ¬ 6 < a.heroSn := by omega
    have hone : ¬ a.heroSn < 1 := by omega
    have hpos : 0 < a.heroSn := hlow
    unfold getHero at hu
    simp only [hsix, hone, hpos, if_false, true_and] at hu
    rw [hmine, hrandom, List.filter_cons, List.filter_cons]
    split_ifs at hu with hpost htavern
    · obtain rfl := Option.some.inj hu
      have hnot : ¬ (a.whereIs = 1 ∧ a.heroSn < 4) := by omega
      simp only [hpost, hnot, decide_true, decide_false, if_true]
      exact ⟨rfl, rfl⟩
    · obtain rfl := Option.some.inj hu
      simp only [htavern, and_self, decide_true, if_true]
      exact ⟨rfl, rfl⟩
    · obtain rfl := Option.some.inj hu
      simp only [hpost, htavern, decide_false]
      exact ⟨rfl, rfl⟩

namespace Rostered
variable {heroKeys equipKeys : List String}

theorem mem_records (hs : s.Rostered) (hkeys : heroKeys.Perm s.record.hero.keys) (h : Hero) :
    h ∈ s.record.hero.records heroKeys ↔ s.record.hero.find h.heroUuid = some h := by
  rw [Keyspace.mem_records hkeys]
  constructor
  · rintro ⟨k, hk⟩
    rwa [(hs.stored k h hk).1]
  · intro hfound
    exact ⟨_, hfound⟩

theorem place_mine (hs : s.Rostered) (hkeys : heroKeys.Perm s.record.hero.keys) (i : ℕ)
    (h : Hero) : Keyspace.place seat (fun _ => none)
      ((s.record.hero.records heroKeys).filter fun a => a.whereIs ≤ 0) i = some h ↔
    s.player.myHero i = some h ∧ h.whereIs ≤ 0 := by
  constructor
  · intro hplace
    rcases Keyspace.place_cases hplace with hnone | ⟨hfilter, hseat⟩
    · exact absurd hnone.symm (Option.some_ne_none h)
    · obtain ⟨hmem, hpost⟩ := List.mem_filter.mp hfilter
      have hpost : h.whereIs ≤ 0 := of_decide_eq_true hpost
      obtain ⟨-, -, -, hheld⟩ := hs.stored _ h ((hs.mem_records hkeys h).mp hmem)
      exact ⟨hseat ▸ hheld hpost, hpost⟩
  · rintro ⟨hheld, hpost⟩
    obtain ⟨-, hsn, hfound⟩ := hs.held i h hheld
    have hseat : seat h = i := by
      unfold seat
      omega
    have hmem := (hs.mem_records hkeys h).mpr hfound
    have hfilter : h ∈ (s.record.hero.records heroKeys).filter fun a => a.whereIs ≤ 0 :=
      List.mem_filter.mpr ⟨hmem, decide_eq_true hpost⟩
    rw [← hseat]
    apply Keyspace.place_of_mem hfilter
    -- no other hero without a post has his seat
    intro b hb hsame
    obtain ⟨hbmem, hbpost⟩ := List.mem_filter.mp hb
    obtain ⟨-, -, -, hbheld⟩ := hs.stored _ b ((hs.mem_records hkeys b).mp hbmem)
    have hthere : s.player.myHero (seat b) = some b := hbheld (of_decide_eq_true hbpost)
    rw [hsame, hseat, hheld] at hthere
    exact (Option.some.inj hthere).symm

theorem of_place_tavern (hs : s.Rostered) (hkeys : heroKeys.Perm s.record.hero.keys) {j : ℕ}
    {g : Hero} (hg : Keyspace.place seat (fun _ => none)
      ((s.record.hero.records heroKeys).filter fun a => a.whereIs = 1 ∧ a.heroSn < 4) j = some g) :
    j < 3 ∧ g.heroSn = j + 1 ∧ g.whereIs = 1 ∧ s.record.hero.find g.heroUuid = some g := by
  rcases Keyspace.place_cases hg with hnone | ⟨hfilter, hseat⟩
  · exact absurd hnone.symm (Option.some_ne_none g)
  · obtain ⟨hmem, hpost⟩ := List.mem_filter.mp hfilter
    obtain ⟨hone, hfour⟩ := of_decide_eq_true hpost
    have hfound := (hs.mem_records hkeys g).mp hmem
    obtain ⟨-, hlow, -, -⟩ := hs.stored _ g hfound
    unfold seat at hseat
    exact ⟨by omega, by omega, hone, hfound⟩

theorem of_loaded (hs : s.Rostered) (hkeys : heroKeys.Perm s.record.hero.keys)
    (hrecord : t.record = s.record)
    (hmine : t.player.myHero = Keyspace.place seat (fun _ => none)
      ((s.record.hero.records heroKeys).filter fun a => a.whereIs ≤ 0))
    (htavern : t.randHero = Keyspace.place seat (fun _ => none)
      ((s.record.hero.records heroKeys).filter fun a => a.whereIs = 1 ∧ a.heroSn < 4))
    (hslots : ∀ i h, t.player.myHero i = some h → (t.player.heroEquip h.heroUuid).length = 6) :
    t.Rostered := by
  have hheld : ∀ i h, t.player.myHero i = some h ↔ s.player.myHero i = some h ∧ h.whereIs ≤ 0 := by
    intro i h
    rw [hmine]
    exact hs.place_mine hkeys i h
  refine ⟨?_, hslots, ?_, ?_, ?_⟩
  · intro i h hh
    rw [hrecord]
    exact hs.held i h ((hheld i h).mp hh).1
  · intro j g hg
    rw [htavern] at hg
    rw [hrecord]
    exact hs.of_place_tavern hkeys hg
  · intro i h j g hh hg huuid
    rw [htavern] at hg
    obtain ⟨hh, hpost⟩ := (hheld i h).mp hh
    obtain ⟨-, -, hone, hfound⟩ := hs.of_place_tavern hkeys hg
    have hfound' := (hs.held i h hh).2.2
    rw [huuid] at hfound'
    obtain rfl := Option.some.inj (hfound.symm.trans hfound')
    omega
  · intro v h hfound
    rw [hrecord] at hfound
    obtain ⟨huuid, hlow, hhigh, hmineh⟩ := hs.stored v h hfound
    refine ⟨huuid, hlow, hhigh, ?_⟩
    intro hpost
    exact (hheld _ h).mpr ⟨hmineh hpost, hpost⟩

theorem relogin {isMan : Bool} (hs : s.Rostered)
    (ht : s.relogin cfg now isMan heroKeys equipKeys = some t) : t.Rostered ∧
    ∀ i h, t.player.myHero i = some h ↔ s.player.myHero i = some h ∧ h.whereIs ≤ 0 := by
  unfold LoginWorker.relogin at ht
  split_ifs at ht with hkeys
  obtain ⟨hkeys, -⟩ := hkeys
  obtain ⟨m, hm, hloaded⟩ := loginHandle2_loaded ht
  -- the memory of a new connection is empty
  set fresh := onConnect _ s.records s.registry 0 0 0 0 isMan
  have hfresh : fresh.player = { asset := 0, backpackNum := 0 } := World.player_setPlayer_self _
  have hnone : fresh.loading.myHero = fun _ => none := by
    unfold loading
    rw [hfresh]
  have hslotted : m.Slotted := by
    refine slotted_getEquipList ?_ hm
    intro i h hh
    rw [hnone] at hh
    exact absurd hh.symm (Option.some_ne_none h)
  obtain ⟨heroes, hheroes, hm⟩ := Option.bind_eq_some_iff.mp hm
  obtain rfl := Option.some.inj hm
  have hsn : ∀ a ∈ s.record.hero.records heroKeys, 1 ≤ a.heroSn ∧ a.heroSn ≤ 5 := by
    intro a ha
    obtain ⟨-, hlow, hhigh, -⟩ := hs.stored _ a ((hs.mem_records hkeys a).mp ha)
    exact ⟨hlow, hhigh⟩
  obtain ⟨hplaced, hrandom⟩ := foldlM_getHero hheroes hsn
  rw [hnone] at hplaced
  have hmine := hloaded.myHero.trans ((getEquip_heroes _ _).1.trans hplaced)
  have htavern := hloaded.randHero.trans ((getEquip_heroes _ _).2.trans hrandom)
  have hrecord : t.record = s.record := by
    unfold record
    rw [hloaded.playerUuid, hloaded.records]
    rfl
  refine ⟨hs.of_loaded hkeys hrecord hmine htavern ?_, ?_⟩
  · intro i h hh
    rw [hloaded.myHero] at hh
    rw [hloaded.heroEquip]
    exact hslotted i h hh
  · intro i h
    rw [hmine]
    exact hs.place_mine hkeys i h

end Rostered

end LoginWorker

inductive HeroEvent
  | request (r : LoginWorker.Request) (now : Int)
  | relogin (now : Int) (isMan : Bool) (heroKeys equipKeys : List String)
  | others (world : World)

namespace LoginWorker
variable {cfg : Config} {s t : LoginWorker} {now : Int}

def heroStep (cfg : Config) (s : LoginWorker) : HeroEvent → Option LoginWorker
  | .request r now => (s.serve cfg now r).map ServiceReply.worker
  | .relogin now isMan heroKeys equipKeys => s.relogin cfg now isMan heroKeys equipKeys
  | .others world => some (s.others world)

structure NoHeroes (s : LoginWorker) : Prop where
  myHero : ∀ i, s.player.myHero i = none
  randHero : ∀ i, s.randHero i = none
  hero : ∀ heroUuid, s.record.hero.find heroUuid = none

theorem NoHeroes.rostered (hs : s.NoHeroes) : s.Rostered where
  held i h hh := absurd ((hs.myHero i).symm.trans hh) (by simp)
  slots i h hh := absurd ((hs.myHero i).symm.trans hh) (by simp)
  random i h hh := absurd ((hs.randHero i).symm.trans hh) (by simp)
  apart i h _ _ hh := absurd ((hs.myHero i).symm.trans hh) (by simp)
  stored v h hh := absurd ((hs.hero v).symm.trans hh) (by simp)

theorem noHeroes_loginHandle2 {uuid : UInt32} {heroKeys equipKeys : List String}
    (hmine : ∀ i, s.player.myHero i = none) (hrandom : ∀ i, s.randHero i = none)
    (hstored : ∀ v, (s.records uuid).hero.find v = none)
    (ht : s.loginHandle2 cfg uuid now heroKeys equipKeys = some t) : t.NoHeroes := by
  obtain ⟨m, hm, hloaded⟩ := loginHandle2_loaded ht
  obtain ⟨heroes, hheroes, hm⟩ := Option.bind_eq_some_iff.mp hm
  obtain rfl := Option.some.inj hm
  have hempty : (s.records uuid).hero.records heroKeys = [] :=
    List.filterMap_eq_nil_iff.mpr fun v _ => hstored v
  rw [hempty] at hheroes
  obtain rfl := Option.some.inj hheroes
  refine ⟨?_, ?_, ?_⟩
  · intro i
    rw [hloaded.myHero, (getEquip_heroes _ _).1]
    exact hmine i
  · intro i
    rw [hloaded.randHero, (getEquip_heroes _ _).2]
    exact hrandom i
  · intro v
    unfold record
    rw [hloaded.playerUuid, hloaded.records]
    exact hstored v

theorem setUserName_same {name : String} {set : Bool} (ht : s.setUserName name = some (set, t)) :
    t.world.player = s.world.player ∧ t.records = s.records ∧ t.randHero = s.randHero := by
  unfold setUserName at ht
  split_ifs at ht
  · obtain ⟨-, rfl⟩ := Prod.mk.inj (Option.some.inj ht)
    exact ⟨rfl, rfl, rfl⟩
  · obtain ⟨-, rfl⟩ := Prod.mk.inj (Option.some.inj ht)
    exact ⟨rfl, rfl, rfl⟩
  · obtain ⟨-, rfl⟩ := Prod.mk.inj (Option.some.inj ht)
    exact ⟨rfl, rfl, rfl⟩

theorem noHeroes_register {world : World} {records : UInt32 → Records} {registry : Registry}
    {asset : Balances} {backpackNum recuiteType chanceNum : Int} {isMan : Bool}
    {name account passwd : String} {uuid : UInt32} {sns heroKeys equipKeys : List String}
    (hstored : ∀ v, (records uuid).hero.find v = none)
    (ht : (onConnect world records registry asset backpackNum recuiteType chanceNum
      isMan).register cfg name account passwd uuid sns now heroKeys equipKeys = some t) :
    t = onConnect world records registry asset backpackNum recuiteType chanceNum isMan ∨
      t.NoHeroes := by
  unfold register at ht
  split_ifs at ht
  · exact .inl (Option.some.inj ht).symm
  · obtain ⟨⟨set, u⟩, hu, ht⟩ := Option.bind_eq_some_iff.mp ht
    obtain ⟨hplayer, hrecords, hrandom⟩ := setUserName_same hu
    refine .inr (noHeroes_loginHandle2 ?_ ?_ ?_ ht)
    · intro i
      show (u.world.player 0).myHero i = none
      rw [hplayer]
      show ((world.setPlayer 0 _).player 0).myHero i = none
      rw [World.player_setPlayer_self]
    · intro i
      show u.randHero i = none
      rw [hrandom]
      rfl
    · intro v
      show (Function.update u.records uuid _ uuid).hero.find v = none
      rw [Function.update_self, hrecords]
      exact hstored v

theorem player_others (world : World) : (s.others world).player = { s.player with
    emailSaleList := if s.loginStatus then (world.player s.playerUuid).emailSaleList
      else s.player.emailSaleList } :=
  World.player_setPlayer_self _

theorem sameRoster_others (world : World) : SameRoster s (s.others world) := by
  refine ⟨rfl, rfl, ?_, rfl, fun _ => .inl rfl⟩
  rw [player_others]
  exact ⟨rfl, fun _ => rfl, rfl⟩

theorem rostered_heroStep {e : HeroEvent} (hs : s.Rostered) (ht : s.heroStep cfg e = some t) :
    t.Rostered := by
  cases e with
  | request r now =>
    obtain ⟨reply, hreply, rfl⟩ := Option.map_eq_some_iff.mp ht
    exact hs.serve hreply
  | relogin now isMan heroKeys equipKeys => exact (hs.relogin ht).1
  | others world => exact Option.some.inj ht ▸ hs.of_sameRoster (sameRoster_others world)

def heldHeroes (s : LoginWorker) : Set String :=
  {heroUuid | ∃ i h, s.player.myHero i = some h ∧ h.heroUuid = heroUuid}

def appointed (jobTitle : Int) : List HeroEvent :=
  [.request (.recruit 1 ⟨["a", "b", "c"].get, fun _ => 6⟩) 0, .request (.getRandHero 1) 0,
    .request (.appointHero "a" jobTitle) 0]

/-- After any run of requests and logins, the heroes that a player has at the logout are those
after the next login exactly when none of them has a post. -/
theorem heldHeroes_relogin_iff {s₀ : LoginWorker} {es : List HeroEvent} {isMan : Bool}
    {heroKeys equipKeys : List String} (hnew : s₀.NoHeroes)
    (hrun : Run.exec (heroStep cfg) s₀ es = some s)
    (ht : s.relogin cfg now isMan heroKeys equipKeys = some t) :
    t.heldHeroes = s.heldHeroes ↔ ∀ i h, s.player.myHero i = some h → h.whereIs ≤ 0 := by
  have hs : s.Rostered :=
    Run.exec_invariant (fun _ _ _ hs ht => rostered_heroStep hs ht) hnew.rostered hrun
  have hheld := (hs.relogin ht).2
  constructor
  · intro hsame i h hh
    have hmem : h.heroUuid ∈ t.heldHeroes := by
      rw [hsame]
      exact ⟨i, h, hh, rfl⟩
    obtain ⟨j, g, hg, huuid⟩ := hmem
    obtain ⟨hg, hpost⟩ := (hheld j g).mp hg
    rwa [← (hs.eq_of_heroUuid hh hg huuid).2]
  · intro hposts
    ext v
    constructor
    · rintro ⟨i, h, hh, huuid⟩
      exact ⟨i, h, ((hheld i h).mp hh).1, huuid⟩
    · rintro ⟨i, h, hh, huuid⟩
      exact ⟨i, h, (hheld i h).mpr ⟨hh, hposts i h hh⟩, huuid⟩

theorem heldHeroes_relogin_cancelled : ∃ s t,
    Run.exec (heroStep { heroUpdateConfig := [0, 0] }) {} (appointed 2 ++
      [.request (.cancelHero "a") 0]) = some s ∧
    s.relogin { heroUpdateConfig := [0, 0] } 0 false ["a", "b", "c"] [] = some t ∧
    (t.heldHeroes = s.heldHeroes ↔ ∀ i h, s.player.myHero i = some h → h.whereIs ≤ 0) := by
  have hend : ((Run.exec (heroStep { heroUpdateConfig := [0, 0] }) {} (appointed 2 ++
      [.request (.cancelHero "a") 0])).bind fun s =>
        s.relogin { heroUpdateConfig := [0, 0] } 0 false ["a", "b", "c"] []).isSome := by
    decide +kernel
  obtain ⟨t, ht⟩ := Option.isSome_iff_exists.mp hend
  obtain ⟨s, hs, ht⟩ := Option.bind_eq_some_iff.mp ht
  refine ⟨s, t, hs, ht, ?_⟩
  exact heldHeroes_relogin_iff ⟨fun _ => rfl, fun _ => rfl, fun _ => rfl⟩ hs ht

/-- One who is appointed to post 2 is gone after the next login. -/
theorem not_heldHeroes_appointed :
    ¬ ∀ (cfg : Config) (s₀ s t : LoginWorker) (es : List HeroEvent) (now : Int) (isMan : Bool)
      (heroKeys equipKeys : List String), s₀.NoHeroes →
        Run.exec (heroStep cfg) s₀ es = some s →
        s.relogin cfg now isMan heroKeys equipKeys = some t → t.heldHeroes = s.heldHeroes := by
  intro hall
  let cfg : Config := { heroUpdateConfig := [0, 0] }
  have hnew : NoHeroes {} := ⟨fun _ => rfl, fun _ => rfl, fun _ => rfl⟩
  have hend : ((Run.exec (heroStep cfg) {} (appointed 2)).bind fun s =>
      (s.relogin cfg 0 false ["a", "b", "c"] []).map fun _ => s.player.myHero 0) =
        some (some { heroUuid := "a", curGoodsSpace := 6, heroSn := 1, whereIs := 2 }) := by
    decide +kernel
  obtain ⟨s, hs, hend⟩ := Option.bind_eq_some_iff.mp hend
  obtain ⟨t, ht, hheld⟩ := Option.map_eq_some_iff.mp hend
  have hrostered : s.Rostered :=
    Run.exec_invariant (fun _ _ _ hs ht => rostered_heroStep hs ht) hnew.rostered hs
  have hmem : "a" ∈ t.heldHeroes := by
    rw [hall cfg {} s t (appointed 2) 0 false _ _ hnew hs ht]
    exact ⟨0, _, hheld, rfl⟩
  obtain ⟨i, g, hg, huuid⟩ := hmem
  obtain ⟨hg, hpost⟩ := ((hrostered.relogin ht).2 i g).mp hg
  obtain ⟨-, rfl⟩ := hrostered.eq_of_heroUuid hheld hg huuid
  exact absurd hpost (by decide)

end LoginWorker

end IceBridge.Gateway
