import IceBridge.Gateway.RedisLoad

/-! An email and its equip are two records. The login puts them together again. -/

namespace IceBridge.Gateway.RedisChatWorker
open Redis (IsClean IsWord)

def InEmail (emailUuid : String) (res : Equip) : Prop :=
  res.witchPannle = 2 ∧ res.whereUuid = emailUuid

instance (emailUuid : String) (res : Equip) : Decidable (InEmail emailUuid res) :=
  inferInstanceAs (Decidable (_ ∧ _))

namespace EmailList

theorem attach_apply (list : EmailList) (res : Equip) (k : String) :
    list.attach res k =
      if InEmail k res then some { (list k).getD {} with equip := res } else list k := by
  unfold attach
  split_ifs with hpannle hin hin
  · rw [hin.2]
    exact Function.update_self _ _ _
  · exact Function.update_of_ne (fun hk => hin ⟨hpannle, hk.symm⟩) _ _
  · exact absurd hin.1 hpannle
  · rfl

theorem foldl_attach (list : EmailList) (l : List Equip) (k : String) :
    (l.foldl attach list k = list k ∧ ∀ res ∈ l, ¬ InEmail k res) ∨
      ∃ res ∈ l, InEmail k res ∧
        l.foldl attach list k = some { (list k).getD {} with equip := res } := by
  induction l using List.reverseRecOn with
  | nil => exact .inl ⟨rfl, fun _ h => absurd h List.not_mem_nil⟩
  | append_singleton l res ih =>
    rw [List.foldl_concat, attach_apply]
    by_cases hres : InEmail k res
    · rw [if_pos hres]
      refine .inr ⟨res, by simp, hres, ?_⟩
      rcases ih with ⟨hsame, -⟩ | ⟨_, -, -, hequip⟩
      · rw [hsame]
      · rw [hequip]
        rfl
    · rw [if_neg hres]
      rcases ih with ⟨hsame, hnone⟩ | ⟨res', hmem, hin, hequip⟩
      · refine .inl ⟨hsame, fun x hx => ?_⟩
        rcases List.mem_append.mp hx with hx | hx
        · exact hnone x hx
        · exact List.mem_singleton.mp hx ▸ hres
      · exact .inr ⟨res', List.mem_append_left _ hmem, hin, hequip⟩

theorem getEmail_apply (list : EmailList) (res : EmailSaleResponse) (k : String) :
    getEmail list res k =
      if k = res.emailUuid then some { res with equip := ((list k).getD {}).equip }
      else list k := by
  unfold getEmail change
  rw [Function.update_apply]
  split_ifs with hk
  · rw [hk]
  · rfl

theorem foldl_getEmail (list : EmailList) (l : List EmailSaleResponse) (k : String) :
    (l.foldl getEmail list k = list k ∧ ∀ res ∈ l, res.emailUuid ≠ k) ∨
      ∃ res ∈ l, res.emailUuid = k ∧
        l.foldl getEmail list k = some { res with equip := ((list k).getD {}).equip } := by
  induction l using List.reverseRecOn with
  | nil => exact .inl ⟨rfl, fun _ h => absurd h List.not_mem_nil⟩
  | append_singleton l res ih =>
    rw [List.foldl_concat, getEmail_apply]
    by_cases hres : k = res.emailUuid
    · rw [if_pos hres]
      refine .inr ⟨res, by simp, hres.symm, ?_⟩
      rcases ih with ⟨hsame, -⟩ | ⟨_, -, -, hemail⟩
      · rw [hsame]
      · rw [hemail]
        rfl
    · rw [if_neg hres]
      rcases ih with ⟨hsame, hnone⟩ | ⟨res', hmem, huuid, hemail⟩
      · refine .inl ⟨hsame, fun x hx => ?_⟩
        rcases List.mem_append.mp hx with hx | hx
        · exact hnone x hx
        · exact fun heq => hres (List.mem_singleton.mp hx ▸ heq).symm
      · exact .inr ⟨res', List.mem_append_left _ hmem, huuid, hemail⟩

end EmailList

namespace Account

structure Named (a : Account) : Prop where
  equip : ∀ sn res, a.equip.find sn = some res → res.equipSn = sn
  email : ∀ uuid res, a.email.find uuid = some res → res.emailUuid = uuid ∧ res.equip = {}

def Attached (a : Account) (emailUuid : String) (res : Equip) : Prop :=
  a.equip.find res.equipSn = some res ∧ InEmail emailUuid res

theorem named_empty : ({} : Account).Named where
  equip _ _ h := absurd h (by simp)
  email _ _ h := absurd h (by simp)

theorem Named.setEquip {a : Account} (h : a.Named) (res : Equip) : (a.setEquip res).Named := by
  refine ⟨fun sn e he => ?_, h.email⟩
  have hfind : (a.setEquip res).equip.find =
      Function.update a.equip.find (stored res).equipSn (some (stored res)) := rfl
  rw [hfind, Function.update_apply] at he
  split_ifs at he with hsn
  · rw [← Option.some.inj he, hsn]
  · exact h.equip sn e he

theorem Named.store {a : Account} (h : a.Named) (w : Write) : (a.store w).Named := by
  cases w with
  | setEquip res => exact h.setEquip res
  | delEquip equipSn =>
    refine ⟨fun sn e he => ?_, h.email⟩
    have hfind : (a.store (.delEquip equipSn)).equip.find =
        Function.update a.equip.find equipSn none := rfl
    rw [hfind, Function.update_apply] at he
    split_ifs at he
    exact h.equip sn e he
  | setEmailSale res =>
    have hemail : Named { a with
        email := a.email.set res.emailUuid { named res with equip := {} } } := by
      refine ⟨h.equip, fun uuid e he => ?_⟩
      rw [Keyspace.find_set, Function.update_apply] at he
      split_ifs at he with huuid
      · rw [← Option.some.inj he, huuid]
        exact ⟨named_emailUuid res, rfl⟩
      · exact h.email uuid e he
    unfold Account.store
    dsimp only
    split_ifs
    · exact hemail.setEquip res.equip
    · exact hemail
  | delEmailSale emailUuid =>
    refine ⟨h.equip, fun uuid e he => ?_⟩
    have hfind : (a.store (.delEmailSale emailUuid)).email.find =
        Function.update a.email.find emailUuid none := rfl
    rw [hfind, Function.update_apply] at he
    split_ifs at he
    exact h.email uuid e he
  | _ => exact ⟨h.equip, h.email⟩

end Account

theorem named_accounts (ws : List (UInt32 × Write)) (u : UInt32) :
    (accounts (fun _ => {}) ws u).Named := by
  have hall : ∀ acc : UInt32 → Account, (∀ u, (acc u).Named) → ∀ u, (accounts acc ws u).Named := by
    induction ws with
    | nil => exact fun _ h => h
    | cons w ws ih =>
      intro acc h
      apply ih
      intro v
      show (Function.update acc w.1 ((acc w.1).store w.2) v).Named
      rw [Function.update_apply]
      split_ifs
      · exact (h w.1).store w.2
      · exact h v
  exact hall _ (fun _ => Account.named_empty) u

namespace Account

theorem Named.mem_equips {a : Account} (h : a.Named) {order : List String}
    (horder : order.Perm a.equip.keys) (res : Equip) :
    res ∈ a.equip.records order ↔ a.equip.find res.equipSn = some res := by
  rw [Keyspace.mem_records horder]
  constructor
  · rintro ⟨sn, hsn⟩
    rwa [h.equip sn res hsn]
  · exact fun hres => ⟨_, hres⟩

theorem Named.getEmails {a : Account} (h : a.Named) {order : List String}
    (horder : order.Perm a.email.keys) (list : EmailList) (k : String) :
    (a.email.records order).foldl getEmail list k =
      (a.email.find k).elim (list k) fun res =>
        some { res with equip := ((list k).getD {}).equip } := by
  have hmem (res : EmailSaleResponse) (huuid : res.emailUuid = k) :
      res ∈ a.email.records order ↔ a.email.find k = some res := by
    rw [Keyspace.mem_records horder]
    constructor
    · rintro ⟨uuid, hfind⟩
      rwa [← huuid, (h.email uuid res hfind).1]
    · exact fun hfind => ⟨k, hfind⟩
  rcases EmailList.foldl_getEmail list (a.email.records order) k with
    ⟨hsame, hnone⟩ | ⟨res, hres, huuid, hemail⟩
  · have hfind : a.email.find k = none := by
      by_contra hsome
      obtain ⟨res, hres⟩ := Option.ne_none_iff_exists'.mp hsome
      have huuid := (h.email k res hres).1
      exact hnone res ((hmem res huuid).mpr hres) huuid
    rw [hsame, hfind]
    rfl
  · rw [hemail, (hmem res huuid).mp hres]
    rfl

/-- The list of the emails after a login has the stored emails, each with an equip that is stored
in it, and it has an entry for a stored equip whose email was deleted. -/
theorem email_of_load {a : Account} (hnamed : a.Named) {ids : Orders String}
    (hids : a.Lists ids) {t t' : LoginData} (hnew : t.emailSaleList = fun _ => none)
    (hload : a.load ids t = some t') (k : String) :
    (t'.emailSaleList k = a.email.find k ∧ ∀ res, ¬ a.Attached k res) ∨
      ∃ res, a.Attached k res ∧
        t'.emailSaleList k = some { (a.email.find k).getD {} with equip := res } := by
  obtain ⟨m', -, rfl⟩ := Option.map_eq_some_iff.mp hload
  rw [hnew]
  have hemail := hnamed.getEmails hids.email
    ((a.equip.records ids.equip).foldl EmailList.attach fun _ => none) k
  rcases EmailList.foldl_attach (fun _ => none) (a.equip.records ids.equip) k with
    ⟨hsame, hnone⟩ | ⟨res, hres, hin, hequip⟩
  · rw [hsame] at hemail
    refine .inl ⟨hemail.trans ?_, fun res hres =>
      hnone res ((hnamed.mem_equips hids.equip res).mpr hres.1) hres.2⟩
    cases hfind : a.email.find k with
    | none => rfl
    | some email =>
      -- a record has no equip of its own
      have hplain := (hnamed.email k email hfind).2
      cases email
      exact congrArg (fun e => some (EmailSaleResponse.mk _ _ _ _ e)) hplain.symm
  · rw [hequip] at hemail
    refine .inr ⟨res, ⟨(hnamed.mem_equips hids.equip res).mp hres, hin⟩, hemail.trans ?_⟩
    cases a.email.find k <;> rfl

end Account

/-! ## The way of an email -/

namespace Write

def equip : Write → Option Equip
  | .setEquip res => some (stored res)
  | .setEmailSale res => if res.diamond ≤ 0 then some (stored res.equip) else none
  | _ => none

def Keeps (emailUuid equipSn : String) : Write → Prop
  | .setEquip res => res.equipSn ≠ equipSn
  | .delEquip sn => sn ≠ equipSn
  | .setEmailSale res =>
    res.emailUuid ≠ emailUuid ∧ (res.diamond ≤ 0 → res.equip.equipSn ≠ equipSn)
  | .delEmailSale uuid => uuid ≠ emailUuid
  | _ => True

end Write

namespace Account

theorem find_setEquip (a : Account) (res : Equip) :
    (a.setEquip res).equip.find =
      Function.update a.equip.find res.equipSn (some (stored res)) := by
  rw [← stored_equipSn]
  rfl

theorem find_equip_of_keeps (a : Account) {w : Write} {emailUuid equipSn : String}
    (hw : w.Keeps emailUuid equipSn) : (a.store w).equip.find equipSn = a.equip.find equipSn := by
  cases w with
  | setEquip res =>
    show (a.setEquip res).equip.find equipSn = _
    rw [find_setEquip, Function.update_of_ne (Ne.symm hw)]
  | delEquip sn => exact Function.update_of_ne (Ne.symm hw) _ _
  | setEmailSale res =>
    unfold Account.store
    dsimp only
    split_ifs with hdiamond
    · rw [find_setEquip, Function.update_of_ne (Ne.symm (hw.2 hdiamond))]
    · rfl
  | _ => rfl

theorem find_email_of_keeps (a : Account) {w : Write} {emailUuid equipSn : String}
    (hw : w.Keeps emailUuid equipSn) :
    (a.store w).email.find emailUuid = a.email.find emailUuid := by
  cases w with
  | setEmailSale res =>
    have hset : (a.email.set res.emailUuid { named res with equip := {} }).find emailUuid =
        a.email.find emailUuid := Function.update_of_ne (Ne.symm hw.1) _ _
    unfold Account.store
    dsimp only
    split_ifs
    · exact hset
    · exact hset
  | delEmailSale uuid => exact Function.update_of_ne (Ne.symm hw) _ _
  | _ => rfl

theorem find_equip_store (a : Account) (w : Write) {sn : String} {res : Equip}
    (h : (a.store w).equip.find sn = some res) :
    a.equip.find sn = some res ∨ w.equip = some res := by
  cases w with
  | setEquip res' =>
    have hfind : (a.setEquip res').equip.find sn = some res := h
    rw [find_setEquip, Function.update_apply] at hfind
    split_ifs at hfind
    · exact .inr hfind
    · exact .inl hfind
  | delEquip sn' =>
    have hfind : Function.update a.equip.find sn' none sn = some res := h
    rw [Function.update_apply] at hfind
    split_ifs at hfind
    exact .inl hfind
  | setEmailSale res' =>
    unfold Account.store at h
    dsimp only at h
    split_ifs at h with hdiamond
    · rw [find_setEquip, Function.update_apply] at h
      split_ifs at h
      · exact .inr (by rw [Write.equip, if_pos hdiamond, h])
      · exact .inl h
    · exact .inl h
  | _ => exact .inl h

end Account

variable {acc : UInt32 → Account} {u : UInt32}

theorem accounts_append (acc : UInt32 → Account) (ws ws' : List (UInt32 × Write)) :
    accounts acc (ws ++ ws') = accounts (accounts acc ws) ws' := List.foldl_append

theorem accounts_cons (w : UInt32 × Write) (ws : List (UInt32 × Write)) :
    accounts acc (w :: ws) =
      accounts (Function.update acc w.1 ((acc w.1).store w.2)) ws := rfl

theorem accounts_preserves {β : Type*} (f : Account → β) {ws : List (UInt32 × Write)}
    (hws : ∀ w ∈ ws, w.1 = u → ∀ a : Account, f (a.store w.2) = f a) :
    f (accounts acc ws u) = f (acc u) := by
  induction ws generalizing acc with
  | nil => rfl
  | cons w ws ih =>
    have hrest := @ih (Function.update acc w.1 ((acc w.1).store w.2))
      fun v hv => hws v (List.mem_cons_of_mem w hv)
    apply hrest.trans
    rw [Function.update_apply]
    split_ifs with hu
    · rw [← hu]
      exact hws w List.mem_cons_self hu.symm (acc u)
    · rfl

theorem find_equip_accounts {ws : List (UInt32 × Write)} {sn : String} {res : Equip}
    (h : (accounts acc ws u).equip.find sn = some res) :
    (acc u).equip.find sn = some res ∨ ∃ w ∈ ws, w.1 = u ∧ w.2.equip = some res := by
  induction ws generalizing acc with
  | nil => exact .inl h
  | cons w ws ih =>
    rw [accounts_cons] at h
    rcases ih h with hfirst | ⟨w', hw', hu, hequip⟩
    · rw [Function.update_apply] at hfirst
      split_ifs at hfirst with hu
      · rcases (acc w.1).find_equip_store w.2 hfirst with hold | hnew
        · exact .inl (hu ▸ hold)
        · exact .inr ⟨w, List.mem_cons_self, hu.symm, hnew⟩
      · exact .inl hfirst
    · exact .inr ⟨w', List.mem_cons_of_mem w hw', hu, hequip⟩

theorem named_equip (res : EmailSaleResponse) :
    { named res with equip := res.equip } = named res := by
  unfold named
  split_ifs <;> rfl

theorem stored_of_inEmail {emailUuid : String} (huuid : IsWord emailUuid.toList) {res : Equip}
    (hin : InEmail emailUuid res) : stored res = res := by
  have hne : res.whereUuid ≠ "" ∧ res.whereUuid ≠ "  " := by
    rw [hin.2]
    constructor
    · rintro rfl
      exact absurd huuid (by decide)
    · rintro rfl
      exact absurd huuid (by decide)
  exact if_neg (not_or.mpr hne)

/-- An email with an equip in it is in the list of its player at every later login, with that
equip and all it was sent with, as long as the player has neither taken nor written over them and
no other equip is in an email of that uuid. -/
theorem email_arrives {pre post : List (UInt32 × Write)} {res : EmailSaleResponse}
    (hws : ∀ w ∈ pre ++ (u, .setEmailSale res) :: post, w.2.Sound) (hdiamond : res.diamond ≤ 0)
    (hin : InEmail res.emailUuid res.equip)
    (hpost : ∀ w ∈ post, w.1 = u → w.2.Keeps res.emailUuid res.equip.equipSn)
    (honly : ∀ w ∈ pre ++ post, w.1 = u → ∀ e, w.2.equip = some e → InEmail res.emailUuid e →
      e.equipSn = res.equip.equipSn) :
    ∃ db, writes .empty (pre ++ (u, .setEmailSale res) :: post) = some db ∧
      ∀ order t t', t.emailSaleList = (fun _ => none) → getEquipList db u order t = some t' →
        t'.emailSaleList res.emailUuid = some (named res) := by
  obtain ⟨db, hwrites, hread⟩ := reads_written hws
  refine ⟨db, hwrites, fun order t t' hnew ht => ?_⟩
  obtain ⟨ids, hids, -, hload⟩ := ((hread u).2.1 order t t').mp ht
  have hsound := (hws _ (List.mem_append_right _ List.mem_cons_self)).1
  have hstored : stored res.equip = res.equip := stored_of_inEmail hsound hin
  -- both records are there, from the write of the email on
  have hsplit := accounts_append (fun _ => {}) pre ((u, .setEmailSale res) :: post)
  have hequip : (accounts (fun _ => {}) (pre ++ (u, .setEmailSale res) :: post) u).equip.find
      res.equip.equipSn = some res.equip := by
    rw [hsplit, accounts_cons]
    apply (accounts_preserves (fun a => a.equip.find res.equip.equipSn)
      fun w hw hu a => a.find_equip_of_keeps (hpost w hw hu)).trans
    rw [Function.update_self, Account.store, if_pos hdiamond, Account.find_setEquip,
      Function.update_self, hstored]
  have hemail : (accounts (fun _ => {}) (pre ++ (u, .setEmailSale res) :: post) u).email.find
      res.emailUuid = some { named res with equip := {} } := by
    rw [hsplit, accounts_cons]
    apply (accounts_preserves (fun a => a.email.find res.emailUuid)
      fun w hw hu a => a.find_email_of_keeps (hpost w hw hu)).trans
    rw [Function.update_self, Account.store, if_pos hdiamond]
    exact Function.update_self _ _ _
  have hattached : (accounts (fun _ => {}) (pre ++ (u, .setEmailSale res) :: post) u).Attached
      res.emailUuid res.equip := ⟨hequip, hin⟩
  rcases Account.email_of_load (named_accounts _ u) hids hnew hload res.emailUuid with
    ⟨-, hnone⟩ | ⟨res', hres', hlist⟩
  · exact absurd hattached (hnone res.equip)
  · have hsn : res'.equipSn = res.equip.equipSn := by
      rcases find_equip_accounts hres'.1 with hold | ⟨w, hw, hu, hwritten⟩
      · exact absurd hold (by simp)
      · rcases List.mem_append.mp hw with hw | hw
        · exact honly w (List.mem_append_left _ hw) hu res' hwritten hres'.2
        · rcases List.mem_cons.mp hw with rfl | hw
          · have heq : some (stored res.equip) = some res' := by
              rw [← hwritten, Write.equip, if_pos hdiamond]
            rw [← Option.some.inj heq, hstored]
          · exact honly w (List.mem_append_right _ hw) hu res' hwritten hres'.2
    have hsame := hres'.1
    rw [hsn, hequip] at hsame
    rw [hlist, hemail, ← Option.some.inj hsame]
    exact congrArg some (named_equip res)

theorem email_arrives_sword : ∃ db, writes .empty ([(7, .delEmailSale "market")] ++
      (7, .setEmailSale
        { emailUuid := "market", time := 5, otherName := " "
          equip := { witchPannle := 2, whereUuid := "market", equipSn := "sword" } }) ::
      [(7, .delEquip "shield"), (8, .delEmailSale "market")]) = some db ∧
    ∀ order t t', t.emailSaleList = (fun _ => none) → getEquipList db 7 order t = some t' →
      t'.emailSaleList "market" = some
        { emailUuid := "market", time := 5, otherName := "NoName"
          equip := { witchPannle := 2, whereUuid := "market", equipSn := "sword" } } := by
  apply email_arrives
  · intro w hw
    simp only [List.cons_append, List.nil_append, List.mem_cons, List.not_mem_nil, or_false] at hw
    rcases hw with rfl | rfl | rfl | rfl
    · show IsClean _
      decide
    · exact ⟨by decide, by decide, fun _ => ⟨by decide, by decide⟩⟩
    · show IsClean _
      decide
    · show IsClean _
      decide
  · decide
  · exact ⟨rfl, rfl⟩
  · intro w hw hu
    simp only [List.mem_cons, List.not_mem_nil, or_false] at hw
    rcases hw with rfl | rfl
    · show "shield" ≠ "sword"
      decide
    · exact absurd hu (by decide)
  · intro w hw hu e he
    simp only [List.cons_append, List.nil_append, List.mem_cons, List.not_mem_nil, or_false] at hw
    rcases hw with rfl | rfl | rfl
    · exact absurd he (by simp [Write.equip])
    · exact absurd he (by simp [Write.equip])
    · exact absurd he (by simp [Write.equip])

end IceBridge.Gateway.RedisChatWorker
