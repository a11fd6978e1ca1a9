import IceBridge.Army.Catchup

/-! The way of a queue through redis: `writeIntoRedis` prints commands, and what is in the list
afterwards is read by `newTimerQueueFromRedis`. -/

namespace IceBridge.Army
open Text

def cStr (text : Text) : Text := text.takeWhile (· ≠ '\x00')

def sprintf (text : Text) : Option Text := if text.length < 150 then some text else none

/-- The arguments that `redisCommand` sends. Its text is a format, and there is nothing that a
conversion could refer to. -/
def redisCommand (cmd : Text) : Option (List Text) :=
  if '%' ∈ cmd then none else some (words ' ' cmd)

abbrev Lists := Text → List Text

namespace Lists

def exec (lists : Lists) : List Text → Lists × List Text
  | [] => (lists, [])
  | [_] => (lists, [])
  | command :: key :: values =>
    if command = "del".toList then (Function.update lists key [], [])
    else if command = "lpush".toList then
      (values.foldl (fun lists value => Function.update lists key (value :: lists key)) lists, [])
    else if command = "lrange".toList ∧ values = ["0".toList, "-1".toList] then (lists, lists key)
    else (lists, [])

def run (lists : Lists) (cmd : Text) : Option (Lists × List Text) :=
  (redisCommand cmd).map lists.exec

def writeIntoRedis (uid : UInt32) (whichCamp isoTimeString : Text) (armysQueue : List SoldierInfo)
    (isBlock : Bool) (lists : Lists) : Option Lists := do
  let key := campKey uid (cStr whichCamp)
  let tmp ← sprintf ("lpush ".toList ++
    (key ++ ' ' :: (cStr isoTimeString ++ ' ' :: formatInt isBlock.toInt)))
  let command ← armysQueue.foldlM
    (fun command e => (sprintf (' ' :: e.text)).map (command ++ ·)) tmp
  let tmp ← sprintf ("del ".toList ++ key)
  let (lists, _) ← lists.run tmp
  let (lists, _) ← lists.run command
  some lists

def readBuildArmy (campId : Text) (lists : Lists) : Option (List Text) := do
  let tmp ← sprintf ("lrange ".toList ++ (cStr campId ++ " 0 -1".toList))
  let (_, output) ← lists.run tmp
  some output

end Lists

def ArmysBuildQueue.reload (arms : Arms) (toIsoString : Int → Text) (fromIsoString : Text → Int)
    (now : Int) (uid : UInt32) (whichCamp : Text) (beginBuildTime : Int) (isBlock : Bool)
    (armysQueue : List SoldierInfo) (lists : Lists) (q : ArmysBuildQueue) :
    Option ArmysBuildQueue := do
  let key := campKey uid (cStr whichCamp)
  let lists ← lists.writeIntoRedis uid whichCamp (toIsoString beginBuildTime) armysQueue isBlock
  let campInfo ← lists.readBuildArmy key
  some (newTimerQueueFromRedis arms fromIsoString now key campInfo q)

/-! ## Words of a command -/

def Word (text : Text) : Prop := text ≠ [] ∧ ∀ c ∈ text, c ≠ ' ' ∧ c ≠ '%' ∧ c ≠ '\x00'

instance (text : Text) : Decidable (Word text) :=
  @instDecidableAnd _ _ _ (List.decidableBAll _ text)

theorem Word.cStr {text : Text} (h : Word text) : cStr text = text :=
  List.takeWhile_eq_self_iff.mpr fun c hc => decide_eq_true (h.2 c hc).2.2

theorem Word.append {x y : Text} (hx : Word x) (hy : ∀ c ∈ y, c ≠ ' ' ∧ c ≠ '%' ∧ c ≠ '\x00') :
    Word (x ++ y) := by
  refine ⟨List.append_ne_nil_of_left_ne_nil hx.1 y, fun c hc => ?_⟩
  rcases List.mem_append.mp hc with hc | hc
  · exact hx.2 c hc
  · exact hy c hc

theorem word_formatInt (n : Int) : Word (formatInt n) := by
  refine ⟨formatInt_ne_nil n, fun c hc => ?_⟩
  rcases mem_formatInt hc with rfl | hdigit
  · decide
  · refine ⟨?_, ?_, ?_⟩ <;> rintro rfl <;> exact absurd hdigit (by decide)

theorem word_text (e : SoldierInfo) : Word e.text := by
  have hsharp : ∀ n, ∀ c ∈ '#' :: formatInt n, c ≠ ' ' ∧ c ≠ '%' ∧ c ≠ '\x00' := by
    intro n c hc
    rcases List.mem_cons.mp hc with rfl | hc
    · decide
    · exact (word_formatInt n).2 c hc
  have htext : e.text = formatInt e.soldierType ++ '#' :: formatInt e.soldierLevel ++
      '#' :: formatInt e.soldierNum := by
    rw [SoldierInfo.text, List.append_assoc, List.cons_append]
  rw [htext]
  exact ((word_formatInt _).append (hsharp _)).append (hsharp _)

theorem word_campKey (uid : UInt32) {whichCamp : Text} (h : Word whichCamp) :
    Word (campKey uid whichCamp) := by
  have hcamp : Word "camp#".toList := by decide
  have hname : ∀ c ∈ '#' :: whichCamp, c ≠ ' ' ∧ c ≠ '%' ∧ c ≠ '\x00' := by
    intro c hc
    rcases List.mem_cons.mp hc with rfl | hc
    · decide
    · exact h.2 c hc
  have hkey : campKey uid whichCamp = "camp#".toList ++ formatInt uid.toInt32.toInt ++
      '#' :: whichCamp := (List.append_assoc _ _ _).symm
  rw [hkey]
  exact (hcamp.append (word_formatInt _).2).append hname

theorem redisCommand_words {first : Text} {rest : List Text}
    (h : ∀ word ∈ first :: rest, Word word) :
    redisCommand (first ++ rest.flatMap (' ' :: ·)) = some (first :: rest) := by
  have hpercent : '%' ∉ first ++ rest.flatMap (' ' :: ·) := by
    intro hmem
    rcases List.mem_append.mp hmem with hmem | hmem
    · exact ((h first List.mem_cons_self).2 _ hmem).2.1 rfl
    · obtain ⟨word, hword, hmem⟩ := List.mem_flatMap.mp hmem
      rcases List.mem_cons.mp hmem with hblank | hmem
      · exact absurd hblank (by decide)
      · exact ((h word (List.mem_cons_of_mem first hword)).2 _ hmem).2.1 rfl
  rw [redisCommand, if_neg hpercent]
  refine congrArg some (words_flatMap fun word hword => ?_)
  exact ⟨(h word hword).1, fun hblank => ((h word hword).2 _ hblank).1 rfl⟩

/-! ## The buffer -/

theorem sprintf_of_length {text : Text} (h : text.length < 150) : sprintf text = some text :=
  if_pos h

theorem length_formatInt_le {n : Int} (hlow : 0 ≤ n) (hhigh : n ≤ 32767) :
    (formatInt n).length ≤ 5 := by
  obtain ⟨n, rfl⟩ := Int.eq_ofNat_of_zero_le hlow
  refine (Nat.length_toDigits_le_iff (by decide) (by decide)).mpr ?_
  omega

/-- Every entry is short enough for the buffer. -/
theorem SoldierInfo.Positive.sprintf_text {e : SoldierInfo} (h : e.Positive) :
    sprintf (' ' :: e.text) = some (' ' :: e.text) := by
  have htype := length_formatInt_le h.type.1.le h.type.2
  have hlevel := length_formatInt_le h.level.1.le h.level.2
  have hnum := length_formatInt_le h.num.1.le h.num.2
  apply sprintf_of_length
  simp only [SoldierInfo.text, List.length_cons, List.length_append]
  omega

theorem foldlM_command {armysQueue : List SoldierInfo} (h : ∀ e ∈ armysQueue, e.Positive)
    (command : Text) :
    armysQueue.foldlM (fun command e => (sprintf (' ' :: e.text)).map (command ++ ·)) command =
      some (command ++ (armysQueue.map SoldierInfo.text).flatMap (' ' :: ·)) := by
  induction armysQueue generalizing command with
  | nil =>
    rw [List.map_nil, List.flatMap_nil, List.append_nil]
    rfl
  | cons e rest ih =>
    rw [List.foldlM_cons, (h e List.mem_cons_self).sprintf_text, Option.map_some,
      Option.bind_eq_bind, Option.bind_some, ih fun x hx => h x (List.mem_cons_of_mem e hx),
      List.map_cons, List.flatMap_cons, List.append_assoc]

/-! ## What is in the list -/

namespace Lists
variable {uid : UInt32} {whichCamp isoTime : Text} {lists : Lists}

theorem run_words {first : Text} {rest : List Text} (h : ∀ word ∈ first :: rest, Word word)
    (lists : Lists) :
    lists.run (first ++ rest.flatMap (' ' :: ·)) = some (lists.exec (first :: rest)) := by
  rw [run, redisCommand_words h]
  rfl

theorem lpush_eq (key : Text) (values : List Text) (lists : Lists) :
    values.foldl (fun lists value => Function.update lists key (value :: lists key)) lists =
      Function.update lists key (values.reverse ++ lists key) := by
  induction values generalizing lists with
  | nil => exact (Function.update_eq_self key lists).symm
  | cons value values ih =>
    rw [List.foldl_cons, ih, Function.update_idem, Function.update_self, List.reverse_cons,
      List.append_assoc]
    rfl

theorem exec_del (key : Text) (lists : Lists) :
    lists.exec ["del".toList, key] = (Function.update lists key [], []) := by
  rw [exec, if_pos rfl]

theorem exec_lpush (key : Text) (values : List Text) (lists : Lists) :
    lists.exec ("lpush".toList :: key :: values) =
      (Function.update lists key (values.reverse ++ lists key), []) := by
  rw [exec, if_neg (by decide), if_pos rfl, lpush_eq]

theorem exec_lrange (key : Text) (lists : Lists) :
    lists.exec ["lrange".toList, key, "0".toList, "-1".toList] = (lists, lists key) := by
  rw [exec, if_neg (by decide), if_neg (by decide), if_pos ⟨rfl, rfl⟩]

theorem writeIntoRedis_eq {armysQueue : List SoldierInfo} (isBlock : Bool)
    (hcamp : Word whichCamp) (htime : Word isoTime) (hlength : isoTime.length = 15)
    (hfits : (campKey uid whichCamp).length ≤ 125) (hq : ∀ e ∈ armysQueue, e.Positive) :
    lists.writeIntoRedis uid whichCamp isoTime armysQueue isBlock =
      some (Function.update lists (campKey uid whichCamp)
        (Army.writeIntoRedis isoTime isBlock armysQueue)) := by
  let key := campKey uid whichCamp
  let flag := formatInt isBlock.toInt
  have hkey : Word key := word_campKey uid hcamp
  have hheader : sprintf ("lpush ".toList ++ (key ++ ' ' :: (isoTime ++ ' ' :: flag))) =
      some ("lpush".toList ++ [key, isoTime, flag].flatMap (' ' :: ·)) := by
    have hflag : flag.length = 1 := by cases isBlock <;> rfl
    rw [sprintf_of_length]
    · simp
    · simp only [List.length_append, List.length_cons, hflag, hlength]
      exact Nat.lt_of_le_of_lt (Nat.add_le_add_left (Nat.add_le_add_right hfits _) 6) (by decide)
  have hdel : sprintf ("del ".toList ++ key) = some ("del".toList ++ [key].flatMap (' ' :: ·)) := by
    rw [sprintf_of_length]
    · simp
    · rw [List.length_append]
      exact Nat.lt_of_le_of_lt (Nat.add_le_add_left hfits 4) (by decide)
  -- both commands consist of words
  have hdelWords : ∀ word ∈ ["del".toList, key], Word word := by
    intro word hword
    rcases List.mem_cons.mp hword with rfl | hword
    · decide
    · exact List.mem_singleton.mp hword ▸ hkey
  have hpushWords : ∀ word ∈ "lpush".toList :: key :: isoTime :: flag ::
      armysQueue.map SoldierInfo.text, Word word := by
    intro word hword
    simp only [List.mem_cons, List.mem_map] at hword
    rcases hword with rfl | rfl | rfl | rfl | ⟨e, -, rfl⟩
    · decide
    · exact hkey
    · exact htime
    · exact word_formatInt _
    · exact word_text e
  have hdelRun := run_words hdelWords lists
  have hpushRun := run_words hpushWords (Function.update lists key [])
  rw [exec_del] at hdelRun
  rw [exec_lpush, Function.update_self, Function.update_idem, List.append_nil] at hpushRun
  have hcommand : "lpush".toList ++ [key, isoTime, flag].flatMap (' ' :: ·) ++
      (armysQueue.map SoldierInfo.text).flatMap (' ' :: ·) = "lpush".toList ++
        (key :: isoTime :: flag :: armysQueue.map SoldierInfo.text).flatMap (' ' :: ·) := by
    rw [List.append_assoc, ← List.flatMap_append]
    rfl
  unfold writeIntoRedis
  simp only [hcamp.cStr, htime.cStr]
  rw [hheader, hdel]
  simp only [Option.bind_eq_bind, Option.bind_some, foldlM_command hq]
  rw [hdelRun, Option.bind_some, hcommand, hpushRun]
  rfl

/-- The first command of a camp with a long name does not fit. -/
theorem writeIntoRedis_of_long {armysQueue : List SoldierInfo} (isBlock : Bool)
    (h : 150 ≤ (cStr whichCamp).length) :
    lists.writeIntoRedis uid whichCamp isoTime armysQueue isBlock = none := by
  have hlong : sprintf ("lpush ".toList ++ (campKey uid (cStr whichCamp) ++
      ' ' :: (cStr isoTime ++ ' ' :: formatInt isBlock.toInt))) = none := by
    refine if_neg (Nat.not_lt.mpr ?_)
    simp only [campKey, List.length_append, List.length_cons]
    omega
  simp only [writeIntoRedis, hlong, Option.bind_eq_bind, Option.bind_none]

theorem readBuildArmy_eq {key : Text} (hkey : Word key) (hfits : key.length ≤ 125) :
    lists.readBuildArmy key = some (lists key) := by
  have hread : sprintf ("lrange ".toList ++ (key ++ " 0 -1".toList)) =
      some ("lrange".toList ++ [key, "0".toList, "-1".toList].flatMap (' ' :: ·)) := by
    rw [sprintf_of_length]
    · simp
    · simp only [List.length_append]
      exact Nat.lt_of_le_of_lt (Nat.add_le_add_left (Nat.add_le_add_right hfits _) 7) (by decide)
  have hwords : ∀ word ∈ ["lrange".toList, key, "0".toList, "-1".toList], Word word := by
    intro word hword
    simp only [List.mem_cons, List.not_mem_nil, or_false] at hword
    rcases hword with rfl | rfl | rfl | rfl
    · decide
    · exact hkey
    · decide
    · decide
  have hrun := run_words hwords lists
  rw [exec_lrange] at hrun
  unfold readBuildArmy
  rw [hkey.cStr, hread, Option.bind_eq_bind, Option.bind_some, hrun]
  rfl

end Lists

/-! ## What is loaded -/

/-- A camp is there again, with the entries and the flag it had, and, unless it is blocked, as if
its timer had never been stopped. -/
def Restored (q : ArmysBuildQueue) (whichCamp : Text) (beginBuildTime : Int) (isBlock : Bool)
    (armysQueue : List SoldierInfo) : Prop :=
  ∃ tq, q.campQueue whichCamp = some tq ∧ tq.armysQueue = armysQueue ∧ tq.isBlock = isBlock ∧
    (isBlock = false → tq.beginBuildTime = some beginBuildTime)

section Loading
variable {arms : Arms} {now beginBuildTime : Int} {army : BuildedArmy} {e : SoldierInfo}
  {rest armysQueue : List SoldierInfo}

theorem foldl_blocked (now td : Int) (army : BuildedArmy) (hq : ∀ e ∈ armysQueue, e.Positive) :
    (armysQueue.map SoldierInfo.text).foldl (loadEntry arms now)
        ⟨{ isBlock := true }, army, td, true⟩ =
      ⟨{ isBlock := true, armysQueue }, army, td, true⟩ :=
  foldl_loadEntry_of_mark hq rfl

theorem foldl_unfinished (army : BuildedArmy) (hq : ∀ x ∈ e :: rest, x.Positive)
    (hhead : now - beginBuildTime < arms.buildTime e.soldierType e.soldierLevel) :
    ((e :: rest).map SoldierInfo.text).foldl (loadEntry arms now)
        ⟨{}, army, now - beginBuildTime, false⟩ =
      ⟨.training arms e rest beginBuildTime, army, now - beginBuildTime, true⟩ := by
  have he := hq e List.mem_cons_self
  have hnum : ((e.soldierNum.toNat : ℕ) : Int) = e.soldierNum := Int.toNat_of_nonneg he.num.1.le
  have hfirst : loadEntry arms now ⟨{}, army, now - beginBuildTime, false⟩ e.text =
      ⟨.training arms e [] beginBuildTime, army, now - beginBuildTime, true⟩ := by
    rw [loadEntry_text arms now _ he, if_neg Bool.false_ne_true, insertLoop,
      if_pos (Int.sub_neg_of_lt hhead), hnum, Int.sub_sub_self]
    rfl
  rw [List.map_cons, List.foldl_cons, hfirst,
    foldl_loadEntry_of_mark (fun x hx => hq x (List.mem_cons_of_mem e hx)) rfl]
  rfl

theorem restored_newTimerQueueFromRedis {fromIsoString : Text → Int} {isoTime whichCamp : Text}
    {isBlock : Bool} (uid : UInt32) (q : ArmysBuildQueue)
    (hiso : fromIsoString isoTime = beginBuildTime) (hcamp : whichCamp ≠ [] ∧ '#' ∉ whichCamp)
    (hq : ∀ x ∈ e :: rest, x.Positive)
    (hhead : isBlock = true ∨
      now - beginBuildTime < arms.buildTime e.soldierType e.soldierLevel) :
    Restored (newTimerQueueFromRedis arms fromIsoString now (campKey uid whichCamp)
      (writeIntoRedis isoTime isBlock (e :: rest)) q) whichCamp beginBuildTime isBlock
      (e :: rest) := by
  have hblock : decide (atoi (formatInt isBlock.toInt) ≠ 0) = isBlock := by
    rw [atoi_formatInt]
    cases isBlock <;> rfl
  simp only [newTimerQueueFromRedis, writeIntoRedis, List.reverse_reverse, List.map_cons,
    afterLast_campKey hcamp.2, if_neg hcamp.1, hblock, hiso]
  refine ⟨_, Function.update_self _ _ _, ?_⟩
  rw [← List.map_cons]
  cases isBlock with
  | true =>
    rw [foldl_blocked now _ q.army hq, if_pos rfl]
    refine ⟨TimerQueue.registerTime_queue _ _ _ _, TimerQueue.registerTime_isBlock _ _ _ _, ?_⟩
    exact fun h => Bool.noConfusion h
  | false =>
    rw [foldl_unfinished q.army hq (hhead.resolve_left Bool.false_ne_true)]
    exact ⟨rfl, rfl, fun _ => rfl⟩

end Loading

/-! ## There and back -/

/-- What is documented of `to_iso_string` and `from_iso_string`, at one time: it is printed as
`YYYYMMDDTHHMMSS` and can be read again. -/
structure IsoTime (toIsoString : Int → Text) (fromIsoString : Text → Int) (t : Int) : Prop where
  length : (toIsoString t).length = 15
  digits : ∀ c ∈ toIsoString t, c.isDigit ∨ c = 'T'
  read : fromIsoString (toIsoString t) = t

theorem IsoTime.word {toIsoString : Int → Text} {fromIsoString : Text → Int} {t : Int}
    (h : IsoTime toIsoString fromIsoString t) : Word (toIsoString t) := by
  refine ⟨List.ne_nil_of_length_pos (h.length ▸ by decide), fun c hc => ?_⟩
  rcases h.digits c hc with hdigit | rfl
  · refine ⟨?_, ?_, ?_⟩ <;> rintro rfl <;> exact absurd hdigit (by decide)
  · decide

structure CampId (uid : UInt32) (whichCamp : Text) : Prop where
  word : Word whichCamp
  sharp : '#' ∉ whichCamp
  fits : (campKey uid whichCamp).length ≤ 125

def Unfinished (arms : Arms) (now beginBuildTime : Int) (isBlock : Bool) (e : SoldierInfo) : Prop :=
  isBlock = true ∨ ∃ a ∈ arms.find e.soldierType e.soldierLevel, now - beginBuildTime < a.buildTime

/-- What is written is there again when it is loaded. -/
theorem reload_restored {arms : Arms} {toIsoString : Int → Text} {fromIsoString : Text → Int}
    {now beginBuildTime : Int} {uid : UInt32} {whichCamp : Text} {isBlock : Bool} {e : SoldierInfo}
    {rest : List SoldierInfo} (hiso : IsoTime toIsoString fromIsoString beginBuildTime)
    (hcamp : CampId uid whichCamp) (hq : ∀ x ∈ e :: rest, x.Positive)
    (hhead : Unfinished arms now beginBuildTime isBlock e) (lists : Lists) (q : ArmysBuildQueue) :
    ∃ q', q.reload arms toIsoString fromIsoString now uid whichCamp beginBuildTime isBlock
        (e :: rest) lists = some q' ∧
      Restored q' whichCamp beginBuildTime isBlock (e :: rest) := by
  have hwrite : lists.writeIntoRedis uid whichCamp (toIsoString beginBuildTime) (e :: rest)
      isBlock = some _ := Lists.writeIntoRedis_eq isBlock hcamp.word hiso.word hiso.length hcamp.fits hq
  have hread : Lists.readBuildArmy (campKey uid whichCamp)
      (Function.update lists (campKey uid whichCamp)
        (writeIntoRedis (toIsoString beginBuildTime) isBlock (e :: rest))) =
      some (writeIntoRedis (toIsoString beginBuildTime) isBlock (e :: rest)) := by
    rw [Lists.readBuildArmy_eq (word_campKey uid hcamp.word) hcamp.fits, Function.update_self]
  have hload : isBlock = true ∨
      now - beginBuildTime < arms.buildTime e.soldierType e.soldierLevel := by
    refine hhead.imp_right ?_
    rintro ⟨a, ha, hlt⟩
    rw [Arms.buildTime, ha]
    exact hlt
  refine ⟨_, ?_, restored_newTimerQueueFromRedis uid q hiso.read
    ⟨hcamp.word.1, hcamp.sharp⟩ hq hload⟩
  rw [ArmysBuildQueue.reload, hwrite, hcamp.word.cStr, Option.bind_eq_bind, Option.bind_some, hread]
  rfl

theorem reload_restored_two : ∃ q', ArmysBuildQueue.reload [[], [⟨0, 0⟩, ⟨1, 60⟩, ⟨1, 90⟩]]
      (fun _ => "20130101T000000".toList) (fun _ => newYear) (newYear + 59) 7 "a".toList newYear
      false [⟨1, 1, 3⟩, ⟨1, 2, 40⟩] (fun _ => ["rest".toList]) { army := {} } = some q' ∧
    Restored q' "a".toList newYear false [⟨1, 1, 3⟩, ⟨1, 2, 40⟩] := by
  have hdigits : ∀ c ∈ "20130101T000000".toList, c.isDigit ∨ c = 'T' :=
    @of_decide_eq_true _ (List.decidableBAll _ _) rfl
  refine reload_restored ⟨rfl, hdigits, rfl⟩ ⟨by decide, by decide, by decide⟩ ?_
    (.inr ⟨⟨1, 60⟩, rfl, by decide⟩) _ _
  intro x hx
  rcases List.mem_cons.mp hx with rfl | hx
  · exact ⟨by decide, by decide, by decide⟩
  · obtain rfl := List.mem_singleton.mp hx
    exact ⟨by decide, by decide, by decide⟩

def reloadNewYear (whichCamp : Text) (armysQueue : List SoldierInfo) : Option ArmysBuildQueue :=
  ArmysBuildQueue.reload [[], [⟨0, 0⟩, ⟨1, 60⟩]] (fun _ => "20130101T000000".toList)
    (fun _ => newYear) (newYear + 59) 7 whichCamp newYear true armysQueue (fun _ => []) { army := {} }

def Returns (whichCamp : Text) (armysQueue : List SoldierInfo) : Prop :=
  ∃ q', reloadNewYear whichCamp armysQueue = some q' ∧
    Restored q' whichCamp newYear true armysQueue

theorem not_returns_of_none {whichCamp : Text} {armysQueue : List SoldierInfo}
    (h : reloadNewYear whichCamp armysQueue = none) : ¬ Returns whichCamp armysQueue := by
  rintro ⟨q', hq', -⟩
  rw [h] at hq'
  exact Option.some_ne_none q' hq'.symm

theorem not_returns_of_empty {whichCamp : Text} {armysQueue : List SoldierInfo}
    (h : reloadNewYear whichCamp armysQueue = some { army := {} }) :
    ¬ Returns whichCamp armysQueue := by
  rintro ⟨q', hq', tq, htq, -⟩
  obtain rfl := Option.some.inj (h.symm.trans hq')
  exact Option.some_ne_none tq htq.symm

/-- A queue that is empty is not loaded, nor is a camp without a name, or with one that ends before
it has begun; a conversion in the name makes no command, and a long name does not fit. -/
theorem not_restored : ¬ Returns "a".toList [] ∧ ¬ Returns [] [⟨1, 1, 3⟩] ∧
    ¬ Returns ['\x00'] [⟨1, 1, 3⟩] ∧ ¬ Returns ['%'] [⟨1, 1, 3⟩] ∧
    ¬ Returns (List.replicate 150 'a') [⟨1, 1, 3⟩] := by
  refine ⟨not_returns_of_empty rfl, not_returns_of_empty rfl, not_returns_of_empty rfl,
    not_returns_of_none rfl, not_returns_of_none ?_⟩
  have hlong : 150 ≤ (cStr (List.replicate 150 'a')).length := by simp [cStr]
  rw [reloadNewYear, ArmysBuildQueue.reload, Lists.writeIntoRedis_of_long true hlong]
  rfl

end IceBridge.Army
