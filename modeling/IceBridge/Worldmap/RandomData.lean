import IceBridge.Lib.Index
import IceBridge.Lib.Run
import Mathlib.Data.List.Perm.Subperm

/-! The players of whom some are picked at random (`RandomData.hpp`). What is picked goes to a list
of its own and its place to the last member, so that nobody is picked twice, and comes back in the
end. -/

namespace IceBridge.Worldmap

structure RandomData (T : Type*) where
  mydata : List T := []
  backUpData : List T := []

namespace RandomData
variable {T U : Type*}

def addMember (d : RandomData T) (member : T) : RandomData T :=
  { d with mydata := d.mydata ++ [member] }

def getRandomOnlyData (d : RandomData T) (draw : ℕ) : Option (T × RandomData T) :=
  let size := d.mydata.length
  if h : 1 < size then
    let index := draw % size
    let lastIndex := size - 1
    have hindex : index < size := Nat.mod_lt draw (Nat.zero_lt_of_lt h)
    have hlast : lastIndex < size := Nat.sub_lt (Nat.zero_lt_of_lt h) Nat.one_pos
    let member := d.mydata[index]
    if index = lastIndex then
      some (member, { mydata := d.mydata.dropLast, backUpData := d.backUpData ++ [member] })
    else
      let mydata := d.mydata.set index d.mydata[lastIndex]
      some (member, { mydata := mydata.dropLast, backUpData := d.backUpData ++ [member] })
  else if h : size = 1 then
    have hzero : 0 < size := h.symm ▸ Nat.one_pos
    let member := d.mydata[0]
    some (member, { mydata := d.mydata.dropLast, backUpData := d.backUpData ++ [member] })
  else none

def getEach : RandomData T → List ℕ → List T × RandomData T
  | d, [] => ([], d)
  | d, draw :: draws =>
    match d.getRandomOnlyData draw with
    | none => ([], d)
    | some (t, d) =>
      let (dataList, d) := d.getEach draws
      (t :: dataList, d)

def getSomeData (d : RandomData T) (n : Int) (rand : ℕ → ℕ) : Bool × List T × RandomData T :=
  let size := d.mydata.length
  if size = 0 then (false, [], d)
  else if size ≤ n then (true, d.mydata, d)
  else
    let (dataList, d) := d.getEach ((List.range n.toNat).map rand)
    if dataList.length = 0 then (false, dataList, d)
    else (true, dataList, { mydata := d.backUpData ++ d.mydata, backUpData := [] })

inductive Call (T : Type*)
  | addMember (member : T)
  | getSomeData (n : Int) (rand : ℕ → ℕ)

def step (d : RandomData T) : Call T → Option (RandomData T)
  | .addMember member => some (d.addMember member)
  | .getSomeData n rand => if 1 ≤ n then some (d.getSomeData n rand).2.2 else none

/-- As many members as asked for, or all there are, come from different places, and all are there
afterwards. -/
structure Samples (d : RandomData T) (n : Int) (rand : ℕ → ℕ) : Prop where
  found : (d.getSomeData n rand).1 = true
  length : ((d.getSomeData n rand).2.1.length : Int) = min n d.mydata.length
  subperm : (d.getSomeData n rand).2.1.Subperm d.mydata
  places : ∃ places : List ℕ, places.Nodup ∧
    places.map (fun i => d.mydata[i]?) = (d.getSomeData n rand).2.1.map some
  kept : (d.getSomeData n rand).2.2.mydata.Perm d.mydata
  emptied : (d.getSomeData n rand).2.2.backUpData = []

/-! ## One pick -/

variable {d : RandomData T}

theorem getRandomOnlyData_perm (h : d.mydata ≠ []) (draw : ℕ) :
    ∃ member d', d.getRandomOnlyData draw = some (member, d') ∧
      (member :: d'.mydata).Perm d.mydata ∧ d'.backUpData = d.backUpData ++ [member] := by
  have hpos : 0 < d.mydata.length := List.length_pos_of_ne_nil h
  have hlast : d.mydata.length - 1 < d.mydata.length := Nat.sub_lt hpos Nat.one_pos
  -- the last member takes the place of any, also its own
  have hmove : ∀ i (hi : i < d.mydata.length), (d.mydata[i] ::
      (d.mydata.set i d.mydata[d.mydata.length - 1]).dropLast).Perm d.mydata := fun i hi =>
    Index.perm_moveLast (List.getElem?_eq_getElem hi) (List.getElem?_eq_getElem hlast)
  have hself : d.mydata.set (d.mydata.length - 1) d.mydata[d.mydata.length - 1] = d.mydata :=
    List.set_getElem_self hlast
  unfold getRandomOnlyData
  dsimp only
  split_ifs with hsize hindex hone
  · refine ⟨_, _, rfl, ?_, rfl⟩
    have hperm := hmove (draw % d.mydata.length) (Nat.mod_lt draw hpos)
    simp only [hindex, hself] at hperm ⊢
    exact hperm
  · exact ⟨_, _, rfl, hmove (draw % d.mydata.length) (Nat.mod_lt draw hpos), rfl⟩
  · refine ⟨_, _, rfl, ?_, rfl⟩
    have hperm := hmove 0 hpos
    have hzero : d.mydata.length - 1 = 0 := Nat.sub_eq_zero_of_le (Nat.le_of_eq hone)
    simp only [hzero] at hperm hself
    rwa [hself] at hperm
  · omega

def map (f : T → U) (d : RandomData T) : RandomData U where
  mydata := d.mydata.map f
  backUpData := d.backUpData.map f

theorem getRandomOnlyData_map (f : T → U) (d : RandomData T) (draw : ℕ) :
    (d.map f).getRandomOnlyData draw =
      (d.getRandomOnlyData draw).map fun r => (f r.1, r.2.map f) := by
  unfold getRandomOnlyData map
  simp only [List.length_map, List.getElem_map]
  split_ifs
  · simp [List.map_dropLast]
  · simp [List.map_dropLast, List.map_set]
  · simp [List.map_dropLast]
  · rfl

/-! ## The loop -/

theorem getEach_perm {draws : List ℕ} (h : draws.length ≤ d.mydata.length) :
    (d.getEach draws).1.length = draws.length ∧
      ((d.getEach draws).1 ++ (d.getEach draws).2.mydata).Perm d.mydata ∧
      (d.getEach draws).2.backUpData = d.backUpData ++ (d.getEach draws).1 := by
  induction draws generalizing d with
  | nil => exact ⟨rfl, List.Perm.refl _, (List.append_nil _).symm⟩
  | cons draw draws ih =>
    have hne : d.mydata ≠ [] := by
      intro hnil
      rw [hnil] at h
      exact absurd h (Nat.not_succ_le_zero _)
    obtain ⟨member, d', hpick, hperm, hback⟩ := getRandomOnlyData_perm hne draw
    have hrest : draws.length ≤ d'.mydata.length := by
      have hlength := hperm.length_eq
      rw [List.length_cons] at h hlength
      omega
    obtain ⟨hlength, hall, hbacked⟩ := ih hrest
    have heach : d.getEach (draw :: draws) =
        (member :: (d'.getEach draws).1, (d'.getEach draws).2) := by
      rw [getEach, hpick]
    rw [heach]
    refine ⟨congrArg (· + 1) hlength, (hall.cons member).trans hperm, ?_⟩
    rw [hbacked, hback, List.append_assoc]
    rfl

theorem getEach_map (f : T → U) (d : RandomData T) (draws : List ℕ) :
    (d.map f).getEach draws = ((d.getEach draws).1.map f, (d.getEach draws).2.map f) := by
  induction draws generalizing d with
  | nil => rfl
  | cons draw draws ih =>
    rw [getEach, getEach, getRandomOnlyData_map]
    cases d.getRandomOnlyData draw with
    | none => rfl
    | some r =>
      dsimp only [Option.map_some]
      rw [ih]
      rfl

/-! ## A sample -/

theorem getSomeData_map (f : T → U) (d : RandomData T) (n : Int) (rand : ℕ → ℕ) :
    ((d.map f).getSomeData n rand).2.1 = (d.getSomeData n rand).2.1.map f := by
  have hlength : (d.map f).mydata.length = d.mydata.length := List.length_map f
  unfold getSomeData
  simp only [hlength, getEach_map, List.length_map]
  split_ifs <;> rfl

theorem getSomeData_perm (hback : d.backUpData = []) {n : Int} (hn : 1 ≤ n) (hne : d.mydata ≠ [])
    (rand : ℕ → ℕ) : ∃ dataList rest kept, d.getSomeData n rand = (true, dataList, ⟨kept, []⟩) ∧
      (dataList.length : Int) = min n d.mydata.length ∧ (dataList ++ rest).Perm d.mydata ∧
      kept.Perm d.mydata := by
  have hpos : 0 < d.mydata.length := List.length_pos_of_ne_nil hne
  have hd : d = ⟨d.mydata, []⟩ := by
    rw [← hback]
  unfold getSomeData
  dsimp only
  rw [if_neg (Nat.ne_of_gt hpos)]
  by_cases hall : (d.mydata.length : Int) ≤ n
  · rw [if_pos hall]
    refine ⟨d.mydata, [], d.mydata, congrArg (fun x => (true, d.mydata, x)) hd,
      (Int.min_eq_right hall).symm, ?_, List.Perm.refl _⟩
    rw [List.append_nil]
  · rw [if_neg hall]
    have hdraws : ((List.range n.toNat).map rand).length = n.toNat := by
      rw [List.length_map, List.length_range]
    obtain ⟨hlength, hperm, hbacked⟩ := @getEach_perm T d ((List.range n.toNat).map rand)
      (by omega)
    rw [hback, List.nil_append] at hbacked
    rw [hdraws] at hlength
    rw [if_neg (by omega), hbacked]
    exact ⟨_, _, _, rfl, by omega, hperm, hperm⟩

theorem nodup_places (n : Int) (rand : ℕ → ℕ) (size : ℕ) (hn : 1 ≤ n) :
    ((⟨List.range size, []⟩ : RandomData ℕ).getSomeData n rand).2.1.Nodup := by
  by_cases hne : List.range size = []
  · rw [hne]
    exact List.nodup_nil
  · obtain ⟨dataList, rest, kept, hget, -, hperm, -⟩ :=
      @getSomeData_perm ℕ ⟨List.range size, []⟩ rfl n hn hne rand
    rw [hget]
    exact (List.nodup_append.mp (hperm.nodup_iff.mpr List.nodup_range)).1

theorem map_places (hback : d.backUpData = []) (n : Int) (rand : ℕ → ℕ) :
    ((⟨List.range d.mydata.length, []⟩ : RandomData ℕ).getSomeData n rand).2.1.map
        (fun i => d.mydata[i]?) = (d.getSomeData n rand).2.1.map some := by
  have hsame : (⟨List.range d.mydata.length, []⟩ : RandomData ℕ).map (fun i => d.mydata[i]?) =
      d.map some := by
    have hplaces : (List.range d.mydata.length).map (fun i => d.mydata[i]?) =
        d.mydata.map some := by
      apply List.ext_getElem
      · rw [List.length_map, List.length_map, List.length_range]
      · intro i hi _
        rw [List.length_map, List.length_range] at hi
        rw [List.getElem_map, List.getElem_map, List.getElem_range, List.getElem?_eq_getElem hi]
    unfold map
    rw [hplaces, hback]
    rfl
  rw [← getSomeData_map, hsame, getSomeData_map]

theorem samples (hback : d.backUpData = []) {n : Int} (hn : 1 ≤ n) (hne : d.mydata ≠ [])
    (rand : ℕ → ℕ) : d.Samples n rand := by
  obtain ⟨dataList, rest, kept, hget, hlength, hperm, hkept⟩ := getSomeData_perm hback hn hne rand
  constructor
  · rw [hget]
  · rw [hget]
    exact hlength
  · rw [hget]
    exact (List.sublist_append_left dataList rest).subperm.trans hperm.subperm
  · exact ⟨_, nodup_places n rand d.mydata.length hn, map_places hback n rand⟩
  · rw [hget]
    exact hkept
  · rw [hget]

/-! ## All calls -/

theorem backUpData_step {d d' : RandomData T} {call : Call T} (hback : d.backUpData = [])
    (hd' : d.step call = some d') : d'.backUpData = [] := by
  cases call with
  | addMember member =>
    obtain rfl := Option.some.inj hd'
    exact hback
  | getSomeData n rand =>
    rw [step] at hd'
    split_ifs at hd' with hn
    obtain rfl := Option.some.inj hd'
    by_cases hne : d.mydata = []
    · have hsize : d.mydata.length = 0 := List.length_eq_zero_iff.mpr hne
      unfold getSomeData
      dsimp only
      rw [if_pos hsize]
      exact hback
    · exact (samples hback hn hne rand).emptied

/-- After any calls, whatever is drawn, a sample of a container that is not empty has as many
members as it should, from different places, and leaves the container as it was. -/
theorem samples_run (calls : List (Call T)) : Run.Always step (fun d : RandomData T =>
    ∀ n rand, 1 ≤ n → d.mydata ≠ [] → d.Samples n rand) {} calls :=
  (Run.always_of_invariant (fun _ _ _ hback hd' => backUpData_step hback hd') rfl calls).mono
    fun _ hback _ rand hn hne => samples hback hn hne rand

end RandomData

end IceBridge.Worldmap
