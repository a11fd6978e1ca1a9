import IceBridge.Lib.Run
import Mathlib.Data.List.Nodup
import Mathlib.Data.List.Perm.Subperm
import Mathlib.Data.Nat.Basic
import Mathlib.Logic.Function.Basic

/-! The connections to MySQL (`module/mysql_base.cpp`). A reader or a writer has one of them from
its constructor to its destructor. -/

namespace IceBridge

/-- `κ` names the readers and the writers. Of each connection in the pool we note whether it is
open. -/
structure MysqlBase (κ : Type) where
  connectMinNum : ℕ
  useConnectNum : ℕ := 0
  indexList : List ℕ
  mysqlConnectPool : List Bool
  index : κ → Option ℕ := fun _ => none

namespace MysqlBase
variable {κ : Type}

def connectMaxNum : ℕ := 20000

def create (κ : Type) (connectMinNum : ℕ) : MysqlBase κ where
  connectMinNum := connectMinNum
  indexList := List.range connectMinNum
  mysqlConnectPool := List.replicate connectMinNum true

/-- Above `connectMaxNum` it returns -3, and the caller reads in front of the pool. -/
def getConnect (s : MysqlBase κ) : Option (ℕ × MysqlBase κ) :=
  let s := { s with useConnectNum := s.useConnectNum + 1 }
  if s.mysqlConnectPool.length < s.useConnectNum then
    if connectMaxNum < s.useConnectNum then none
    else
      some (s.useConnectNum - 1, { s with mysqlConnectPool := s.mysqlConnectPool ++ [true] })
  else
    match s.indexList.getLast? with
    | some index => some (index, { s with indexList := s.indexList.dropLast })
    | none =>
      some (s.mysqlConnectPool.length,
        { s with mysqlConnectPool := s.mysqlConnectPool ++ [true] })

/-- A connection that was opened later is closed; its place in the pool stays. -/
def releaseConnect (s : MysqlBase κ) (connectPoolIndex : ℕ) : MysqlBase κ :=
  let s :=
    if s.connectMinNum ≤ connectPoolIndex then
      { s with mysqlConnectPool := s.mysqlConnectPool.set connectPoolIndex false }
    else { s with indexList := s.indexList ++ [connectPoolIndex] }
  { s with useConnectNum := s.useConnectNum - 1 }

inductive Event (κ : Type)
  | construct (k : κ)
  | destroy (k : κ)

def step [DecidableEq κ] (s : MysqlBase κ) : Event κ → Option (MysqlBase κ)
  | .construct k =>
    if s.index k = none then
      s.getConnect.map fun (index, t) =>
        { t with index := Function.update t.index k (some index) }
    else none
  | .destroy k =>
    (s.index k).map fun index =>
      { s.releaseConnect index with index := Function.update s.index k none }

/-! ## What each connection is used for -/

structure OneUser (s : MysqlBase κ) : Prop where
  nodup : s.indexList.Nodup
  free : ∀ i ∈ s.indexList, s.mysqlConnectPool[i]? = some true ∧ ∀ k, s.index k ≠ some i
  used : ∀ k i, s.index k = some i → s.mysqlConnectPool[i]? = some true
  alone : ∀ k l i, s.index k = some i → s.index l = some i → k = l
  known : ∀ i, s.mysqlConnectPool[i]? = some true → i ∈ s.indexList ∨ ∃ k, s.index k = some i

variable {s t : MysqlBase κ} {k l : κ} {i j : ℕ}

theorem oneUser_create (n : ℕ) : OneUser (create κ n) := by
  have hnone : ∀ k i, (create κ n).index k ≠ some i := fun _ _ => Option.some_ne_none _ ∘ Eq.symm
  have hopen : ∀ i, (create κ n).mysqlConnectPool[i]? = some true ↔ i ∈ List.range n := by
    intro i
    rw [List.mem_range]
    simp [create, List.getElem?_replicate]
  constructor
  · exact List.nodup_range
  · exact fun i hi => ⟨(hopen i).mpr hi, fun k => hnone k i⟩
  · exact fun k i hk => absurd hk (hnone k i)
  · exact fun k _ i hk => absurd hk (hnone k i)
  · exact fun i hi => .inl ((hopen i).mp hi)

theorem OneUser.lt (h : s.OneUser) (hk : s.index k = some i) : i < s.mysqlConnectPool.length :=
  (List.getElem?_eq_some_iff.mp (h.used k i hk)).1

theorem getConnect_cases (hle : s.useConnectNum ≤ s.mysqlConnectPool.length)
    (hs : s.getConnect = some (i, t)) :
    (∃ rest, s.indexList = rest ++ [i] ∧ s.useConnectNum < s.mysqlConnectPool.length ∧
      t = { s with useConnectNum := s.useConnectNum + 1, indexList := rest }) ∨
    (i = s.mysqlConnectPool.length ∧ (s.indexList = [] ∨ s.useConnectNum = i) ∧
      t = { s with
        useConnectNum := s.useConnectNum + 1
        mysqlConnectPool := s.mysqlConnectPool ++ [true] }) := by
  unfold getConnect at hs
  simp only at hs
  split_ifs at hs with hmore hmax
  · obtain ⟨rfl, rfl⟩ := Prod.mk.inj (Option.some.inj hs)
    have hall : s.useConnectNum = s.mysqlConnectPool.length :=
      le_antisymm hle (Nat.lt_succ_iff.mp hmore)
    exact .inr ⟨hall, .inr rfl, rfl⟩
  · have hlt : s.useConnectNum < s.mysqlConnectPool.length :=
      Nat.lt_of_succ_le (not_lt.mp hmore)
    rcases List.eq_nil_or_concat s.indexList with hnil | ⟨rest, last, hrest⟩
    · simp only [hnil, List.getLast?_nil, Option.some.injEq, Prod.mk.injEq] at hs
      exact .inr ⟨hs.1.symm, .inl hnil, by rw [← hs.2, hnil]⟩
    · simp only [hrest, List.concat_eq_append, List.getLast?_concat, List.dropLast_concat,
        Option.some.injEq, Prod.mk.injEq] at hs
      obtain ⟨rfl, rfl⟩ := hs
      exact .inl ⟨rest, by rw [hrest, List.concat_eq_append], hlt, rfl⟩

structure Within (n : ℕ) (s : MysqlBase κ) : Prop where
  oneUser : s.OneUser
  connectMinNum : s.connectMinNum = n
  pool : s.mysqlConnectPool = List.replicate n true
  use : s.useConnectNum + s.indexList.length = n

theorem within_create (n : ℕ) : (create κ n).Within n :=
  ⟨oneUser_create n, rfl, rfl, by simp [create]⟩

theorem Within.lt {n : ℕ} (h : s.Within n) (hi : s.mysqlConnectPool[i]? = some true) : i < n := by
  rw [h.pool] at hi
  simpa using (List.getElem?_eq_some_iff.mp hi).1

theorem Within.use_pos {n : ℕ} (h : s.Within n) (hk : s.index k = some i) :
    0 < s.useConnectNum := by
  have hnodup : (i :: s.indexList).Nodup :=
    List.nodup_cons.mpr ⟨fun hin => (h.oneUser.free i hin).2 k hk, h.oneUser.nodup⟩
  have hsub : i :: s.indexList ⊆ List.range n := by
    intro j hj
    apply List.mem_range.mpr
    rcases List.mem_cons.mp hj with rfl | hj
    · exact h.lt (h.oneUser.used k j hk)
    · exact h.lt (h.oneUser.free j hj).1
  have hlength := (hnodup.subperm hsub).length_le
  rw [List.length_cons, List.length_range] at hlength
  have huse := h.use
  omega

/-! ## What the steps keep -/

variable [DecidableEq κ] {pool : List Bool} {free : List ℕ} {use : ℕ}

theorem OneUser.give (h : s.OneUser) (hk : s.index k = none) (hunused : ∀ l, s.index l ≠ some i)
    (hnodup : free.Nodup) (hnot : i ∉ free) (hopen : pool[i]? = some true)
    (hfree : ∀ j, j ≠ i → (j ∈ free ↔ j ∈ s.indexList))
    (hpool : ∀ j, j ≠ i → (pool[j]? = some true ↔ s.mysqlConnectPool[j]? = some true)) :
    OneUser { s with
      useConnectNum := use
      indexList := free
      mysqlConnectPool := pool
      index := Function.update s.index k (some i) } := by
  have hindex : ∀ l j, Function.update s.index k (some i) l = some j →
      l = k ∧ j = i ∨ s.index l = some j ∧ j ≠ i := by
    intro l j hl
    rw [Function.update_apply] at hl
    split_ifs at hl with hlk
    · exact .inl ⟨hlk, (Option.some.inj hl).symm⟩
    · exact .inr ⟨hl, fun heq => hunused l (heq ▸ hl)⟩
  constructor
  · exact hnodup
  · intro j hj
    have hne : j ≠ i := fun heq => hnot (heq ▸ hj)
    have hold := h.free j ((hfree j hne).mp hj)
    refine ⟨(hpool j hne).mpr hold.1, fun l hl => ?_⟩
    rcases hindex l j hl with ⟨-, rfl⟩ | ⟨hl, -⟩
    · exact hne rfl
    · exact hold.2 l hl
  · intro l j hl
    rcases hindex l j hl with ⟨-, rfl⟩ | ⟨hl, hne⟩
    · exact hopen
    · exact (hpool j hne).mpr (h.used l j hl)
  · intro l m j hl hm
    rcases hindex l j hl with ⟨rfl, rfl⟩ | ⟨hl, hne⟩
    · rcases hindex m j hm with ⟨rfl, -⟩ | ⟨-, hne⟩
      · rfl
      · exact absurd rfl hne
    · rcases hindex m j hm with ⟨-, rfl⟩ | ⟨hm, -⟩
      · exact absurd rfl hne
      · exact h.alone l m j hl hm
  · intro j hj
    rcases eq_or_ne j i with rfl | hne
    · exact .inr ⟨k, Function.update_self k (some j) s.index⟩
    · rcases h.known j ((hpool j hne).mp hj) with hj | ⟨l, hl⟩
      · exact .inl ((hfree j hne).mpr hj)
      · have hlk : l ≠ k := fun heq => Option.some_ne_none j (hl.symm.trans (heq ▸ hk))
        exact .inr ⟨l, (Function.update_of_ne hlk (some i) s.index).trans hl⟩

theorem OneUser.takeBack (h : s.OneUser) (hk : s.index k = some i) (hnodup : free.Nodup)
    (hopen : i ∈ free ↔ pool[i]? = some true)
    (hfree : ∀ j, j ≠ i → (j ∈ free ↔ j ∈ s.indexList))
    (hpool : ∀ j, j ≠ i → (pool[j]? = some true ↔ s.mysqlConnectPool[j]? = some true)) :
    OneUser { s with
      useConnectNum := use
      indexList := free
      mysqlConnectPool := pool
      index := Function.update s.index k none } := by
  have hindex : ∀ l j, Function.update s.index k none l = some j → s.index l = some j ∧ j ≠ i := by
    intro l j hl
    rw [Function.update_apply] at hl
    split_ifs at hl with hlk
    exact ⟨hl, fun heq => hlk (h.alone l k i (heq ▸ hl) hk)⟩
  constructor
  · exact hnodup
  · intro j hj
    rcases eq_or_ne j i with rfl | hne
    · exact ⟨hopen.mp hj, fun l hl => (hindex l j hl).2 rfl⟩
    · have hold := h.free j ((hfree j hne).mp hj)
      exact ⟨(hpool j hne).mpr hold.1, fun l hl => hold.2 l (hindex l j hl).1⟩
  · intro l j hl
    obtain ⟨hl, hne⟩ := hindex l j hl
    exact (hpool j hne).mpr (h.used l j hl)
  · intro l m j hl hm
    exact h.alone l m j (hindex l j hl).1 (hindex m j hm).1
  · intro j hj
    rcases eq_or_ne j i with rfl | hne
    · exact .inl (hopen.mpr hj)
    · rcases h.known j ((hpool j hne).mp hj) with hj | ⟨l, hl⟩
      · exact .inl ((hfree j hne).mpr hj)
      · have hlk : l ≠ k := fun heq => hne (Option.some.inj (hl.symm.trans (heq ▸ hk)))
        exact .inr ⟨l, (Function.update_of_ne hlk none s.index).trans hl⟩

theorem OneUser.construct (h : s.OneUser) (hle : s.useConnectNum ≤ s.mysqlConnectPool.length)
    (hs : s.step (.construct k) = some t) : t.OneUser := by
  simp only [step] at hs
  split_ifs at hs with hk
  obtain ⟨⟨i, u⟩, hget, rfl⟩ := Option.map_eq_some_iff.mp hs
  rcases getConnect_cases hle hget with ⟨rest, hrest, -, rfl⟩ | ⟨rfl, -, rfl⟩
  · have hmem : i ∈ s.indexList := by rw [hrest]; exact List.mem_append_right _ List.mem_cons_self
    have hnodup := h.nodup
    rw [hrest, List.nodup_append] at hnodup
    apply h.give hk (h.free i hmem).2 hnodup.1 _ (h.free i hmem).1 _ fun _ _ => Iff.rfl
    · exact fun hin => hnodup.2.2 i hin i List.mem_cons_self rfl
    · intro j hne
      rw [hrest, List.mem_append, List.mem_singleton, or_iff_left hne]
  · have hnew : ∀ j, s.mysqlConnectPool[j]? = some true → j ≠ s.mysqlConnectPool.length :=
      fun j hj => Nat.ne_of_lt (List.getElem?_eq_some_iff.mp hj).1
    apply h.give hk _ h.nodup _ List.getElem?_concat_length (fun _ _ => Iff.rfl)
    · intro j hne
      rw [List.getElem?_append]
      split_ifs with hj
      · exact Iff.rfl
      · have hlt : s.mysqlConnectPool.length < j := lt_of_le_of_ne (not_lt.mp hj) hne.symm
        rw [List.getElem?_eq_none (not_lt.mp hj), List.getElem?_eq_none]
        exact Nat.le_sub_of_add_le' hlt
    · exact fun l hl => hnew _ (h.used l _ hl) rfl
    · exact fun hin => hnew _ (h.free _ hin).1 rfl

theorem OneUser.destroy (h : s.OneUser) (hs : s.step (.destroy k) = some t) : t.OneUser := by
  obtain ⟨i, hk, rfl⟩ := Option.map_eq_some_iff.mp hs
  have hnot : i ∉ s.indexList := fun hin => (h.free i hin).2 k hk
  unfold releaseConnect
  simp only
  split_ifs with hmin
  · apply h.takeBack hk h.nodup _ fun _ _ => Iff.rfl
    · intro j hne
      rw [List.getElem?_set_ne hne.symm]
    · have hfalse : (s.mysqlConnectPool.set i false)[i]? = some false :=
        List.getElem?_set_self (h.lt hk)
      rw [hfalse]
      exact ⟨fun hin => absurd hin hnot, fun heq => by simp at heq⟩
  · apply h.takeBack hk _ _ _ fun _ _ => Iff.rfl
    · exact List.nodup_append.mpr ⟨h.nodup, List.nodup_singleton i, fun a ha b hb heq =>
        hnot (List.mem_singleton.mp hb ▸ heq ▸ ha)⟩
    · exact ⟨fun _ => h.used k i hk, fun _ => List.mem_append_right _ List.mem_cons_self⟩
    · intro j hne
      rw [List.mem_append, List.mem_singleton, or_iff_left hne]

theorem use_le {e : Event κ} (hle : s.useConnectNum ≤ s.mysqlConnectPool.length)
    (hs : s.step e = some t) : t.useConnectNum ≤ t.mysqlConnectPool.length := by
  cases e with
  | construct k =>
    simp only [step] at hs
    split_ifs at hs
    obtain ⟨⟨i, u⟩, hget, rfl⟩ := Option.map_eq_some_iff.mp hs
    rcases getConnect_cases hle hget with ⟨rest, -, hlt, rfl⟩ | ⟨-, -, rfl⟩
    · exact hlt
    · show s.useConnectNum + 1 ≤ (s.mysqlConnectPool ++ [true]).length
      rw [List.length_append]
      exact Nat.add_le_add_right hle 1
  | destroy k =>
    obtain ⟨i, -, rfl⟩ := Option.map_eq_some_iff.mp hs
    unfold releaseConnect
    simp only
    split_ifs
    · show s.useConnectNum - 1 ≤ (s.mysqlConnectPool.set i false).length
      rw [List.length_set]
      exact le_trans (Nat.sub_le _ _) hle
    · exact le_trans (Nat.sub_le _ _) hle

/-- However readers and writers come and go, no two of them have the same connection, no one has a
connection that has been closed, and no open one is lost. -/
theorem one_user (connectMinNum : ℕ) (es : List (Event κ)) :
    Run.Always step OneUser (create κ connectMinNum) es := by
  have hrun : Run.Always step
      (fun s : MysqlBase κ => s.OneUser ∧ s.useConnectNum ≤ s.mysqlConnectPool.length)
      (create κ connectMinNum) es := by
    apply Run.always_of_invariant _ ⟨oneUser_create connectMinNum, Nat.zero_le _⟩
    intro s e t h hs
    refine ⟨?_, use_le h.2 hs⟩
    cases e with
    | construct k => exact h.1.construct h.2 hs
    | destroy k => exact h.1.destroy hs
  exact hrun.mono fun _ h => h.1

theorem Within.step {n : ℕ} {e : Event κ} (h : s.Within n) (hs : s.step e = some t)
    (ht : t.useConnectNum ≤ n) : t.Within n := by
  have huse := h.use
  have hle : s.useConnectNum ≤ s.mysqlConnectPool.length := by
    rw [h.pool, List.length_replicate, ← huse]
    exact Nat.le_add_right _ _
  cases e with
  | construct k =>
    have hone := h.oneUser.construct hle hs
    simp only [MysqlBase.step] at hs
    split_ifs at hs
    obtain ⟨⟨i, u⟩, hget, rfl⟩ := Option.map_eq_some_iff.mp hs
    rcases getConnect_cases hle hget with ⟨rest, hrest, -, rfl⟩ | ⟨hi, hfull, rfl⟩
    · refine ⟨hone, h.connectMinNum, h.pool, ?_⟩
      rw [hrest, List.length_append, List.length_singleton] at huse
      show s.useConnectNum + 1 + rest.length = n
      omega
    · -- the pool is in use up to its last connection
      change s.useConnectNum + 1 ≤ n at ht
      rw [h.pool, List.length_replicate] at hi
      rcases hfull with hnil | hall
      · rw [hnil, List.length_nil] at huse
        omega
      · omega
  | destroy k =>
    have hone := h.oneUser.destroy hs
    obtain ⟨i, hk, rfl⟩ := Option.map_eq_some_iff.mp hs
    have hpos := h.use_pos hk
    have hlt : ¬ s.connectMinNum ≤ i := by
      rw [h.connectMinNum]
      exact not_le.mpr (h.lt (h.oneUser.used k i hk))
    unfold releaseConnect at hone ⊢
    simp only [if_neg hlt] at hone ⊢
    refine ⟨hone, h.connectMinNum, h.pool, ?_⟩
    show s.useConnectNum - 1 + (s.indexList ++ [i]).length = n
    rw [List.length_append, List.length_singleton]
    omega

/-- As long as there are no more readers and writers at a time than connections were opened at the
start, no further connection is opened and none is closed. -/
theorem keeps_pool (connectMinNum : ℕ) (es : List (Event κ))
    (hes : Run.Always step (fun s => s.useConnectNum ≤ connectMinNum) (create κ connectMinNum)
      es) :
    Run.Always step (fun s => s.mysqlConnectPool = List.replicate connectMinNum true)
      (create κ connectMinNum) es := by
  have hprefix := (Run.always_iff_prefixes _ es).mp hes
  apply (Run.always_iff_prefixes _ es).mpr
  intro pre hpre t ht
  have hwithin : t.Within connectMinNum := by
    apply Run.exec_within (fun _ _ _ h hs hu => h.step hs hu) (within_create connectMinNum) _ ht
    exact (Run.always_iff_prefixes _ pre).mpr fun p hp => hprefix p (hp.trans hpre)
  exact hwithin.pool

theorem keeps_pool_register :
    Run.Always step (fun s => s.mysqlConnectPool = List.replicate 5 true) (create (Fin 5) 5)
      [.construct 0, .construct 1, .construct 2, .construct 3, .construct 4, .destroy 4,
        .destroy 3, .destroy 2, .destroy 1, .destroy 0] :=
  keeps_pool 5 _ (by decide)

end MysqlBase
end IceBridge
