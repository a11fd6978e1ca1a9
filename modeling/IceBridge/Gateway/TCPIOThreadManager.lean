import IceBridge.Lib.Run
import Mathlib.Data.List.Nodup
import Mathlib.Data.List.Perm.Basic

/-! The ids of the sessions. An id is taken from the counter or, when enough of them have come
back, from the front of the pool; the ids below the counter are those of the pool and of the
sessions, so a limit on the sessions is one on the counter. -/

namespace IceBridge.Gateway

/-! ## The ids -/

structure IDGenerator where
  min : UInt32
  max : UInt32
  next : UInt32
  threshold : ℕ := 4096
  pool : List UInt32 := []

namespace IDGenerator

def get (g : IDGenerator) : Option UInt32 × IDGenerator :=
  if g.threshold < g.pool.length then (g.pool.head?, { g with pool := g.pool.tail })
  else if g.next ≤ g.max then (some g.next, { g with next := g.next + 1 })
  else (none, g)

def put (g : IDGenerator) (id : UInt32) : IDGenerator := { g with pool := g.pool ++ [id] }

end IDGenerator

def maxConnectionNum : ℕ := 10000

def kInvalidTCPSessionId : UInt32 := 0

structure TCPIOThreadManager (H : Type) where
  sessionIdGenerator : IDGenerator :=
    { min := kInvalidTCPSessionId + 1, max := 0xFFFFFFFF, next := kInvalidTCPSessionId + 1 }
  sessionHandlerMap : List (UInt32 × H) := []

inductive ManagerEvent (H : Type)
  | onSessionConnect (allowed : Bool) (handler : H)
  | onSessionClose (id : UInt32)

namespace TCPIOThreadManager
variable {H : Type}

def ids (m : TCPIOThreadManager H) : List UInt32 := m.sessionHandlerMap.map Prod.fst

/-- The id of the new session, if it is accepted; `none` when there is no id to be had or an
assertion fails. -/
def onSessionConnect (m : TCPIOThreadManager H) (allowed : Bool) (handler : H) :
    Option (Option UInt32 × TCPIOThreadManager H) :=
  if ¬ allowed ∨ maxConnectionNum < m.sessionHandlerMap.length then some (none, m)
  else
    match m.sessionIdGenerator.get with
    | (none, _) => none
    | (some sessionId, g) =>
      if sessionId ∈ m.ids then none
      else some (some sessionId,
        { sessionIdGenerator := g
          sessionHandlerMap := m.sessionHandlerMap ++ [(sessionId, handler)] })

def onSessionClose (m : TCPIOThreadManager H) (id : UInt32) : Option (TCPIOThreadManager H) :=
  if id = kInvalidTCPSessionId then none
  else if id ∈ m.ids then
    some { sessionIdGenerator := m.sessionIdGenerator.put id
           sessionHandlerMap := m.sessionHandlerMap.eraseP (·.1 = id) }
  else some m

def step (m : TCPIOThreadManager H) : ManagerEvent H → Option (TCPIOThreadManager H)
  | .onSessionConnect allowed handler => (m.onSessionConnect allowed handler).map Prod.snd
  | .onSessionClose id => m.onSessionClose id

/-! ## The ids that have been given out -/

/-- The numbers below the counter, from 1 on, are the ids in the pool and those of the sessions,
each once, and neither are there too many. -/
structure Issued (m : TCPIOThreadManager H) : Prop where
  once : ((m.sessionIdGenerator.pool ++ m.ids).map UInt32.toNat).Perm
    (List.range' 1 (m.sessionIdGenerator.next.toNat - 1))
  max : m.sessionIdGenerator.max = 0xFFFFFFFF
  threshold : m.sessionIdGenerator.threshold = 4096
  next_pos : 1 ≤ m.sessionIdGenerator.next.toNat
  next_le : m.sessionIdGenerator.next.toNat ≤ 4096 + maxConnectionNum + 2

variable {m n : TCPIOThreadManager H}

theorem Issued.mem_iff (h : Issued m) (id : UInt32) :
    id ∈ m.sessionIdGenerator.pool ∨ id ∈ m.ids ↔
      1 ≤ id.toNat ∧ id.toNat < m.sessionIdGenerator.next.toNat := by
  have hinjective : Function.Injective UInt32.toNat := fun _ _ => UInt32.toNat.inj
  rw [← List.mem_append, ← List.mem_map_of_injective hinjective, h.once.mem_iff, List.mem_range'_1]
  have hpos := h.next_pos
  omega

theorem Issued.nodup (h : Issued m) : (m.sessionIdGenerator.pool ++ m.ids).Nodup :=
  List.Nodup.of_map UInt32.toNat (h.once.nodup_iff.mpr List.nodup_range')

theorem Issued.length (h : Issued m) : m.sessionIdGenerator.pool.length + m.ids.length =
    m.sessionIdGenerator.next.toNat - 1 := by
  have hlen := h.once.length_eq
  rwa [List.length_map, List.length_append, List.length_range'] at hlen

theorem ids_append (m : TCPIOThreadManager H) (g : IDGenerator) (id : UInt32) (handler : H) :
    ids { sessionIdGenerator := g, sessionHandlerMap := m.sessionHandlerMap ++ [(id, handler)] } =
      m.ids ++ [id] := List.map_append

theorem Issued.get_pool (h : Issued m) {id : UInt32} {pool : List UInt32}
    (hpool : m.sessionIdGenerator.pool = id :: pool) :
    id ≠ 0 ∧ id ∉ m.ids ∧ ∀ handler, Issued
      { sessionIdGenerator := { m.sessionIdGenerator with pool := pool }
        sessionHandlerMap := m.sessionHandlerMap ++ [(id, handler)] } := by
  have hmem : id ∈ m.sessionIdGenerator.pool := hpool ▸ List.mem_cons_self
  have hpos := ((h.mem_iff id).mp (.inl hmem)).1
  have hnodup := h.nodup
  refine ⟨?_, fun hids => List.disjoint_of_nodup_append hnodup hmem hids, fun handler => ?_⟩
  · rintro rfl
    exact absurd hpos (by decide)
  · refine ⟨?_, h.max, h.threshold, h.next_pos, h.next_le⟩
    have hmoved : (pool ++ (m.ids ++ [id])).Perm (m.sessionIdGenerator.pool ++ m.ids) := by
      rw [hpool, ← List.append_assoc]
      exact List.perm_append_singleton id (pool ++ m.ids)
    rw [ids_append]
    exact (hmoved.map _).trans h.once

theorem Issued.get_next (h : Issued m) (hpool : m.sessionIdGenerator.pool.length ≤ 4096)
    (hroom : m.ids.length ≤ maxConnectionNum) :
    m.sessionIdGenerator.next ≠ 0 ∧ m.sessionIdGenerator.next ∉ m.ids ∧
      (m.sessionIdGenerator.next + 1).toNat = m.sessionIdGenerator.next.toNat + 1 ∧
      ∀ handler, Issued
        { sessionIdGenerator := { m.sessionIdGenerator with next := m.sessionIdGenerator.next + 1 }
          sessionHandlerMap := m.sessionHandlerMap ++ [(m.sessionIdGenerator.next, handler)] } := by
  set next := m.sessionIdGenerator.next with hnext
  have hpos := h.next_pos
  have hle := h.next_le
  have hlen := h.length
  rw [← hnext] at hpos hle hlen
  have hlimit : maxConnectionNum = 10000 := rfl
  have hsucc : (next + 1).toNat = next.toNat + 1 := by
    rw [UInt32.toNat_add]
    have hone : (1 : UInt32).toNat = 1 := rfl
    exact Nat.mod_eq_of_lt (by omega)
  refine ⟨?_, fun hids => ?_, hsucc, fun handler => ?_⟩
  · rintro hzero
    rw [hzero] at hpos
    exact absurd hpos (by decide)
  · exact absurd ((h.mem_iff next).mp (.inr hids)).2 (Nat.lt_irrefl _)
  · refine ⟨?_, h.max, h.threshold, ?_, ?_⟩
    · have hcount : (next + 1).toNat - 1 = next.toNat - 1 + 1 := by omega
      have hlast : 1 + (next.toNat - 1) = next.toNat := by omega
      rw [ids_append, hcount, List.range'_1_concat, hlast, ← List.append_assoc, List.map_append]
      exact h.once.append_right [next.toNat]
    · rw [hsucc]
      omega
    · rw [hsucc]
      omega

theorem Issued.get (h : Issued m) (hroom : m.ids.length ≤ maxConnectionNum) :
    ∃ id g, m.sessionIdGenerator.get = (some id, g) ∧ id ≠ 0 ∧ id ∉ m.ids ∧
      (g.next.toNat = m.sessionIdGenerator.next.toNat ∨
        g.next.toNat = m.sessionIdGenerator.next.toNat + 1) ∧
      ∀ handler, Issued { sessionIdGenerator := g
                          sessionHandlerMap := m.sessionHandlerMap ++ [(id, handler)] } := by
  unfold IDGenerator.get
  split
  · next hmany =>
    obtain ⟨id, pool, hpool⟩ := List.exists_cons_of_length_pos (Nat.zero_lt_of_lt hmany)
    obtain ⟨hne, hids, hissued⟩ := h.get_pool hpool
    rw [hpool]
    exact ⟨id, _, rfl, hne, hids, .inl rfl, hissued⟩
  · next hfew =>
    have hmax : m.sessionIdGenerator.next ≤ m.sessionIdGenerator.max := by
      rw [h.max, UInt32.le_iff_toNat_le]
      exact Nat.le_of_lt_succ m.sessionIdGenerator.next.toNat_lt
    rw [h.threshold] at hfew
    obtain ⟨hne, hids, hsucc, hissued⟩ := h.get_next (Nat.le_of_not_lt hfew) hroom
    rw [if_pos hmax]
    exact ⟨_, _, rfl, hne, hids, .inr hsucc, hissued⟩

/-! ## Connecting and closing -/

theorem issued_init : Issued ({} : TCPIOThreadManager H) :=
  ⟨.refl _, rfl, rfl, Nat.le_refl 1, Nat.le_add_left 1 _⟩

theorem Issued.onSessionConnect (h : Issued m) (allowed : Bool) (handler : H) :
    ∃ given n, m.onSessionConnect allowed handler = some (given, n) ∧ Issued n ∧
      (given = none ↔ allowed = false ∨ maxConnectionNum < m.sessionHandlerMap.length) ∧
      m.sessionIdGenerator.next.toNat ≤ n.sessionIdGenerator.next.toNat ∧
      ∀ id, given = some id → id ≠ 0 ∧ id ∉ m.ids ∧
        n.sessionHandlerMap = m.sessionHandlerMap ++ [(id, handler)] := by
  unfold TCPIOThreadManager.onSessionConnect
  split
  · next hrefused =>
    refine ⟨none, m, rfl, h, iff_of_true rfl ?_, Nat.le_refl _, nofun⟩
    simpa using hrefused
  next hroom =>
  obtain ⟨hallowed, hlen⟩ := not_or.mp hroom
  have hids : m.ids.length ≤ maxConnectionNum := by
    rw [ids, List.length_map]
    exact Nat.le_of_not_lt hlen
  obtain ⟨id, g, hget, hne, hnew, hnext, hissued⟩ := h.get hids
  rw [hget]
  dsimp only
  rw [if_neg hnew]
  refine ⟨_, _, rfl, hissued handler, iff_of_false nofun ?_, ?_, fun id' heq => ?_⟩
  · simpa using hroom
  · obtain hsame | hsucc := hnext
    · exact Nat.le_of_eq hsame.symm
    · rw [hsucc]
      exact Nat.le_succ _
  · cases heq
    exact ⟨hne, hnew, rfl⟩

theorem Issued.onSessionClose (h : Issued m) {id : UInt32} (hn : m.onSessionClose id = some n) :
    Issued n := by
  unfold TCPIOThreadManager.onSessionClose at hn
  split at hn
  · cases hn
  split at hn
  · next hids =>
    rw [← Option.some.inj hn]
    refine ⟨?_, h.max, h.threshold, h.next_pos, h.next_le⟩
    have hmoved : (m.sessionIdGenerator.pool ++ [id] ++
        (m.sessionHandlerMap.eraseP (·.1 = id)).map Prod.fst).Perm
          (m.sessionIdGenerator.pool ++ m.ids) := by
      obtain ⟨entry, hentry, hkey⟩ := List.mem_map.mp hids
      obtain ⟨found, before, after, -, hfound, hmap, herase⟩ :=
        List.exists_of_eraseP hentry (p := (·.1 = id)) (by simpa using hkey)
      have hfound : found.1 = id := by simpa using hfound
      rw [herase, ids, hmap, List.append_assoc, List.map_append, List.map_append, List.map_cons,
        hfound, List.singleton_append]
      exact List.perm_middle.symm.append_left _
    exact (hmoved.map _).trans h.once
  · exact Option.some.inj hn ▸ h

theorem issued_step (m : TCPIOThreadManager H) (e : ManagerEvent H) (n : TCPIOThreadManager H)
    (h : Issued m) (hn : m.step e = some n) : Issued n := by
  cases e with
  | onSessionConnect allowed handler =>
    obtain ⟨given, n', heq, hissued, -⟩ := h.onSessionConnect allowed handler
    simp only [step, heq, Option.map_some] at hn
    exact Option.some.inj hn ▸ hissued
  | onSessionClose id => exact h.onSessionClose hn

/-- In every state that is reached a session is accepted as long as there is room, under an id
that no other session has, and the counter stays where it can be counted on. -/
theorem ids_fresh (events : List (ManagerEvent H)) :
    Run.Always step (fun m => 0 ∉ m.ids ∧ m.ids.Nodup ∧
        m.sessionIdGenerator.next.toNat ≤ 4096 + maxConnectionNum + 2 ∧
        ∀ allowed handler, ∃ given n, m.onSessionConnect allowed handler = some (given, n) ∧
          (given = none ↔ allowed = false ∨ maxConnectionNum < m.sessionHandlerMap.length) ∧
          m.sessionIdGenerator.next.toNat ≤ n.sessionIdGenerator.next.toNat ∧
          ∀ id, given = some id → id ≠ 0 ∧ id ∉ m.ids ∧
            n.sessionHandlerMap = m.sessionHandlerMap ++ [(id, handler)])
      ({} : TCPIOThreadManager H) events := by
  have hissued : Run.Always step Issued ({} : TCPIOThreadManager H) events :=
    Run.always_of_invariant issued_step issued_init events
  refine hissued.mono fun m h => ⟨fun hzero => ?_, h.nodup.of_append_right, h.next_le, ?_⟩
  · exact absurd ((h.mem_iff 0).mp (.inr hzero)).1 (by decide)
  · intro allowed handler
    obtain ⟨given, n, heq, -, hrest⟩ := h.onSessionConnect allowed handler
    exact ⟨given, n, heq, hrest⟩

end TCPIOThreadManager

end IceBridge.Gateway
