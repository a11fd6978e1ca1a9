import IceBridge.Lib.Postbox
import IceBridge.Gateway.TCPIOThreadManager
import Mathlib.Logic.Function.Basic

/-! Which session an id stands for, and where. An id is given to a connection by the main thread,
reaches the queue of a session thread later and leaves it earlier than the main thread takes it
back, so it never stands for two sessions of one thread, now or by tasks that are still waiting. -/

namespace IceBridge.Gateway
open Postbox (Command)

structure Names where
  thread : ℕ
  sessionId : UInt32
  id : UInt32 := kInvalidTCPSessionId
  tornDown : ℕ := 0

/-- `closing` are the sessions of a thread that are out of its queue while the main thread has not
been told, `ended` the ids that it has been told of. -/
structure Directory where
  manager : TCPIOThreadManager ℕ := {}
  names : List Names := []
  queue : ℕ → List (UInt32 × ℕ) := fun _ => []
  commands : ℕ → List (Command UInt32 ℕ) := fun _ => []
  closing : ℕ → List ℕ := fun _ => []
  ended : List UInt32 := []

/-! ## Looking up -/

theorem getElem?_concat_iff {α : Type} {l : List α} {a b : α} {i : ℕ} :
    (l ++ [a])[i]? = some b ↔ l[i]? = some b ∨ i = l.length ∧ b = a := by
  obtain hlt | rfl | hgt := lt_trichotomy i l.length
  · rw [List.getElem?_append_left hlt]
    exact ⟨.inl, fun h => h.resolve_right fun heq => absurd heq.1 (Nat.ne_of_lt hlt)⟩
  · simp [eq_comm]
  · have hnone : l[i]? = none := List.getElem?_eq_none (Nat.le_of_lt hgt)
    have hlong : (l ++ [a])[i]? = none := by
      refine List.getElem?_eq_none ?_
      rw [List.length_append, List.length_singleton]
      exact hgt
    rw [hnone, hlong]
    refine ⟨fun h => absurd h (by simp), ?_⟩
    rintro (h | ⟨rfl, -⟩)
    · exact absurd h (by simp)
    · exact absurd hgt (Nat.lt_irrefl _)

section Modify
variable {α : Type} {l : List α} {f : α → α} {a b : α} {i j : ℕ}

theorem getElem?_modify_self (ha : l[i]? = some a) : (l.modify i f)[i]? = some (f a) := by
  rw [List.getElem?_modify_eq, ha]
  rfl

theorem getElem?_modify_cases (ha : l[i]? = some a) (hb : (l.modify i f)[j]? = some b) :
    j = i ∧ b = f a ∨ j ≠ i ∧ l[j]? = some b := by
  obtain rfl | hne := eq_or_ne j i
  · exact .inl ⟨rfl, Option.some.inj (hb.symm.trans (getElem?_modify_self ha))⟩
  · exact .inr ⟨hne, (List.getElem?_modify_ne f l hne.symm).symm.trans hb⟩

theorem exists_modify {P : α → Prop} (ha : l[i]? = some a) (hP : P a → P (f a))
    (h : ∃ b, l[j]? = some b ∧ P b) : ∃ b, (l.modify i f)[j]? = some b ∧ P b := by
  obtain ⟨b, hb, hPb⟩ := h
  obtain rfl | hne := eq_or_ne j i
  · obtain rfl := Option.some.inj (ha.symm.trans hb)
    exact ⟨_, getElem?_modify_self hb, hP hPb⟩
  · exact ⟨b, (List.getElem?_modify_ne f l hne.symm).trans hb, hPb⟩

theorem exists_modify_iff {P : α → Prop} (ha : l[i]? = some a) (hP : P (f a) ↔ P a) :
    (∃ b, (l.modify i f)[j]? = some b ∧ P b) ↔ ∃ b, l[j]? = some b ∧ P b := by
  refine ⟨?_, exists_modify ha hP.mpr⟩
  rintro ⟨b, hb, hPb⟩
  obtain ⟨rfl, rfl⟩ | ⟨-, hb⟩ := getElem?_modify_cases ha hb
  · exact ⟨a, ha, hP.mp hPb⟩
  · exact ⟨b, hb, hPb⟩

end Modify

namespace Directory

/-! ## One thread -/

def Stands (names : List Names) (k : ℕ) (id : UInt32) (c : ℕ) : Prop :=
  ∃ n : Names, names[c]? = some n ∧ n.thread = k ∧ n.sessionId = id ∧ n.tornDown = 0

structure Local (names : List Names) (k : ℕ) (queue : List (UInt32 × ℕ))
    (commands : List (Command UInt32 ℕ)) : Prop where
  bound : ∀ id c, (id, c) ∈ Postbox.bound queue commands ↔ Stands names k id c
  sound : Postbox.Sound queue commands
  nodup : (queue.map Prod.fst).Nodup
  queued : ∀ id c, (id, c) ∈ queue → ∀ n : Names, names[c]? = some n → n.id = id
  waiting : ∀ id c, .bind id c ∈ commands → ∀ n : Names, names[c]? = some n → n.id = 0
  letters : ∀ id s, .letter id s ∈ commands →
    ∃ n : Names, names[s]? = some n ∧ n.thread = k ∧ (n.tornDown = 0 → n.sessionId = id)

structure Agree (k : ℕ) (names new : List Names) : Prop where
  forth : ∀ (c : ℕ) (n : Names), names[c]? = some n → n.thread = k →
    ∃ m : Names, new[c]? = some m ∧ m.thread = k ∧ m.id = n.id ∧
      m.tornDown = n.tornDown ∧ (n.tornDown = 0 → m.sessionId = n.sessionId)
  back : ∀ (c : ℕ) (m : Names), new[c]? = some m → m.thread = k →
    ∃ n : Names, names[c]? = some n ∧ n.thread = k

variable {names new : List Names} {k c : ℕ} {id : UInt32} {n : Names}
  {queue : List (UInt32 × ℕ)} {commands : List (Command UInt32 ℕ)}

theorem Agree.stands (h : Agree k names new) (id : UInt32) (c : ℕ) :
    Stands names k id c ↔ Stands new k id c := by
  constructor
  · rintro ⟨n, hn, hthread, rfl, htorn⟩
    obtain ⟨m, hm, hthread', -, htorn', hid⟩ := h.forth c n hn hthread
    exact ⟨m, hm, hthread', hid htorn, htorn'.trans htorn⟩
  · rintro ⟨m, hm, hthread, rfl, htorn⟩
    obtain ⟨n, hn, hthread'⟩ := h.back c m hm hthread
    obtain ⟨m', hm', -, -, htorn', hid⟩ := h.forth c n hn hthread'
    obtain rfl := Option.some.inj (hm.symm.trans hm')
    exact ⟨n, hn, hthread', (hid (htorn'.symm.trans htorn)).symm, htorn'.symm.trans htorn⟩

theorem Local.bound_bind (h : Local names k queue commands) (hmem : .bind id c ∈ commands) :
    Stands names k id c := by
  refine (h.bound id c).mp (List.mem_append_right _ ?_)
  exact List.mem_filterMap.mpr ⟨_, hmem, rfl⟩

theorem Local.agree (h : Local names k queue commands) (hagree : Agree k names new) :
    Local new k queue commands := by
  have hid : ∀ id c, Stands names k id c → ∀ m : Names, new[c]? = some m →
      ∃ n : Names, names[c]? = some n ∧ m.id = n.id := by
    rintro id c ⟨n, hn, hthread, -⟩ m hm
    obtain ⟨m', hm', -, hsame, -⟩ := hagree.forth c n hn hthread
    exact ⟨n, hn, Option.some.inj (hm.symm.trans hm') ▸ hsame⟩
  refine ⟨fun id c => ?_, h.sound, h.nodup, fun id c hmem m hm => ?_, fun id c hmem m hm => ?_,
    fun id s hmem => ?_⟩
  · rw [h.bound id c, hagree.stands id c]
  · obtain ⟨n, hn, hsame⟩ := hid id c ((h.bound id c).mp (List.mem_append_left _ hmem)) m hm
    rw [hsame, h.queued id c hmem n hn]
  · obtain ⟨n, hn, hsame⟩ := hid id c (h.bound_bind hmem) m hm
    rw [hsame, h.waiting id c hmem n hn]
  · obtain ⟨n, hn, hthread, hopen⟩ := h.letters id s hmem
    obtain ⟨m, hm, hthread', -, htorn, hsame⟩ := hagree.forth s n hn hthread
    refine ⟨m, hm, hthread', fun hzero => ?_⟩
    have hzero' : n.tornDown = 0 := htorn.symm.trans hzero
    rw [hsame hzero', hopen hzero']

/-! ## The names and the threads -/

structure Sound (d : Directory) : Prop where
  issued : d.manager.Issued
  known : ∀ id c, (id, c) ∈ d.manager.sessionHandlerMap ↔
    id ≠ 0 ∧ ∃ n : Names, d.names[c]? = some n ∧ n.sessionId = id
  standing : ∀ (c : ℕ) (n : Names), d.names[c]? = some n → n.tornDown = 0 → n.sessionId ≠ 0
  named : ∀ (c : ℕ) (n : Names), d.names[c]? = some n → n.id = 0 ∧ n.tornDown = 0 ∨
    n.id ≠ 0 ∧ (n.sessionId = 0 ∨ n.sessionId = n.id)
  threads : ∀ k, Local d.names k (d.queue k) (d.commands k)
  ended : d.ended.Nodup ∧ ∀ id ∈ d.ended, id ≠ 0 ∧
    ∃ (c : ℕ) (n : Names), d.names[c]? = some n ∧ n.sessionId = id ∧ n.tornDown ≠ 0
  closing : ∀ k, (d.closing k).Nodup ∧ ∀ c ∈ d.closing k, ∃ n : Names, d.names[c]? = some n ∧
    n.thread = k ∧ n.tornDown ≠ 0 ∧ n.sessionId ≠ 0 ∧ n.sessionId = n.id ∧ n.id ∉ d.ended

variable {d : Directory}

theorem Sound.unique (h : Sound d) {e : ℕ} {m : Names} (hn : d.names[c]? = some n)
    (hm : d.names[e]? = some m) (hsame : n.sessionId = m.sessionId) (hvalid : n.sessionId ≠ 0) :
    c = e := by
  have hc := (h.known n.sessionId c).mpr ⟨hvalid, n, hn, rfl⟩
  have he := (h.known n.sessionId e).mpr ⟨hvalid, m, hm, hsame.symm⟩
  have hkeys : (d.manager.sessionHandlerMap.map Prod.fst).Nodup := h.issued.nodup.of_append_right
  exact (Prod.mk.inj (List.inj_on_of_nodup_map hkeys hc he rfl)).2

theorem Sound.stands_of_queue (h : Sound d) (hmem : (id, c) ∈ d.queue k) : Stands d.names k id c :=
  ((h.threads k).bound id c).mp (List.mem_append_left _ hmem)

theorem Sound.threads_update (h : Sound d) (hagree : ∀ j, j ≠ k → Agree j d.names new)
    (hlocal : Local new k queue commands) (j : ℕ) :
    Local new j (Function.update d.queue k queue j) (Function.update d.commands k commands j) := by
  obtain rfl | hne := eq_or_ne j k
  · rw [Function.update_self, Function.update_self]
    exact hlocal
  · rw [Function.update_of_ne hne, Function.update_of_ne hne]
    exact (h.threads j).agree (hagree j hne)

theorem Sound.threads_commands (h : Sound d) (hlocal : Local d.names k (d.queue k) commands)
    (j : ℕ) : Local d.names j (d.queue j) (Function.update d.commands k commands j) := by
  obtain rfl | hne := eq_or_ne j k
  · rw [Function.update_self]
    exact hlocal
  · rw [Function.update_of_ne hne]
    exact h.threads j

theorem agree_modify {f : Names → Names} (hn : names[c]? = some n) (hother : n.thread ≠ k)
    (hkept : (f n).thread = n.thread) : Agree k names (names.modify c f) := by
  refine ⟨fun e m hm hthread => ⟨m, ?_, hthread, rfl, rfl, fun _ => rfl⟩, fun e m hm hthread => ?_⟩
  · have hne : e ≠ c := by
      rintro rfl
      obtain rfl := Option.some.inj (hn.symm.trans hm)
      exact hother hthread
    rw [List.getElem?_modify_ne f names hne.symm, hm]
  · obtain ⟨-, rfl⟩ | ⟨-, hm⟩ := getElem?_modify_cases hn hm
    · exact absurd (hkept.symm.trans hthread) hother
    · exact ⟨m, hm, hthread⟩

/-! ## Letters -/

def letter (d : Directory) (n : Names) (s : ℕ) : Directory :=
  { d with
    commands := Function.update d.commands n.thread
      (d.commands n.thread ++ [.letter n.sessionId s]) }

theorem Sound.letter (h : Sound d) (hn : d.names[c]? = some n) : Sound (d.letter n c) := by
  have hlocal := h.threads n.thread
  refine { issued := h.issued, known := h.known, standing := h.standing, named := h.named,
           ended := h.ended, closing := h.closing,
           threads := h.threads_commands ⟨fun id e => ?_, ?_, hlocal.nodup, hlocal.queued,
             fun id e hmem => ?_, fun id s hmem => ?_⟩ }
  · rw [Postbox.bound_concat, Command.binding?, Option.toList_none, List.append_nil]
    exact hlocal.bound id e
  · refine hlocal.sound.letter fun owner hmem => ?_
    obtain ⟨m, hm, -, hid, htorn⟩ := (hlocal.bound _ _).mp hmem
    exact h.unique hm hn hid (h.standing owner m hm htorn)
  · refine hlocal.waiting id e ?_
    simpa using hmem
  · rw [List.mem_append, List.mem_singleton] at hmem
    obtain hmem | heq := hmem
    · exact hlocal.letters id s hmem
    · cases heq
      exact ⟨n, hn, rfl, fun _ => rfl⟩

theorem Sound.popLetter {rest : List (Command UInt32 ℕ)} (h : Sound d)
    (hcommands : d.commands k = .letter id c :: rest) :
    Sound { d with commands := Function.update d.commands k rest } ∧
      (∀ e, (id, e) ∈ d.queue k → e = c) ∧
      (Stands d.names k id c → (id, c) ∈ d.queue k) := by
  have hlocal := h.threads k
  rw [hcommands] at hlocal
  refine ⟨{ issued := h.issued, known := h.known, standing := h.standing, named := h.named,
            ended := h.ended, closing := h.closing,
            threads := h.threads_commands ⟨hlocal.bound, hlocal.sound.2.2, hlocal.nodup,
              hlocal.queued, fun id e hmem => ?_, fun id s hmem => ?_⟩ }, hlocal.sound.1,
    fun hstands => ?_⟩
  · exact hlocal.waiting id e (List.mem_cons_of_mem _ hmem)
  · exact hlocal.letters id s (List.mem_cons_of_mem _ hmem)
  · exact hlocal.sound.finds ((hlocal.bound id c).mpr hstands)

/-! ## A session comes -/

def connect (d : Directory) (manager : TCPIOThreadManager ℕ) (thread : ℕ) (id : UInt32) :
    Directory :=
  { d with
    manager := manager
    names := d.names ++ [{ thread := thread, sessionId := id }]
    commands := Function.update d.commands thread
      (d.commands thread ++ [.bind id d.names.length]) }

theorem agree_concat (hother : n.thread ≠ k) : Agree k names (names ++ [n]) := by
  refine ⟨fun c m hm hthread => ⟨m, ?_, hthread, rfl, rfl, fun _ => rfl⟩, fun c m hm hthread => ?_⟩
  · exact getElem?_concat_iff.mpr (.inl hm)
  · obtain hm | ⟨-, rfl⟩ := getElem?_concat_iff.mp hm
    · exact ⟨m, hm, hthread⟩
    · exact absurd hthread hother

theorem Local.connect (hlocal : Local names k queue commands)
    (hnew : ∀ c, ¬ Stands names k id c) : Local (names ++ [{ thread := k, sessionId := id }]) k
      queue (commands ++ [.bind id names.length]) := by
  have hlast : ∀ {c : ℕ} {n : Names}, names[c]? = some n → c ≠ names.length := by
    rintro c n hn rfl
    simp at hn
  refine ⟨fun id' c => ?_, hlocal.sound.bind ?_ ?_, hlocal.nodup, fun id' c hmem n hn => ?_,
    fun id' c hmem n hn => ?_, fun id' s hmem => ?_⟩
  · rw [Postbox.bound_concat, List.mem_append, hlocal.bound]
    constructor
    · rintro (⟨n, hn, hrest⟩ | hmem)
      · exact ⟨n, getElem?_concat_iff.mpr (.inl hn), hrest⟩
      · obtain ⟨rfl, rfl⟩ : id' = id ∧ c = names.length := by simpa [Command.binding?] using hmem
        exact ⟨_, getElem?_concat_iff.mpr (.inr ⟨rfl, rfl⟩), rfl, rfl, rfl⟩
    · rintro ⟨n, hn, hthread, hid, htorn⟩
      obtain hn | ⟨rfl, rfl⟩ := getElem?_concat_iff.mp hn
      · exact .inl ⟨n, hn, hthread, hid, htorn⟩
      · right
        rw [← hid]
        exact List.mem_singleton.mpr rfl
  · intro hmem
    obtain ⟨⟨id', c⟩, hbound, rfl⟩ := List.mem_map.mp hmem
    exact hnew c ((hlocal.bound _ c).mp hbound)
  · intro command hmem hsender
    cases command with
    | bind name owner => cases hsender
    | letter name sender =>
      obtain ⟨n, hn, -⟩ := hlocal.letters name sender hmem
      exact hlast hn (Option.some.inj hsender)
  · obtain ⟨m, hm, -⟩ := (hlocal.bound id' c).mp (List.mem_append_left _ hmem)
    obtain hn | ⟨heq, -⟩ := getElem?_concat_iff.mp hn
    · exact hlocal.queued id' c hmem n hn
    · exact absurd heq (hlast hm)
  · obtain hn | ⟨rfl, rfl⟩ := getElem?_concat_iff.mp hn
    · rw [List.mem_append, List.mem_singleton] at hmem
      obtain hmem | heq := hmem
      · exact hlocal.waiting id' c hmem n hn
      · cases heq
        exact absurd rfl (hlast hn)
    · rfl
  · rw [List.mem_append, List.mem_singleton] at hmem
    obtain hmem | heq := hmem
    · obtain ⟨n, hn, hrest⟩ := hlocal.letters id' s hmem
      exact ⟨n, getElem?_concat_iff.mpr (.inl hn), hrest⟩
    · cases heq

theorem Sound.connect {manager : TCPIOThreadManager ℕ} (h : Sound d) (hissued : manager.Issued)
    (hvalid : id ≠ 0) (hnew : id ∉ d.manager.ids)
    (hmap : manager.sessionHandlerMap = d.manager.sessionHandlerMap ++ [(id, d.names.length)]) :
    Sound (d.connect manager k id) := by
  have hfresh : ∀ (c : ℕ) (n : Names), d.names[c]? = some n → n.sessionId ≠ id := by
    rintro c n hn rfl
    exact hnew (List.mem_map_of_mem ((h.known _ c).mpr ⟨hvalid, n, hn, rfl⟩))
  refine { issued := hissued, known := fun id' c => ?_, standing := fun c n hn htorn => ?_,
           named := fun c n hn => ?_, threads := fun j => ?_,
           ended := ⟨h.ended.1, fun id' hmem => ?_⟩,
           closing := fun j => ⟨(h.closing j).1, fun c hmem => ?_⟩ }
  · simp only [Directory.connect, hmap, List.mem_append, h.known, List.mem_singleton,
      Prod.mk.injEq]
    constructor
    · rintro (⟨hne, n, hn, hid⟩ | ⟨rfl, rfl⟩)
      · exact ⟨hne, n, getElem?_concat_iff.mpr (.inl hn), hid⟩
      · exact ⟨hvalid, _, getElem?_concat_iff.mpr (.inr ⟨rfl, rfl⟩), rfl⟩
    · rintro ⟨hne, n, hn, hid⟩
      obtain hn | ⟨rfl, rfl⟩ := getElem?_concat_iff.mp hn
      · exact .inl ⟨hne, n, hn, hid⟩
      · exact .inr ⟨hid.symm, rfl⟩
  · obtain hn | ⟨-, rfl⟩ := getElem?_concat_iff.mp hn
    · exact h.standing c n hn htorn
    · exact hvalid
  · obtain hn | ⟨-, rfl⟩ := getElem?_concat_iff.mp hn
    · exact h.named c n hn
    · exact .inl ⟨rfl, rfl⟩
  · have hnone : ∀ c, ¬ Stands d.names k id c := by
      intro c hstands
      obtain ⟨n, hn, -, hid, -⟩ := hstands
      exact hfresh c n hn hid
    have hlocal := (h.threads k).connect hnone
    obtain rfl | hne := eq_or_ne j k
    · simpa only [Directory.connect, Function.update_self] using hlocal
    · simp only [Directory.connect, Function.update_of_ne hne]
      exact (h.threads j).agree (agree_concat (Ne.symm hne))
  · obtain ⟨hne, c, n, hn, hrest⟩ := h.ended.2 id' hmem
    exact ⟨hne, c, n, getElem?_concat_iff.mpr (.inl hn), hrest⟩
  · obtain ⟨n, hn, hrest⟩ := (h.closing j).2 c hmem
    exact ⟨n, getElem?_concat_iff.mpr (.inl hn), hrest⟩

def bind (d : Directory) (k c : ℕ) (id : UInt32) (rest : List (Command UInt32 ℕ)) : Directory :=
  { d with
    names := d.names.modify c fun n => { n with id := id }
    queue := Function.update d.queue k (d.queue k ++ [(id, c)])
    commands := Function.update d.commands k rest }

theorem Sound.bind {rest : List (Command UInt32 ℕ)} (h : Sound d)
    (hcommands : d.commands k = .bind id c :: rest) :
    (id ∉ (d.queue k).map Prod.fst ∧ ∃ n : Names, d.names[c]? = some n ∧ n.id = 0) ∧
      Sound (d.bind k c id rest) := by
  have hlocal := h.threads k
  rw [hcommands] at hlocal
  obtain ⟨hfree, hsound⟩ := hlocal.sound
  obtain ⟨n, hn, hthread, hid, htorn⟩ := hlocal.bound_bind List.mem_cons_self
  have hzero : n.id = 0 := hlocal.waiting id c List.mem_cons_self n hn
  have hvalid : n.sessionId ≠ 0 := h.standing c n hn htorn
  refine ⟨⟨hfree, n, hn, hzero⟩, ?_⟩
  -- no other task of the thread binds the session again
  have honce : ∀ id' e, .bind id' e ∈ rest → e ≠ c := by
    rintro id' e hmem rfl
    obtain ⟨m, hm, -, hid', -⟩ := hlocal.bound_bind (List.mem_cons_of_mem _ hmem)
    obtain rfl := Option.some.inj (hn.symm.trans hm)
    have hthere : id' ∈ (d.queue k ++ [(id, e)]).map Prod.fst := by
      rw [← hid', hid, List.map_append]
      exact List.mem_append_right _ List.mem_cons_self
    exact hsound.not_bind hthere e hmem
  refine { issued := h.issued, known := fun id' e => ?_, standing := fun e m hm htorn' => ?_,
           named := fun e m hm => ?_, ended := ⟨h.ended.1, fun id' hmem => ?_⟩,
           closing := fun j => ⟨(h.closing j).1, fun e hmem => ?_⟩,
           threads := h.threads_update (fun j hne => agree_modify hn ?_ rfl)
             ⟨fun id' e => ?_, hsound, ?_, fun id' e hmem m hm => ?_, fun id' e hmem m hm => ?_,
               fun id' s hmem => ?_⟩ }
  · exact (h.known id' e).trans (and_congr_right fun _ => (exists_modify_iff hn Iff.rfl).symm)
  · obtain ⟨rfl, rfl⟩ | ⟨-, hm⟩ := getElem?_modify_cases hn hm
    · exact hvalid
    · exact h.standing e m hm htorn'
  · obtain ⟨rfl, rfl⟩ | ⟨-, hm⟩ := getElem?_modify_cases hn hm
    · exact .inr ⟨hid ▸ hvalid, .inr hid⟩
    · exact h.named e m hm
  · rw [hthread]
    exact hne.symm
  · rw [← Postbox.bound_bind, hlocal.bound]
    exact (exists_modify_iff hn Iff.rfl).symm
  · rw [List.map_append, List.nodup_append]
    refine ⟨hlocal.nodup, List.nodup_singleton _, fun a ha b hb => ?_⟩
    rintro rfl
    obtain rfl : a = id := List.mem_singleton.mp hb
    exact hfree ha
  · rw [List.mem_append, List.mem_singleton] at hmem
    obtain ⟨rfl, rfl⟩ | ⟨hne, hm⟩ := getElem?_modify_cases hn hm
    · obtain hmem | heq := hmem
      · obtain ⟨m, hm, -, hid', -⟩ := (hlocal.bound id' e).mp (List.mem_append_left _ hmem)
        obtain rfl := Option.some.inj (hn.symm.trans hm)
        rw [hlocal.queued id' e hmem n hn |>.symm.trans hzero] at hid'
        exact absurd hid' hvalid
      · exact (Prod.mk.inj heq).1.symm
    · obtain hmem | heq := hmem
      · exact hlocal.queued id' e hmem m hm
      · exact absurd (Prod.mk.inj heq).2 hne
  · obtain ⟨rfl, rfl⟩ | ⟨-, hm⟩ := getElem?_modify_cases hn hm
    · exact absurd rfl (honce id' e hmem)
    · exact hlocal.waiting id' e (List.mem_cons_of_mem _ hmem) m hm
  · exact (exists_modify_iff hn Iff.rfl).mpr (hlocal.letters id' s (List.mem_cons_of_mem _ hmem))
  · obtain ⟨hne, e, hthere⟩ := h.ended.2 id' hmem
    exact ⟨hne, e, (exists_modify_iff hn Iff.rfl).mpr hthere⟩
  · obtain ⟨m, hm, hthread', htorn', hrest⟩ := (h.closing j).2 e hmem
    have hne : e ≠ c := by
      rintro rfl
      obtain rfl := Option.some.inj (hn.symm.trans hm)
      exact htorn' htorn
    exact ⟨m, (List.getElem?_modify_ne _ _ hne.symm).trans hm, hthread', htorn', hrest⟩

/-! ## A session goes -/

def tear (d : Directory) (k c : ℕ) (id : UInt32) : Directory :=
  { d with
    names := d.names.modify c fun n => { n with tornDown := n.tornDown + 1 }
    queue := Function.update d.queue k ((d.queue k).filter (·.1 ≠ id))
    closing := Function.update d.closing k [c] }

theorem Sound.tear (h : Sound d) (hmem : (id, c) ∈ d.queue k) (hnone : d.closing k = []) :
    Sound (d.tear k c id) := by
  have hlocal := h.threads k
  obtain ⟨n, hn, hthread, hid, htorn⟩ := h.stands_of_queue hmem
  have hvalid : n.sessionId ≠ 0 := h.standing c n hn htorn
  have hown : n.id = id := hlocal.queued id c hmem n hn
  have hopen : ∀ id', id' ∈ d.ended → id' ≠ id := by
    rintro id' hended rfl
    obtain ⟨-, e, m, hm, hsame, htorn'⟩ := h.ended.2 id' hended
    obtain rfl := h.unique hn hm (hid.trans hsame.symm) hvalid
    obtain rfl := Option.some.inj (hn.symm.trans hm)
    exact htorn' htorn
  -- who is left does not have the id
  have hleft : ∀ id' e, Stands (d.names.modify c fun n => { n with tornDown := n.tornDown + 1 }) k
      id' e ↔ Stands d.names k id' e ∧ id' ≠ id := by
    intro id' e
    constructor
    · rintro ⟨m, hm, hthread', hid', htorn'⟩
      obtain ⟨rfl, rfl⟩ | ⟨hne, hm⟩ := getElem?_modify_cases hn hm
      · exact absurd htorn' (Nat.succ_ne_zero _)
      · refine ⟨⟨m, hm, hthread', hid', htorn'⟩, ?_⟩
        rintro rfl
        exact hne (h.unique hm hn (hid'.trans hid.symm) (h.standing e m hm htorn'))
    · rintro ⟨⟨m, hm, hthread', hid', htorn'⟩, hne⟩
      have hother : e ≠ c := by
        rintro rfl
        obtain rfl := Option.some.inj (hn.symm.trans hm)
        exact hne (hid'.symm.trans hid)
      exact ⟨m, (List.getElem?_modify_ne _ _ hother.symm).trans hm, hthread', hid', htorn'⟩
  have hfilter : ((d.queue k).filter (·.1 ≠ id)).Sublist (d.queue k) := List.filter_sublist
  have hrest : Local (d.names.modify c fun n => { n with tornDown := n.tornDown + 1 }) k
      ((d.queue k).filter (·.1 ≠ id)) (d.commands k) := by
    refine ⟨fun id' e => ?_, hlocal.sound.sublist hfilter, hlocal.nodup.sublist (hfilter.map _),
      fun id' e hold m hm => ?_, fun id' e hbind m hm => ?_, fun id' s hletter => ?_⟩
    · rw [hleft, ← hlocal.bound]
      unfold Postbox.bound
      rw [List.mem_append, List.mem_append, List.mem_filter, or_and_right]
      refine or_congr (by simp) ⟨fun hbind => ⟨hbind, ?_⟩, And.left⟩
      rintro rfl
      obtain ⟨command, hcommand, hbinding⟩ := List.mem_filterMap.mp hbind
      cases command with
      | letter name sender => cases hbinding
      | bind name owner =>
        obtain ⟨rfl, rfl⟩ := Prod.mk.inj (Option.some.inj hbinding)
        exact hlocal.sound.not_bind (List.mem_map_of_mem hmem) owner hcommand
    · have hold := (List.mem_filter.mp hold).1
      obtain ⟨rfl, rfl⟩ | ⟨-, hm⟩ := getElem?_modify_cases hn hm
      · exact hlocal.queued id' e hold n hn
      · exact hlocal.queued id' e hold m hm
    · obtain ⟨rfl, rfl⟩ | ⟨-, hm⟩ := getElem?_modify_cases hn hm
      · exact hlocal.waiting id' e hbind n hn
      · exact hlocal.waiting id' e hbind m hm
    · refine exists_modify hn (fun hP => ⟨hP.1, fun hzero => ?_⟩) (hlocal.letters id' s hletter)
      exact absurd hzero (Nat.succ_ne_zero _)
  have hthreads := h.threads_update (fun j hne => agree_modify hn (hthread ▸ hne.symm) rfl) hrest
  rw [Function.update_eq_self] at hthreads
  refine { issued := h.issued, known := fun id' e => ?_, standing := fun e m hm htorn' => ?_,
           named := fun e m hm => ?_, ended := ⟨h.ended.1, fun id' hended => ?_⟩,
           closing := fun j => ?_, threads := hthreads }
  · exact (h.known id' e).trans (and_congr_right fun _ => (exists_modify_iff hn Iff.rfl).symm)
  · obtain ⟨rfl, rfl⟩ | ⟨-, hm⟩ := getElem?_modify_cases hn hm
    · exact hvalid
    · exact h.standing e m hm htorn'
  · obtain ⟨rfl, rfl⟩ | ⟨-, hm⟩ := getElem?_modify_cases hn hm
    · exact .inr ⟨hown.trans hid.symm ▸ hvalid, .inr (hid.trans hown.symm)⟩
    · exact h.named e m hm
  · obtain ⟨hne, e, hthere⟩ := h.ended.2 id' hended
    exact ⟨hne, e, exists_modify hn (fun hP => ⟨hP.1, Nat.succ_ne_zero _⟩) hthere⟩
  · obtain rfl | hne := eq_or_ne j k
    · simp only [Directory.tear, Function.update_self]
      refine ⟨List.nodup_singleton c, fun e he => ?_⟩
      obtain rfl := List.mem_singleton.mp he
      refine ⟨_, getElem?_modify_self hn, hthread, Nat.succ_ne_zero _, hvalid, ?_, fun hended => ?_⟩
      · exact hid.trans hown.symm
      · exact hopen _ hended hown
    · simp only [Directory.tear, Function.update_of_ne hne]
      refine ⟨(h.closing j).1, fun e he => ?_⟩
      obtain ⟨m, hm, hthread', hrest⟩ := (h.closing j).2 e he
      have hother : e ≠ c := by
        rintro rfl
        obtain rfl := Option.some.inj (hn.symm.trans hm)
        exact hne (hthread'.symm.trans hthread)
      exact ⟨m, (List.getElem?_modify_ne _ _ hother.symm).trans hm, hthread', hrest⟩

def report (d : Directory) (k : ℕ) (id : UInt32) (rest : List ℕ) : Directory :=
  { d with closing := Function.update d.closing k rest, ended := d.ended ++ [id] }

theorem Sound.report {rest : List ℕ} (h : Sound d) (hclosing : d.closing k = c :: rest) :
    ∃ n : Names, d.names[c]? = some n ∧ Sound (d.report k n.id rest) := by
  have hk := h.closing k
  rw [hclosing] at hk
  obtain ⟨hnodup, hall⟩ := hk
  obtain ⟨n, hn, hthread, htorn, hvalid, hsame, hnew⟩ := hall c List.mem_cons_self
  refine ⟨n, hn, { issued := h.issued, known := h.known, standing := h.standing, named := h.named,
                   threads := h.threads, ended := ⟨?_, fun id hmem => ?_⟩, closing := fun j => ?_ }⟩
  · refine List.nodup_append.mpr ⟨h.ended.1, List.nodup_singleton _, fun a ha b hb => ?_⟩
    rintro rfl
    obtain rfl : a = n.id := List.mem_singleton.mp hb
    exact hnew ha
  · rw [Directory.report, List.mem_append, List.mem_singleton] at hmem
    obtain hmem | rfl := hmem
    · exact h.ended.2 id hmem
    · exact ⟨hsame ▸ hvalid, c, n, hn, hsame, htorn⟩
  -- the others that go have other ids
  have hothers : ∀ e (m : Names), d.names[e]? = some m → e ≠ c → m.sessionId ≠ 0 →
      m.sessionId = m.id → m.id ∉ d.ended → m.id ∉ d.ended ++ [n.id] := by
    intro e m hm hne hvalid' hsame' hnot hmem
    rw [List.mem_append, List.mem_singleton] at hmem
    obtain hmem | heq := hmem
    · exact hnot hmem
    · exact hne (h.unique hm hn (hsame'.trans (heq.trans hsame.symm)) hvalid')
  obtain rfl | hne := eq_or_ne j k
  · simp only [Directory.report, Function.update_self]
    refine ⟨hnodup.of_cons, fun e he => ?_⟩
    obtain ⟨m, hm, hthread', htorn', hvalid', hsame', hnot⟩ := hall e (List.mem_cons_of_mem _ he)
    have hother : e ≠ c := fun heq => (List.nodup_cons.mp hnodup).1 (heq ▸ he)
    exact ⟨m, hm, hthread', htorn', hvalid', hsame', hothers e m hm hother hvalid' hsame' hnot⟩
  · simp only [Directory.report, Function.update_of_ne hne]
    refine ⟨(h.closing j).1, fun e he => ?_⟩
    obtain ⟨m, hm, hthread', htorn', hvalid', hsame', hnot⟩ := (h.closing j).2 e he
    have hother : e ≠ c := by
      rintro rfl
      obtain rfl := Option.some.inj (hn.symm.trans hm)
      exact hne (hthread'.symm.trans hthread)
    exact ⟨m, hm, hthread', htorn', hvalid', hsame', hothers e m hm hother hvalid' hsame' hnot⟩

def release (d : Directory) (manager : TCPIOThreadManager ℕ) (h : ℕ) (rest : List UInt32) :
    Directory :=
  { d with
    manager := manager
    names := d.names.modify h fun n => { n with sessionId := kInvalidTCPSessionId }
    ended := rest }

theorem mem_eraseP_key {H : Type} {l : List (UInt32 × H)} (hnodup : (l.map Prod.fst).Nodup)
    (id : UInt32) (p : UInt32 × H) : p ∈ l.eraseP (·.1 = id) ↔ p ∈ l ∧ p.1 ≠ id := by
  induction l with
  | nil => simp
  | cons q l ih =>
    obtain ⟨hq, hl⟩ := List.nodup_cons.mp hnodup
    by_cases hkey : q.1 = id
    · rw [List.eraseP_cons_of_pos (by simpa using hkey), List.mem_cons]
      refine ⟨fun hp => ⟨.inr hp, ?_⟩, fun hp => ?_⟩
      · rintro rfl
        exact hq (hkey ▸ List.mem_map_of_mem hp)
      · exact hp.1.resolve_left fun heq => hp.2 (heq ▸ hkey)
    · rw [List.eraseP_cons_of_neg (by simpa using hkey), List.mem_cons, List.mem_cons, ih hl,
        or_and_right]
      refine or_congr ⟨fun heq => ⟨heq, heq ▸ hkey⟩, And.left⟩ Iff.rfl

theorem Sound.release {rest : List UInt32} (h : Sound d) (hended : d.ended = id :: rest) :
    ∃ manager e, d.manager.onSessionClose id = some manager ∧
      (id, e) ∈ d.manager.sessionHandlerMap ∧
      manager.sessionIdGenerator = d.manager.sessionIdGenerator.put id ∧
      Sound (d.release manager e rest) := by
  obtain ⟨hnodup, hall⟩ := h.ended
  rw [hended] at hnodup hall
  obtain ⟨hvalid, e, n, hn, rfl, htorn⟩ := hall id List.mem_cons_self
  have hmap := (h.known n.sessionId e).mpr ⟨hvalid, n, hn, rfl⟩
  have hids : n.sessionId ∈ d.manager.ids := List.mem_map_of_mem hmap
  have hclose : d.manager.onSessionClose n.sessionId = some
      { sessionIdGenerator := d.manager.sessionIdGenerator.put n.sessionId
        sessionHandlerMap := d.manager.sessionHandlerMap.eraseP (·.1 = n.sessionId) } := by
    unfold TCPIOThreadManager.onSessionClose
    exact (if_neg hvalid).trans (if_pos hids)
  have hkeys : (d.manager.sessionHandlerMap.map Prod.fst).Nodup := h.issued.nodup.of_append_right
  have hagree : ∀ k, Agree k d.names
      (d.names.modify e fun n => { n with sessionId := kInvalidTCPSessionId }) := by
    intro k
    refine ⟨fun c m hm hthread => ?_, fun c m hm hthread => ?_⟩
    · obtain rfl | hne := eq_or_ne c e
      · obtain rfl := Option.some.inj (hn.symm.trans hm)
        exact ⟨_, getElem?_modify_self hn, hthread, rfl, rfl, fun hzero => absurd hzero htorn⟩
      · exact ⟨m, (List.getElem?_modify_ne _ _ hne.symm).trans hm, hthread, rfl, rfl, fun _ => rfl⟩
    · obtain ⟨rfl, rfl⟩ | ⟨-, hm⟩ := getElem?_modify_cases hn hm
      · exact ⟨n, hn, hthread⟩
      · exact ⟨m, hm, hthread⟩
  refine ⟨_, e, hclose, hmap, rfl, {
    issued := h.issued.onSessionClose hclose, known := fun id c => ?_,
    standing := fun c m hm htorn' => ?_, named := fun c m hm => ?_,
    threads := fun k => (h.threads k).agree (hagree k),
    ended := ⟨(List.nodup_cons.mp hnodup).2, fun id hmem => ?_⟩,
    closing := fun k => ⟨(h.closing k).1, fun c hmem => ?_⟩ }⟩
  · refine (mem_eraseP_key hkeys n.sessionId (id, c)).trans ?_
    rw [h.known]
    constructor
    · rintro ⟨⟨hne, m, hm, hid⟩, hother⟩
      have hce : c ≠ e := by
        rintro rfl
        obtain rfl := Option.some.inj (hn.symm.trans hm)
        exact hother hid.symm
      exact ⟨hne, m, (List.getElem?_modify_ne _ _ hce.symm).trans hm, hid⟩
    · rintro ⟨hne, m, hm, hid⟩
      obtain ⟨rfl, rfl⟩ | ⟨hce, hm⟩ := getElem?_modify_cases hn hm
      · exact absurd hid.symm hne
      · refine ⟨⟨hne, m, hm, hid⟩, fun hsame => hce ?_⟩
        exact h.unique hm hn (hid.trans hsame) (hid.symm ▸ hne)
  · obtain ⟨rfl, rfl⟩ | ⟨-, hm⟩ := getElem?_modify_cases hn hm
    · exact absurd htorn' htorn
    · exact h.standing c m hm htorn'
  · obtain ⟨rfl, rfl⟩ | ⟨-, hm⟩ := getElem?_modify_cases hn hm
    · obtain ⟨-, hzero⟩ | ⟨hid, -⟩ := h.named c n hn
      · exact absurd hzero htorn
      · exact .inr ⟨hid, .inl rfl⟩
    · exact h.named c m hm
  · obtain ⟨hne, c, m, hm, hid, htorn'⟩ := hall id (List.mem_cons_of_mem _ hmem)
    have hce : c ≠ e := by
      rintro rfl
      obtain rfl := Option.some.inj (hn.symm.trans hm)
      exact (List.nodup_cons.mp hnodup).1 (hid ▸ hmem)
    exact ⟨hne, c, m, (List.getElem?_modify_ne _ _ hce.symm).trans hm, hid, htorn'⟩
  · obtain ⟨m, hm, hthread, htorn', hvalid', hsame, hnot⟩ := (h.closing k).2 c hmem
    rw [hended] at hnot
    have hce : c ≠ e := by
      rintro rfl
      obtain rfl := Option.some.inj (hn.symm.trans hm)
      exact hnot (hsame ▸ List.mem_cons_self)
    refine ⟨m, (List.getElem?_modify_ne _ _ hce.symm).trans hm, hthread, htorn', hvalid', hsame, ?_⟩
    exact fun hrest => hnot (List.mem_cons_of_mem _ hrest)

end Directory

end IceBridge.Gateway
