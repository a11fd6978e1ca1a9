import IceBridge.Lib.Chunks
import Mathlib.Data.Rat.Init

/-! The tables of soldiers, buildings and skills (`mysql_game_configbuff.cpp`). A row of the
database is entered under its type and level, and put into a packet for the clients, of which each
has room for 6500 bytes of rows. -/

namespace IceBridge.Gateway

structure ArmsResponse where
  type : Int := 0
  level : Int := 0
  hp : Int := 0
  defense : Int := 0
  attack : Int := 0
  moveSpeed : ℚ := 0
  fireRate : ℚ := 0
  needWood : Int := 0
  needStone : Int := 0
  needIron : Int := 0
  needSoil : Int := 0
  population : Int := 0
  buildTime : Int := 0
  available : Int := 0
  magicSkill : String := ""
  name : String := ""
  attackType : Int := 0
  attackRange : ℚ := 0
  keepTime : ℚ := 0
  defenseType : Int := 0

structure BuildResponse where
  name : String := ""
  bigType : Int := 0
  type : Int := 0
  level : Int := 0
  needWood : Int := 0
  needStone : Int := 0
  needIron : Int := 0
  needSoil : Int := 0
  needDiamond : Int := 0
  buildTime : Int := 0
  output : Int := 0
  space : Int := 0
  maxHp : Int := 0
  attack : Int := 0
  defense : Int := 0
  fireRate : ℚ := 0
  attackSpeed : ℚ := 0
  attackEffect : String := ""
  buildDescribe : String := ""

structure SkillData where
  name : String := ""
  level : Int := 0
  type : Int := 0
  attackType : Int := 0
  value : Int := 0
  range : ℚ := 0
  keepTime : ℚ := 0
  coldTime : ℚ := 0
  needMp : Int := 0
  magicUnionLevel : Int := 0
  needSoil : Int := 0

structure ListResponse (R : Type) where
  flags : UInt8 := 0
  list : List R := []

/-- What the three readers differ in: the fields of a row, the empty row, and the size that
`msgpack::pack` gives a row. -/
structure RowFormat (R : Type) where
  type : R → Int
  level : R → Int
  newRow : R
  packed : R → ℕ

structure Reading (R : Type) where
  table : List (List R)
  size : ℕ := 0
  list : ListResponse R := {}
  buffer : List (ListResponse R) := []

namespace RowFormat
variable {R : Type} (format : RowFormat R)

/-- The levels up to that of the row are made first; there is none below 0. -/
def enter (table : List (List R)) (row : R) : Option (List (List R)) :=
  let level := format.level row
  if level < 0 then none
  else some (table.modify (format.type row).toNat fun levels =>
    (levels ++ List.replicate (level.toNat + 1 - levels.length) format.newRow).set level.toNat row)

def readRow (r : Reading R) (row : R) : Option (Reading R) :=
  if format.type row < r.table.length ∧ 0 < format.type row then do
    let table ← format.enter r.table row
    let size := r.size + format.packed row
    if 6500 < size then
      some {
        table
        size := format.packed row
        list := { flags := 1, list := [row] }
        buffer := r.buffer ++ [r.list] }
    else some { r with table, size, list := { r.list with list := r.list.list ++ [row] } }
  else some r

def lastPacket (r : Reading R) : List (ListResponse R) :=
  if r.list.list.length ≠ 0 then
    r.buffer ++ [{ r.list with flags := if r.list.flags = 0 then 3 else 2 }]
  else r.buffer

/-- The table and the packets. `maxType` is what `select max(type)` returns, if it returns a row. -/
def readData (maxType : Option Int) (rows : List R) (buffer : List (ListResponse R)) :
    Option (List (List R) × List (ListResponse R)) :=
  match maxType with
  | none => some ([], buffer)
  | some maxType => do
    let r ← rows.foldlM format.readRow { table := List.replicate (maxType + 1).toNat [] }
    some (r.table, lastPacket r)

end RowFormat

def armsFormat (packed : ArmsResponse → ℕ) : RowFormat ArmsResponse where
  type := ArmsResponse.type
  level := ArmsResponse.level
  newRow := {}
  packed := packed

def buildFormat (packed : BuildResponse → ℕ) : RowFormat BuildResponse where
  type := BuildResponse.type
  level := BuildResponse.level
  newRow := {}
  packed := packed

def skillFormat (packed : SkillData → ℕ) : RowFormat SkillData where
  type := SkillData.type
  level := SkillData.level
  newRow := {}
  packed := packed

def readArmsData (packed : ArmsResponse → ℕ) (maxType : Option Int) (rows : List ArmsResponse)
    (armsListBuffer : List (ListResponse ArmsResponse)) :
    Option (List (List ArmsResponse) × List (ListResponse ArmsResponse)) :=
  (armsFormat packed).readData maxType rows armsListBuffer

def readBuildData (packed : BuildResponse → ℕ) (maxType : Option Int) (rows : List BuildResponse)
    (buildListBuffer : List (ListResponse BuildResponse)) :
    Option (List (List BuildResponse) × List (ListResponse BuildResponse)) :=
  (buildFormat packed).readData maxType rows buildListBuffer

def readSkillConfig (packed : SkillData → ℕ) (maxType : Option Int) (rows : List SkillData)
    (skillConfigBuffer : List (ListResponse SkillData)) :
    Option (List (List SkillData) × List (ListResponse SkillData)) :=
  (skillFormat packed).readData maxType rows skillConfigBuffer

/-! ## The rows -/

namespace RowFormat
variable {R : Type} {format : RowFormat R} {maxType : Int}

def Valid (format : RowFormat R) (maxType : Int) (row : R) : Prop :=
  0 < format.type row ∧ format.type row ≤ maxType

instance (row : R) : Decidable (format.Valid maxType row) := inferInstanceAs (Decidable (_ ∧ _))

def validRows (format : RowFormat R) (maxType : Int) (rows : List R) : List R :=
  rows.filter fun row => format.Valid maxType row

structure InPackets (format : RowFormat R) (maxType : Int) (rows : List R)
    (packets : List (ListResponse R)) : Prop where
  contents : packets.flatMap ListResponse.list = format.validRows maxType rows
  nonempty : ∀ p ∈ packets, p.list ≠ []
  fits : ∀ p ∈ packets, (p.list.map format.packed).sum ≤ 6500
  flags : format.validRows maxType rows ≠ [] → packets.map ListResponse.flags = [3] ∨
    ∃ n, packets.map ListResponse.flags = 0 :: (List.replicate n 1 ++ [2])

structure Simulates (r : Reading R) (s : Chunks.State R) : Prop where
  size : r.size = s.size
  list : r.list.list = s.current
  done : r.buffer.map ListResponse.list = s.done
  flags : r.buffer.map ListResponse.flags = Chunks.openMarks 0 1 s.done.length
  flag : r.list.flags = if s.done.length = 0 then 0 else 1

theorem length_enter {table table' : List (List R)} {row : R}
    (h : format.enter table row = some table') : table'.length = table.length := by
  unfold enter at h
  dsimp only at h
  split_ifs at h
  exact Option.some.inj h ▸ List.length_modify ..

theorem enter_isSome {table : List (List R)} {row : R} (h : 0 ≤ format.level row) :
    ∃ table', format.enter table row = some table' :=
  ⟨_, if_neg (by omega)⟩

theorem readRow_of_valid {r : Reading R} {s : Chunks.State R} {row : R}
    (hlength : r.table.length = (maxType + 1).toNat) (hvalid : format.Valid maxType row)
    (hlevel : 0 ≤ format.level row) (h : Simulates r s) :
    ∃ r', format.readRow r row = some r' ∧ r'.table.length = (maxType + 1).toNat ∧
      Simulates r' (Chunks.push format.packed 6500 s row) := by
  obtain ⟨hpos, hmax⟩ := hvalid
  obtain ⟨table', htable⟩ := @enter_isSome R format r.table row hlevel
  have hlength' := length_enter htable
  unfold readRow Chunks.push
  rw [if_pos ⟨by omega, hpos⟩, htable, ← h.size]
  dsimp only [Option.bind_eq_bind, Option.bind_some]
  split_ifs
  · refine ⟨_, rfl, hlength'.trans hlength, rfl, rfl, ?_, ?_, ?_⟩
    · rw [List.map_append, h.done, ← h.list]
      rfl
    · rw [List.map_append, h.flags, List.length_append, List.length_singleton,
        Chunks.openMarks_succ, ← h.flag]
      rfl
    · rw [List.length_append, List.length_singleton, if_neg (Nat.succ_ne_zero _)]
  · refine ⟨_, rfl, hlength'.trans hlength, rfl, ?_, h.done, h.flags, h.flag⟩
    rw [h.list]

theorem readRow_of_invalid {r : Reading R} {row : R}
    (hlength : r.table.length = (maxType + 1).toNat) (hvalid : ¬ format.Valid maxType row) :
    format.readRow r row = some r := by
  unfold readRow
  rw [if_neg]
  rintro ⟨hlt, hpos⟩
  exact hvalid ⟨hpos, by omega⟩

theorem foldlM_readRow {r : Reading R} {s : Chunks.State R} {rows : List R}
    (hlength : r.table.length = (maxType + 1).toNat)
    (hlevel : ∀ row ∈ rows, format.Valid maxType row → 0 ≤ format.level row)
    (h : Simulates r s) :
    ∃ r', rows.foldlM format.readRow r = some r' ∧
      Simulates r' ((format.validRows maxType rows).foldl (Chunks.push format.packed 6500) s) := by
  induction rows generalizing r s with
  | nil => exact ⟨r, rfl, h⟩
  | cons row rows ih =>
    have hrest : ∀ row' ∈ rows, format.Valid maxType row' → 0 ≤ format.level row' :=
      fun row' hrow' => hlevel row' (List.mem_cons_of_mem row hrow')
    rw [List.foldlM_cons, validRows]
    by_cases hvalid : format.Valid maxType row
    · obtain ⟨r', hread, hlength', h'⟩ :=
        readRow_of_valid hlength hvalid (hlevel row List.mem_cons_self hvalid) h
      rw [hread, List.filter_cons_of_pos (by simpa using hvalid)]
      exact ih hlength' hrest h'
    · rw [readRow_of_invalid hlength hvalid, List.filter_cons_of_neg (by simpa using hvalid)]
      exact ih hlength hrest h

def levels (table : List (List R)) (type : ℕ) : List R := (table[type]?).getD []

theorem lt_length_levels_enter {table table' : List (List R)} {row : R}
    (h : format.enter table row = some table') (hlt : (format.type row).toNat < table.length)
    (type n : ℕ) : n < (levels table' type).length ↔ n < (levels table type).length ∨
      (format.type row).toNat = type ∧ (n : Int) ≤ format.level row := by
  unfold enter at h
  dsimp only at h
  split_ifs at h with hneg
  obtain rfl := Option.some.inj h
  unfold levels
  rw [List.getElem?_modify]
  by_cases htype : (format.type row).toNat = type
  · subst htype
    simp only [if_true, List.getElem?_eq_getElem hlt, Option.map_eq_map, Option.map_some,
      Option.getD_some, List.length_set, List.length_append, List.length_replicate, true_and]
    generalize table[(format.type row).toNat].length = size
    omega
  · simp only [if_neg htype, Option.map_eq_map, Option.map_id']
    exact (or_iff_left fun hrow => htype hrow.1).symm

theorem lt_length_levels_readRow {r r' : Reading R} {row : R}
    (hlength : r.table.length = (maxType + 1).toNat) (hread : format.readRow r row = some r') :
    r'.table.length = (maxType + 1).toNat ∧
      ∀ type n, n < (levels r'.table type).length ↔ n < (levels r.table type).length ∨
        format.Valid maxType row ∧ (format.type row).toNat = type ∧
          (n : Int) ≤ format.level row := by
  by_cases hvalid : format.Valid maxType row
  · have hlt : format.type row < r.table.length := by
      have hmax := hvalid.2
      omega
    have hpos := hvalid.1
    unfold readRow at hread
    rw [if_pos ⟨hlt, hpos⟩] at hread
    obtain ⟨table, htable, hread⟩ := Option.bind_eq_some_iff.mp hread
    have hsame : r'.table = table := by
      dsimp only at hread
      split_ifs at hread <;> exact Option.some.inj hread ▸ rfl
    rw [hsame]
    refine ⟨(length_enter htable).trans hlength, fun type n => ?_⟩
    rw [lt_length_levels_enter htable (by omega), and_iff_right hvalid]
  · rw [readRow_of_invalid hlength hvalid] at hread
    obtain rfl := Option.some.inj hread
    exact ⟨hlength, fun type n => (or_iff_left fun hrow => hvalid hrow.1).symm⟩

theorem lt_length_levels_foldlM {r r' : Reading R} {rows : List R}
    (hlength : r.table.length = (maxType + 1).toNat)
    (hread : rows.foldlM format.readRow r = some r') (type n : ℕ) :
    n < (levels r'.table type).length ↔ n < (levels r.table type).length ∨
      ∃ row ∈ rows, format.Valid maxType row ∧ (format.type row).toNat = type ∧
        (n : Int) ≤ format.level row := by
  induction rows generalizing r with
  | nil =>
    obtain rfl := Option.some.inj hread
    exact (or_iff_left fun ⟨_, hrow, _⟩ => absurd hrow List.not_mem_nil).symm
  | cons row rows ih =>
    rw [List.foldlM_cons] at hread
    obtain ⟨u, hu, hread⟩ := Option.bind_eq_some_iff.mp hread
    obtain ⟨hlength', hlevels⟩ := lt_length_levels_readRow hlength hu
    rw [ih hlength' hread, hlevels, or_assoc, List.exists_mem_cons_iff]

theorem lt_length_levels_readData {rows : List R} {buffer packets : List (ListResponse R)}
    {table : List (List R)}
    (hread : format.readData (some maxType) rows buffer = some (table, packets)) (type n : ℕ) :
    n < (levels table type).length ↔
      ∃ row ∈ rows, format.Valid maxType row ∧ (format.type row).toNat = type ∧
        (n : Int) ≤ format.level row := by
  obtain ⟨r, hr, hread⟩ := Option.bind_eq_some_iff.mp hread
  obtain ⟨rfl, -⟩ := Prod.mk.inj (Option.some.inj hread)
  have hempty : (levels (List.replicate (maxType + 1).toNat ([] : List R)) type).length = 0 := by
    unfold levels
    rw [List.getElem?_replicate]
    split_ifs <;> rfl
  rw [lt_length_levels_foldlM List.length_replicate hr, hempty, or_iff_right (Nat.not_lt_zero n)]

theorem list_lastPacket {r : Reading R} {s : Chunks.State R} (h : Simulates r s) :
    (lastPacket r).map ListResponse.list = Chunks.close s := by
  have hempty : r.list.list.length ≠ 0 ↔ s.current ≠ [] := by
    rw [h.list, Ne, List.length_eq_zero_iff]
  unfold lastPacket Chunks.close
  by_cases hnil : s.current = []
  · rw [if_neg fun hlength => hempty.mp hlength hnil, if_pos hnil, h.done]
  · rw [if_pos (hempty.mpr hnil), if_neg hnil, List.map_append, h.done, ← h.list]
    rfl

theorem flags_lastPacket {r : Reading R} {s : Chunks.State R} (h : Simulates r s)
    (hne : s.current ≠ []) : (lastPacket r).map ListResponse.flags = [3] ∨
      ∃ n, (lastPacket r).map ListResponse.flags = 0 :: (List.replicate n 1 ++ [2]) := by
  have hlength : r.list.list.length ≠ 0 := by
    rw [h.list]
    exact fun hzero => hne (List.length_eq_zero_iff.mp hzero)
  have hflag := h.flag
  unfold lastPacket
  rw [if_pos hlength, List.map_append, h.flags]
  cases hdone : s.done.length with
  | zero =>
    rw [hdone, if_pos rfl] at hflag
    refine .inl ?_
    rw [hflag]
    rfl
  | succ n =>
    rw [hdone, if_neg (Nat.succ_ne_zero n)] at hflag
    refine .inr ⟨n, ?_⟩
    rw [hflag]
    rfl

theorem readData_inPackets {rows : List R} (hpacked : ∀ row ∈ rows, format.packed row ≤ 6500)
    (hlevel : ∀ row ∈ rows, format.Valid maxType row → 0 ≤ format.level row)
    (buffer : List (ListResponse R)) :
    ∃ table packets, format.readData (some maxType) rows buffer = some (table, packets) ∧
      format.InPackets maxType rows packets := by
  have hstart : Simulates (⟨List.replicate (maxType + 1).toNat [], 0, {}, []⟩ : Reading R) {} :=
    ⟨rfl, rfl, rfl, rfl, rfl⟩
  obtain ⟨r, hread, hsim⟩ := foldlM_readRow List.length_replicate hlevel hstart
  have hfilled := Chunks.filled_nil.foldl (l := format.validRows maxType rows)
    fun row hrow => hpacked row (List.mem_of_mem_filter hrow)
  rw [List.nil_append] at hfilled
  obtain ⟨hflatten, hchunks⟩ := hfilled.close
  rw [← list_lastPacket hsim] at hflatten hchunks
  refine ⟨r.table, lastPacket r, ?_, hflatten, fun p hp => ?_, fun p hp => ?_, fun hne => ?_⟩
  · simp only [readData, hread, Option.bind_eq_bind, Option.bind_some]
  · exact (hchunks p.list (List.mem_map_of_mem hp)).1
  · exact (hchunks p.list (List.mem_map_of_mem hp)).2
  · exact flags_lastPacket hsim fun hnil => hne (hfilled.start hnil)

end RowFormat

/-! ## The three readers -/

def RowFormat.LevelsIn {R : Type} (format : RowFormat R) (maxType : Int) (rows : List R) : Prop :=
  ∀ row ∈ rows, format.Valid maxType row → 0 ≤ format.level row

theorem read_in_packets (maxType : Int) :
    (∀ packed rows armsListBuffer, (∀ row ∈ rows, packed row ≤ 6500) →
      (armsFormat packed).LevelsIn maxType rows →
      ∃ table packets, readArmsData packed (some maxType) rows armsListBuffer =
        some (table, packets) ∧ (armsFormat packed).InPackets maxType rows packets) ∧
    (∀ packed rows buildListBuffer, (∀ row ∈ rows, packed row ≤ 6500) →
      (buildFormat packed).LevelsIn maxType rows →
      ∃ table packets, readBuildData packed (some maxType) rows buildListBuffer =
        some (table, packets) ∧ (buildFormat packed).InPackets maxType rows packets) ∧
    (∀ packed rows skillConfigBuffer, (∀ row ∈ rows, packed row ≤ 6500) →
      (skillFormat packed).LevelsIn maxType rows →
      ∃ table packets, readSkillConfig packed (some maxType) rows skillConfigBuffer =
        some (table, packets) ∧ (skillFormat packed).InPackets maxType rows packets) :=
  ⟨fun _ _ buffer hpacked hlevel => RowFormat.readData_inPackets hpacked hlevel buffer,
    fun _ _ buffer hpacked hlevel => RowFormat.readData_inPackets hpacked hlevel buffer,
    fun _ _ buffer hpacked hlevel => RowFormat.readData_inPackets hpacked hlevel buffer⟩

theorem read_in_packets_two :
    (∃ table packets, readArmsData (fun _ => 4000) (some 2)
        [{ type := 1, level := 1 }, { type := 3, level := -1 }, { type := 2, level := 4 }] [] =
      some (table, packets) ∧
      (armsFormat fun _ => 4000).InPackets 2
        [{ type := 1, level := 1 }, { type := 3, level := -1 }, { type := 2, level := 4 }]
        packets) ∧
    (∃ table packets, readBuildData (fun _ => 6500) (some 1)
        [{ type := 1, level := 1 }, { type := 1, level := 2 }] [] = some (table, packets) ∧
      (buildFormat fun _ => 6500).InPackets 1
        [{ type := 1, level := 1 }, { type := 1, level := 2 }] packets) ∧
    (∃ table packets, readSkillConfig (fun _ => 3250) (some 1)
        [{ type := 1, level := 1 }, { type := 1, level := 2 }] [] = some (table, packets) ∧
      (skillFormat fun _ => 3250).InPackets 1
        [{ type := 1, level := 1 }, { type := 1, level := 2 }] packets) :=
  ⟨(read_in_packets 2).1 _ _ [] (fun _ _ => by decide)
      (by simp [RowFormat.LevelsIn, RowFormat.Valid, armsFormat]),
    (read_in_packets 1).2.1 _ _ [] (fun _ _ => by decide)
      (by simp [RowFormat.LevelsIn, buildFormat]),
    (read_in_packets 1).2.2 _ _ [] (fun _ _ => by decide)
      (by simp [RowFormat.LevelsIn, skillFormat])⟩

/-- Without a row of a valid type there is no packet. A row of level -1 is written in front of the
levels of its type. -/
theorem not_read_in_packets :
    (¬ ∀ rows : List ArmsResponse, (∀ row ∈ rows, (fun _ => 100) row ≤ 6500) →
      ∃ table packets, readArmsData (fun _ => 100) (some 0) rows [] = some (table, packets) ∧
        (packets.map ListResponse.flags = [3] ∨
          ∃ n, packets.map ListResponse.flags = 0 :: (List.replicate n 1 ++ [2]))) ∧
    readArmsData (fun _ => 100) (some 1) [{ type := 1, level := -1 }] [] = none := by
  refine ⟨fun hclaim => ?_, rfl⟩
  obtain ⟨table, packets, hread, hflags⟩ := hclaim [{}] fun _ _ => Nat.le_of_ble_eq_true rfl
  obtain ⟨-, rfl⟩ : [[]] = table ∧ [] = packets := Prod.mk.inj (Option.some.inj hread)
  rcases hflags with hflags | ⟨n, hflags⟩ <;> cases hflags

end IceBridge.Gateway
