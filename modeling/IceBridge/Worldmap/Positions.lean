import IceBridge.Lib.Index
import IceBridge.Lib.Run
import Mathlib.Data.List.AList

/-! The world map: the cells where a city can be put, and what redis has of the cities. -/

namespace IceBridge.Worldmap

abbrev Cell := Int × Int

def key (c : Cell) : Int := c.1 * 65536 + c.2

def toShort (n : Int) : Int := n.bmod 65536

def cell (k : Int) : Cell := (toShort (k / 65536), toShort (k % 65536))

def OnMap (c : Cell) : Prop := 0 ≤ c.1 ∧ c.1 < 640 ∧ 0 ≤ c.2 ∧ c.2 < 640

instance (c : Cell) : Decidable (OnMap c) := inferInstanceAs (Decidable (_ ∧ _ ∧ _ ∧ _))

structure Redis where
  /-- The fields of `user#` that hold a number. -/
  user : UInt32 → String → Option Int := fun _ _ => none
  /-- The hash `worldmap`; the name of a field is `x#y`. -/
  worldmap : AList fun _ : Cell => UInt32 := ∅

namespace Redis

/-- `HMGET user# coord#x coodrd#y`, as the source spells it. -/
def coords (r : Redis) (uuid : UInt32) : Option Cell :=
  match r.user uuid "coord#x", r.user uuid "coodrd#y" with
  | some x, some y => some (x, y)
  | _, _ => none

def getPlayerWorldinfo (r : Redis) (uuid : UInt32) : Option Cell :=
  (r.coords uuid).map fun c => (toShort c.1, toShort c.2)

def addNewPlayer (r : Redis) (c : Cell) (uuid : UInt32) : Redis :=
  let worldmap :=
    match r.coords uuid with
    | some old => r.worldmap.erase old
    | none => r.worldmap
  { worldmap := worldmap.insert c uuid
    user := Function.update r.user uuid
      (Function.update (Function.update (r.user uuid) "coord#x" (some c.1)) "coord#y" (some c.2)) }

end Redis

structure WorldMap where
  mapKey : List Int := []
  remainingPosition : Int → Option ℕ := fun _ => none
  redis : Redis

namespace WorldMap

def addNewPositionToMap (w : WorldMap) (c : Cell) : WorldMap :=
  { w with
    mapKey := w.mapKey ++ [key c]
    remainingPosition := Function.update w.remainingPosition (key c) (some w.mapKey.length) }

def returned (w : WorldMap) (uuid : UInt32) : WorldMap :=
  match w.redis.getPlayerWorldinfo uuid with
  | some old => w.addNewPositionToMap old
  | none => w

def draw (w : WorldMap) (i : ℕ) : Option (Int × WorldMap) := do
  let k ← w.mapKey[i]?
  let last ← w.mapKey[w.mapKey.length - 1]?
  let remainingPosition := Function.update w.remainingPosition k none
  if w.mapKey.length = 1 then some (k, { w with mapKey := [], remainingPosition })
  else some (k, { w with
    mapKey := Index.moveLast w.mapKey i last
    remainingPosition := Function.update remainingPosition last (some i) })

def drawn (w : WorldMap) (uuid random : UInt32) : Option (Int × WorldMap) :=
  (w.returned uuid).draw (random.toNat % (w.returned uuid).mapKey.length)

def getRangePosition (w : WorldMap) (uuid random : UInt32) : WorldMap × Option Cell :=
  match w.drawn uuid random with
  | some (k, w) => ({ w with redis := w.redis.addNewPlayer (cell k) uuid }, some (cell k))
  | none => (w.returned uuid, none)

/-- The result is `none` where the function ends without one: for a player whose old cell is
not found. An index past the end of `map_key` makes the request undefined. -/
def getSettlePosition (w : WorldMap) (c : Cell) (uuid : UInt32) : Option (WorldMap × Option Bool) :=
  match w.redis.getPlayerWorldinfo uuid with
  | none => some (w, none)
  | some old =>
    match w.remainingPosition (key c) with
    | none => some (w, some false)
    | some index => do
      let last ← w.mapKey[w.mapKey.length - 1]?
      if index < w.mapKey.length then
        let remainingPosition := Function.update w.remainingPosition last (some index)
        let w : WorldMap :=
          { mapKey := Index.moveLast w.mapKey index last
            remainingPosition := Function.update remainingPosition (key c) none
            redis := w.redis.addNewPlayer c uuid }
        some (w.addNewPositionToMap old, some true)
      else none

/-- The answer to the three requests for a place: the coordinates, or -1000. -/
inductive Reply
  | myWorldMapCoord (c : Cell)
  | simple (result : Int)
  deriving DecidableEq

def coordReply : Option Cell → Reply
  | some c => .myWorldMapCoord c
  | none => .simple (-1000)

def randomNewMap (w : WorldMap) (uuid random : UInt32) : WorldMap × Reply :=
  let (w, c) := w.getRangePosition uuid random
  (w, coordReply c)

def randomMoveCity (w : WorldMap) (uuid random : UInt32) : WorldMap × Reply :=
  let (w, c) := w.getRangePosition uuid random
  (w, coordReply c)

def settleMoveCity (w : WorldMap) (c : Cell) (uuid : UInt32) : Option (WorldMap × Option Reply) := do
  let (w, ok) ← w.getSettlePosition c uuid
  some (w, ok.map fun ok => coordReply (if ok then some c else none))

/-! The map at the start of the worker. -/

def minBlock : List (List ℕ) := [
  [1, 3, 1, 4, 3, 1, 5, 1, 6, 3, 1, 2, 3, 1, 4, 6, 2, 4, 1, 4, 3, 1, 6, 1, 1, 2, 3, 6, 5, 6, 4, 3],
  [2, 1, 3, 1, 6, 1, 2, 6, 6, 1, 1, 2, 5, 2, 3, 4, 2, 1, 11, 1, 6, 1, 1, 1, 6, 4, 3, 1, 6, 1, 1, 2],
  [1, 1, 3, 6, 6, 2, 1, 3, 1, 3, 1, 6, 4, 6, 3, 1, 5, 1, 1, 5, 3, 5, 1, 1, 6, 4, 6, 2, 1, 3, 1, 6],
  [2, 1, 4, 6, 3, 5, 3, 6, 1, 4, 6, 1, 1, 3, 4, 3, 6, 1, 4, 6, 6, 3, 1, 2, 3, 6, 1, 5, 1, 4, 3, 2],
  [4, 6, 4, 6, 6, 1, 1, 1, 4, 2, 6, 9, 1, 6, 3, 1, 6, 3, 1, 1, 1, 1, 6, 2, 1, 1, 1, 1, 1, 1, 3, 5],
  [3, 4, 1, 1, 1, 1, 2, 3, 6, 2, 5, 1, 1, 2, 10, 6, 2, 1, 2, 1, 1, 6, 3, 7, 3, 1, 11, 1, 4, 1, 4, 3],
  [5, 1, 6, 6, 1, 4, 3, 2, 6, 1, 6, 1, 1, 1, 6, 1, 3, 2, 1, 6, 1, 6, 4, 3, 2, 5, 1, 1, 3, 6, 2, 6],
  [6, 3, 6, 1, 6, 1, 3, 1, 8, 3, 1, 6, 6, 6, 1, 3, 2, 3, 6, 6, 2, 1, 4, 3, 6, 1, 1, 6, 3, 2, 6, 4],
  [4, 6, 1, 2, 6, 2, 1, 5, 1, 4, 6, 3, 6, 3, 2, 1, 1, 2, 6, 3, 1, 6, 2, 1, 3, 6, 6, 6, 3, 1, 3, 6],
  [5, 1, 4, 3, 6, 1, 1, 6, 6, 3, 6, 4, 3, 1, 2, 1, 3, 5, 2, 3, 6, 6, 3, 5, 4, 5, 1, 2, 1, 3, 4, 5],
  [2, 6, 1, 1, 2, 3, 4, 1, 3, 5, 4, 1, 6, 6, 6, 3, 1, 4, 6, 1, 1, 6, 3, 4, 2, 4, 8, 1, 2, 3, 6, 1],
  [6, 2, 1, 4, 6, 3, 1, 2, 4, 1, 6, 2, 1, 5, 3, 2, 3, 1, 6, 1, 6, 3, 2, 3, 10, 6, 5, 1, 4, 9, 4, 2],
  [3, 1, 6, 5, 4, 1, 2, 3, 1, 2, 6, 1, 6, 2, 6, 3, 6, 3, 6, 4, 6, 6, 3, 4, 3, 1, 6, 1, 6, 3, 6, 1],
  [3, 1, 1, 4, 6, 6, 4, 1, 1, 1, 6, 1, 5, 4, 3, 1, 6, 6, 6, 2, 1, 1, 2, 1, 2, 4, 2, 1, 6, 6, 6, 1],
  [6, 2, 1, 5, 3, 6, 3, 1, 11, 3, 6, 1, 6, 1, 2, 1, 6, 5, 4, 6, 6, 5, 2, 1, 3, 2, 3, 6, 2, 3, 1, 2],
  [3, 6, 6, 1, 6, 3, 1, 2, 1, 5, 4, 2, 6, 4, 1, 1, 3, 4, 3, 1, 3, 6, 4, 3, 2, 3, 2, 1, 6, 3, 5, 2],
  [2, 6, 1, 1, 5, 3, 6, 1, 5, 2, 3, 1, 3, 1, 3, 5, 4, 6, 3, 4, 6, 6, 5, 3, 4, 3, 1, 2, 1, 3, 1, 5],
  [5, 4, 3, 6, 3, 4, 1, 5, 4, 2, 1, 1, 1, 6, 5, 4, 6, 6, 3, 10, 6, 3, 1, 2, 6, 5, 2, 3, 6, 2, 4, 2],
  [2, 1, 2, 1, 6, 2, 3, 4, 3, 6, 3, 6, 1, 3, 4, 1, 1, 5, 1, 2, 1, 2, 5, 1, 3, 4, 6, 2, 6, 2, 4, 3],
  [4, 3, 1, 6, 6, 6, 3, 6, 3, 6, 6, 6, 6, 1, 3, 1, 4, 3, 6, 6, 2, 1, 3, 1, 3, 6, 6, 4, 6, 6, 3, 1],
  [3, 6, 6, 6, 6, 3, 2, 1, 2, 3, 6, 1, 6, 6, 1, 3, 6, 6, 1, 1, 6, 6, 3, 2, 6, 3, 6, 6, 6, 3, 1, 3],
  [2, 5, 4, 6, 2, 6, 3, 1, 2, 3, 6, 4, 3, 6, 6, 2, 6, 4, 9, 6, 6, 4, 2, 3, 6, 3, 1, 2, 1, 6, 1, 2],
  [2, 4, 3, 6, 4, 2, 1, 3, 1, 1, 4, 2, 1, 1, 2, 6, 3, 5, 2, 6, 2, 6, 6, 8, 6, 5, 6, 4, 6, 1, 1, 1],
  [3, 6, 3, 6, 2, 1, 6, 6, 4, 3, 1, 2, 1, 4, 5, 6, 6, 3, 6, 3, 4, 6, 1, 1, 6, 3, 6, 3, 6, 3, 4, 3],
  [4, 3, 6, 3, 1, 6, 4, 1, 9, 3, 6, 1, 1, 3, 1, 6, 2, 1, 1, 6, 6, 3, 1, 1, 1, 5, 1, 2, 3, 2, 11, 1],
  [5, 6, 3, 1, 1, 6, 3, 5, 6, 2, 6, 3, 6, 6, 4, 5, 6, 6, 3, 1, 1, 3, 1, 2, 3, 1, 2, 1, 5, 1, 1, 1],
  [2, 1, 1, 4, 6, 2, 3, 1, 6, 6, 6, 2, 3, 8, 2, 3, 4, 5, 3, 6, 1, 4, 5, 1, 1, 5, 6, 6, 6, 4, 6, 6],
  [2, 1, 6, 1, 6, 6, 6, 4, 10, 1, 1, 4, 6, 3, 1, 3, 1, 3, 4, 6, 6, 3, 1, 1, 3, 6, 2, 1, 2, 1, 3, 1],
  [3, 4, 6, 3, 2, 5, 2, 3, 6, 3, 1, 6, 4, 1, 2, 3, 1, 2, 3, 6, 6, 4, 3, 5, 3, 1, 2, 1, 6, 1, 1, 4],
  [3, 1, 6, 3, 2, 5, 2, 3, 2, 6, 5, 6, 5, 2, 1, 3, 6, 3, 6, 6, 6, 3, 6, 3, 6, 4, 6, 1, 4, 1, 6, 3],
  [2, 1, 6, 4, 2, 6, 4, 3, 2, 3, 4, 6, 3, 4, 3, 2, 1, 3, 4, 3, 2, 6, 3, 4, 6, 6, 4, 6, 5, 2, 1, 4],
  [6, 2, 6, 3, 6, 6, 6, 3, 6, 4, 6, 6, 5, 6, 3, 1, 6, 5, 2, 3, 6, 4, 6, 6, 6, 3, 2, 3, 1, 1, 2, 1]]

def terrain (row column : ℕ) : ℕ := (minBlock.getD (row % 32) []).getD (column % 32) 0

/-- `word_map_player_init` marks the cities, up to the first field that is no cell of the map. -/
def worldPosition (r : Redis) (row column : ℕ) : ℕ :=
  let read := r.worldmap.keys.takeWhile fun c => decide (OnMap c)
  if ((column : Int), (row : Int)) ∈ read then 0xff else terrain row column

def freeCells (r : Redis) : List Cell :=
  (List.range 640).flatMap fun i => (List.range 640).filterMap fun j =>
    if worldPosition r i j = 6 then some ((j : Int), (i : Int)) else none

def start (redis : Redis) : WorldMap := (freeCells redis).foldl addNewPositionToMap { redis }

end WorldMap

end IceBridge.Worldmap
