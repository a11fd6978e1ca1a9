import IceBridge.Lib.Run
import Mathlib.Data.Finset.Basic
import Mathlib.Data.List.AList
import Mathlib.Data.List.Sort

/-! The groups of players. Who is in which group is written down three times in redis: in the
hash of the user, in the sorted set of the group's members and in the set of its leaders. -/

namespace IceBridge.Group

/-- `groupId` and `group#position`, which `hmset` always writes together. Position 3 is the
owner, 2 a leader and 1 an ordinary member; group 0 is none. -/
structure Membership where
  groupId : Int
  position : Int
  deriving DecidableEq

structure Redis where
  user : String → Option Membership := fun _ => none
  /-- `abt#point` of a user. -/
  point : String → Option Int := fun _ => none
  /-- The sorted set of a group: its members with their scores. -/
  members : Int → AList fun _ : String => Int := fun _ => ∅
  leaders : Int → Finset String := fun _ => ∅
  request : Int → Finset String := fun _ => ∅

namespace Redis

def userInGroup (r : Redis) (uid : String) : Bool :=
  match r.user uid with
  | none => false
  | some m => m.groupId ≠ 0

def getGroupPosition (r : Redis) (uid : String) : Option Int := (r.user uid).map Membership.position

def getGroupId (r : Redis) (uid : String) : Option Int := (r.user uid).map Membership.groupId

def updateUserGroup (r : Redis) (uid : String) (groupId position : Int) : Redis :=
  { r with user := Function.update r.user uid (some { groupId, position }) }

def addUserIntoGroupMembers (r : Redis) (uid : String) (groupId point : Int) : Redis :=
  { r with members := Function.update r.members groupId ((r.members groupId).insert uid point) }

def addUserIntoGroupLeaders (r : Redis) (uid : String) (groupId : Int) : Redis :=
  { r with leaders := Function.update r.leaders groupId (insert uid (r.leaders groupId)) }

/-- False when redis does not take the missing score for a number and the call raises: the hash
of the user has been written by then. -/
def addUserIntoGroup (r : Redis) (uid : String) (groupId position : Int) : Redis × Bool :=
  let r := r.updateUserGroup uid groupId position
  match r.point uid with
  | none => (r, false)
  | some point =>
    let r := r.addUserIntoGroupMembers uid groupId point
    if position = 2 then (r.addUserIntoGroupLeaders uid groupId, true) else (r, true)

/-- `zrevrange`: the highest score first, and of equal ones the last name. -/
def getGroupMembersSorted (r : Redis) (groupId : Int) : List String :=
  ((r.members groupId).entries.insertionSort fun a b =>
    b.2 < a.2 ∨ b.2 = a.2 ∧ b.1 ≤ a.1).map Sigma.fst

/-- False when it raises: `smembers` returns a set, of which there is no element 0. -/
def chooseGroupOwner (r : Redis) (groupId : Int) : Redis × Bool :=
  if r.leaders groupId ≠ ∅ then (r, false)
  else
    match r.getGroupMembersSorted groupId with
    | [] => (r, true)
    | uid :: _ => (r.updateUserGroup uid groupId 3, true)

def deleteUserFromGroupMembers (r : Redis) (uid : String) (groupId : Int) : Redis :=
  { r with members := Function.update r.members groupId ((r.members groupId).erase uid) }

def deleteUserFromGroupLeaders (r : Redis) (uid : String) (groupId : Int) : Redis :=
  { r with leaders := Function.update r.leaders groupId ((r.leaders groupId).erase uid) }

def withoutUser (r : Redis) (uid : String) (groupId : Int) : Redis :=
  ((r.updateUserGroup uid 0 0).deleteUserFromGroupMembers uid groupId).deleteUserFromGroupLeaders
    uid groupId

/-- Returns the number of members that are left, unless it raises. -/
def deleteUserFromGroup (r : Redis) (uid : String) (groupId : Int) : Redis × Option ℕ :=
  let position := r.getGroupPosition uid
  let r := r.withoutUser uid groupId
  if position = some 3 then
    let (r, ok) := r.chooseGroupOwner groupId
    (r, if ok then some (r.members groupId).entries.length else none)
  else (r, some (r.members groupId).entries.length)

end Redis

structure GroupInfo where
  groupName : String
  groupIcon : Int
  groupType : Int
  minIntegral : Int

structure Reply where
  ok : Bool
  errNumber : Int
  message : String
  groupId : Option Int := none
  deriving DecidableEq

/-- What is sent back: nothing when a request raises, or a list of fields, or nil. -/
abbrev Sent := Option (Option Reply)

structure GroupManager where
  redis : Redis := {}
  db : AList fun _ : Int => GroupInfo := ∅
  lastrowid : ℕ := 0

namespace GroupManager

def searchGroup (s : GroupManager) (groupName : String) : Bool :=
  s.db.entries.any fun row => row.2.groupName = groupName

def getGroupType (s : GroupManager) (groupId : Int) : Option Int :=
  (s.db.lookup groupId).map GroupInfo.groupType

def createGroup (s : GroupManager) (uid : String) (info : GroupInfo) (inserted : Bool) :
    GroupManager × Sent :=
  if s.redis.userInGroup uid then
    (s, some (some ⟨false, 0, "the user has belong to a group", some 0⟩))
  else if s.searchGroup info.groupName then
    (s, some (some ⟨false, 1, "the group has existed", some 0⟩))
  else if inserted then
    let groupId : Int := s.lastrowid + 1
    let (redis, ok) := s.redis.addUserIntoGroup uid groupId 3
    ({ redis, db := s.db.insert groupId info, lastrowid := s.lastrowid + 1 },
      if ok then some (some ⟨true, 0, "", some groupId⟩) else none)
  else (s, some (some ⟨false, 2, "db operation failed", some 0⟩))

def joinGroup (s : GroupManager) (uid : String) (groupId : Int) : GroupManager × Sent :=
  if s.redis.userInGroup uid then
    (s, some (some ⟨false, 0, "the user has belong to a group", none⟩))
  else
    let groupType := (s.getGroupType groupId).getD 0
    if groupType = 0 then (s, some (some ⟨false, 0, "group is not exited", none⟩))
    else if groupType = 1 then
      let (redis, ok) := s.redis.addUserIntoGroup uid groupId 1
      ({ s with redis }, if ok then some (some ⟨true, 0, "", none⟩) else none)
    else if groupType = 2 then (s, some (some ⟨false, 1, "the group is not allowed to join", none⟩))
    else if groupType = 3 then
      let request := Function.update s.redis.request groupId (insert uid (s.redis.request groupId))
      ({ s with redis := { s.redis with request } },
        some (some ⟨true, 0, "apply for joining success", none⟩))
    else (s, some none)

/-- Who accepts is not looked at. -/
def acceptJoin (s : GroupManager) (joinUid : String) (groupId : Int) :
    GroupManager × Sent :=
  let (redis, ok) := s.redis.addUserIntoGroup joinUid groupId 1
  ({ s with redis }, if ok then some (some ⟨true, 0, "", none⟩) else none)

def exitGroup (s : GroupManager) (uid : String) (groupId : Int) : GroupManager × Sent :=
  match s.redis.deleteUserFromGroup uid groupId with
  | (redis, none) => ({ s with redis }, none)
  | (redis, some n) =>
    ({ s with redis, db := if n = 0 then s.db.erase groupId else s.db },
      some (some ⟨true, 0, "", none⟩))

def promoteUser (s : GroupManager) (uid promoteUid : String) : GroupManager × Sent :=
  match s.redis.user uid with
  | none => (s, some (some ⟨false, 0, "you are not the group owner", none⟩))
  | some m =>
    if m.position ≠ 3 then (s, some (some ⟨false, 0, "you are not the group owner", none⟩))
    else
      let (redis, ok) := s.redis.addUserIntoGroup promoteUid m.groupId 2
      ({ s with redis }, if ok then some (some ⟨true, 0, "", none⟩) else none)

/-- The reply is packed under the name of the request, which is that of no response: `pack`
raises. -/
def promotePosition (s : GroupManager) (uid promoteUid : String) : GroupManager × Sent :=
  ((s.promoteUser uid promoteUid).1, none)

end GroupManager

inductive GroupEvent
  | createGroup (uid : String) (info : GroupInfo) (inserted : Bool)
  | joinGroup (uid : String) (groupId : Int)
  | acceptJoin (uid joinUid : String) (groupId : Int)
  | exitGroup (uid : String) (groupId : Int)
  | promotePosition (uid promoteUid : String)

namespace GroupManager

def process (s : GroupManager) : GroupEvent → GroupManager × Sent
  | .createGroup uid info inserted => s.createGroup uid info inserted
  | .joinGroup uid groupId => s.joinGroup uid groupId
  | .acceptJoin _ joinUid groupId => s.acceptJoin joinUid groupId
  | .exitGroup uid groupId => s.exitGroup uid groupId
  | .promotePosition uid promoteUid => s.promotePosition uid promoteUid

def start (point : String → Option Int) : GroupManager := { redis := { point } }

def step (s : GroupManager) (e : GroupEvent) : Option GroupManager := some (s.process e).1

end GroupManager

end IceBridge.Group
