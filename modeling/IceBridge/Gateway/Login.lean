import IceBridge.Lib.Run
import Mathlib.Logic.Function.Basic

/-! Logging in to the gateway: the handlers of the connections, the table
`UuidHandlerPoitiner` of the players' handlers, and what a second login to an account does
to the first. -/

namespace IceBridge.Gateway

/-- A connection is open from the moment it is accepted to the end of `OnClose`. -/
inductive Life
  | fresh
  | opened
  | disposed
  deriving DecidableEq

structure Handler where
  life : Life := .fresh
  /-- `Close` has been called. -/
  closing : Bool := false
  playerUuid : UInt32 := 0
  loginStatus : Bool := false
  /-- `login_handle2` has been run. -/
  loggedIn : Bool := false
  isClientOff : Bool := true
  /-- The handler whose `login_handle2` waits for the end of this one. -/
  offlineHandler : Option ℕ := none
  lastTime : Int := 0
  deriving DecidableEq

/-- `TCPSessionHandler::Close`: only asks the session to close. -/
def Handler.close (x : Handler) : Handler :=
  if x.life = .opened then { x with closing := true } else x

/-- The handlers by connection, and `UuidHandlerPoitiner`: an entry may be null. -/
structure Logins where
  handler : ℕ → Handler := fun _ => {}
  uuidHandler : UInt32 → Option (Option ℕ) := fun _ => none

/-- `verify_user`. The players' ids come from a counter of the database that starts at 1. -/
structure Accounts where
  verifyUser : String → String → Option UInt32
  ne_zero : ∀ account passwd, verifyUser account passwd ≠ some 0

theorem Accounts.seven_ne_zero (_ _ : String) : some (7 : UInt32) ≠ some 0 := by decide

inductive LoginEvent
  | connect (h : ℕ)
  | login (h : ℕ) (account passwd : String)
  | message (h : ℕ) (now : Int)
  | heartBeat (h : ℕ) (now : Int)
  | onClose (h : ℕ)
  | heartCheck (uuid : UInt32) (now : Int)
  /-- A worker's reply looks the player up. -/
  | reply (uuid : UInt32)

namespace Logins

def setHandler (s : Logins) (h : ℕ) (x : Handler) : Logins :=
  { s with handler := Function.update s.handler h x }

def setEntry (s : Logins) (uuid : UInt32) (entry : Option (Option ℕ)) : Logins :=
  { s with uuidHandler := Function.update s.uuidHandler uuid entry }

def loginHandle2 (s : Logins) (h : ℕ) : Logins :=
  (s.setEntry (s.handler h).playerUuid (some (some h))).setHandler h
    { s.handler h with loginStatus := true, loggedIn := true }

def loginHandle (s : Logins) (h : ℕ) : Logins :=
  match s.uuidHandler (s.handler h).playerUuid with
  | some (some g) =>
    (s.setHandler g (Handler.close
      { s.handler g with isClientOff := false, offlineHandler := some h })).setEntry
        (s.handler h).playerUuid none
  | _ => s.loginHandle2 h

def loginRequest (accounts : Accounts) (s : Logins) (h : ℕ) (account passwd : String) : Logins :=
  if (s.handler h).loginStatus then s
  else
    match accounts.verifyUser account passwd with
    | none => s
    | some uuid =>
      (s.setHandler h { s.handler h with playerUuid := uuid, loginStatus := true }).loginHandle h

def dispose (s : Logins) (h : ℕ) : Logins :=
  s.setHandler h { s.handler h with life := .disposed, offlineHandler := none }

def onClose (s : Logins) (h : ℕ) : Logins :=
  let x := s.handler h
  let s := if (s.uuidHandler x.playerUuid).isSome ∧ x.isClientOff then s.setEntry x.playerUuid none
    else s
  match x.offlineHandler with
  | some w => (s.dispose h).loginHandle2 w
  | none => s.dispose h

def expired (s : Logins) (now : Int) (h : ℕ) : Prop :=
  (s.handler h).lastTime ≠ 0 ∧ 500 < now - (s.handler h).lastTime

instance (s : Logins) (now : Int) (h : ℕ) : Decidable (s.expired now h) :=
  inferInstanceAs (Decidable (_ ∧ _))

/-- The loop body of `HeartCheck` for one entry: a handler that has been silent for too long
is asked to close and leaves the table. -/
def heartCheck (s : Logins) (uuid : UInt32) (now : Int) : Logins :=
  match s.uuidHandler uuid with
  | some (some h) =>
    if s.expired now h then
      (s.setHandler h (Handler.close { s.handler h with isClientOff := false })).setEntry uuid none
    else s
  | _ => s

def step (accounts : Accounts) (s : Logins) : LoginEvent → Option Logins
  | .connect h =>
    if (s.handler h).life = .fresh then some (s.setHandler h { life := .opened }) else none
  | .login h account passwd =>
    if (s.handler h).life = .opened then some (s.loginRequest accounts h account passwd) else none
  | .message h now =>
    if (s.handler h).life = .opened then
      some (if (s.handler h).loginStatus then
        s.setHandler h { s.handler h with lastTime := now } else s)
    else none
  | .heartBeat h now =>
    if (s.handler h).life = .opened then
      some (s.setHandler h { s.handler h with lastTime := now })
    else none
  | .onClose h => if (s.handler h).life = .opened then some (s.onClose h) else none
  | .heartCheck uuid now => some (s.heartCheck uuid now)
  | .reply uuid =>
    some (if s.uuidHandler uuid = none then s.setEntry uuid (some none) else s)

end Logins

end IceBridge.Gateway
