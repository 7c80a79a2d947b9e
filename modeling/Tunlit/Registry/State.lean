import Mathlib.Logic.Function.Basic
import Tunlit.Access.Policy
import Tunlit.Access.Store
import Tunlit.Registry.Names

/-! # Tunnels, sessions and timers

The objects of `lib/registry.js` and the sessions of `controllers/control.js`. An object
is known by its reference, so a tunnel that was removed can still be changed by a
listener or a timer that holds it. `emit("forget")` is the listener of `index.js` that
drops the gate's tokens. Lengths of time are in milliseconds. -/
namespace Tunlit.Registry.State
open Tunlit.Lib.Insertion Tunlit.Access.Policy Tunlit.Access.Store Tunlit.Registry.Names

abbrev TunnelRef := Nat
abbrev SessionRef := Nat
abbrev TimerRef := Nat
abbrev AccountId := Nat

inductive Mode where
  | path
  | subdomain
  | tcp
deriving DecidableEq, Repr

structure Account where
  id : AccountId
  username : String
  admin : Bool := false
deriving DecidableEq, Repr

/-- Who opened a session as the owner of a tunnel. -/
structure Owner where
  account : Account
  credential : String
  guest : Option String := none
deriving DecidableEq, Repr

inductive Role where
  | joiner
  | owner (owner : Owner)
deriving DecidableEq, Repr

structure Tunnel where
  id : String
  accountId : AccountId
  owner : String
  guest : Option String
  mode : Mode
  target : Target
  keepHost : Bool
  session : Option SessionRef := none
  resumeToken : String
  secret : Option Secret
  joiners : List SessionRef := []
  graceTimer : Option TimerRef := none
  graceUntil : Option Nat := none
  credential : Option String := none
  policy : AccessPolicy := emptyPolicy
  persistent : Bool := false
deriving DecidableEq

instance : Inhabited Tunnel := ⟨⟨"", 0, "", none, .tcp, ⟨"", 0⟩, false, none, "", none, [], none,
  none, none, emptyPolicy, false⟩⟩

def Tunnel.shareCode (tunnel : Tunnel) : Option String :=
  tunnel.secret.map fun secret => tunnel.id ++ .ofList secret.1

/-- A message of the server to the other end of a session. -/
inductive Control where
  | hello
  | registered (id : String) (mode : Mode) (persistent : Bool) (shareCode : Option String)
      (resumeToken : String) (resumed : Bool)
  | joined (id : String) (port : Nat) (online : Bool)
  | error (failure : Failure)
  | bye (reason : String)
deriving DecidableEq

/-- The `register` message of a CLI. -/
structure Request where
  mode : String
  target : Option String
  name : Option String := none
  keepHost : Bool := false
  resume : Option String := none
  policy : Option PolicyInput := none
  share : Option String := none
deriving DecidableEq

/-- The promise that `register` waits for, with what is kept across the wait. -/
inductive Point where
  | resumeSaved (tunnel : TunnelRef)
  | tunnels (owned : Nat)
  | traffic
  | usage (limit : Nat)
  | named (previous : Option ShareCode) (name : String)
  | random (previous : Option ShareCode) (left : Nat) (id : RandomId)
  | policySaved (tunnel : TunnelRef)
  | returned (tunnel : TunnelRef) (resumed : Bool)
deriving DecidableEq

/-- A call of `register` under way. -/
structure Call where
  owner : Owner
  request : Request
  mode : Mode
  target : Target
  point : Point
deriving DecidableEq

inductive Phase where
  | hello
  | setup (role : Role)
  | registering (call : Call)
  | ready (role : Role)
deriving DecidableEq

inductive Listener where
  | owner (tunnel : TunnelRef)
  | joiner (tunnel : TunnelRef)
deriving DecidableEq

structure Session where
  ip : String := ""
  phase : Phase := .hello
  closed : Bool := false
  wsOpen : Bool := true
  saidBye : Bool := false
  closeListeners : List Listener := []
  tunnel : Option TunnelRef := none
  sent : List Control := []
deriving DecidableEq

instance : Inhabited Session := ⟨{}⟩

namespace Session

def sendControl (session : Session) (message : Control) : Session :=
  if session.closed || !session.wsOpen then session
  else { session with sent := session.sent ++ [message] }

def close (session : Session) : Session := { session with wsOpen := false }

/-- `endSession`, on the session itself. -/
def ended (session : Session) (reason : String) : Session :=
  if session.closed then session else (session.sendControl (.bye reason)).close

/-- `fail` of the control server. -/
def fail (session : Session) (failure : Failure) : Session :=
  (session.sendControl (.error failure)).close

end Session

structure Config where
  httpMode : Mode := .subdomain
  gracePeriod : Nat := 30 * 1000
deriving DecidableEq, Repr

structure Hub where
  config : Config := {}
  tunnels : OrderedMap String TunnelRef := ∅
  heap : TunnelRef → Tunnel := default
  nextTunnel : TunnelRef := 0
  sessions : SessionRef → Session := default
  nextSession : SessionRef := 0
  -- the armed timers, each with the tunnel that its callback holds
  timers : List (TimerRef × TunnelRef) := []
  nextTimer : TimerRef := 0
  access : AccessStore := {}
  now : Nat := 0

namespace Hub

def onTunnel (hub : Hub) (r : TunnelRef) (f : Tunnel → Tunnel) : Hub :=
  { hub with heap := Function.update hub.heap r (f (hub.heap r)) }

def onSession (hub : Hub) (x : SessionRef) (f : Session → Session) : Hub :=
  { hub with sessions := Function.update hub.sessions x (f (hub.sessions x)) }

/-- `tunnel.online` -/
def online (hub : Hub) (r : TunnelRef) : Bool :=
  match (hub.heap r).session with
  | some x => !(hub.sessions x).closed
  | none => false

def endSession (hub : Hub) (x : SessionRef) (reason : String) : Hub :=
  hub.onSession x fun session => session.ended reason

def endAll (hub : Hub) (sessions : List SessionRef) (reason : String) : Hub :=
  sessions.foldl (fun hub x => hub.endSession x reason) hub

def clearTimeout (hub : Hub) (timer : Option TimerRef) : Hub :=
  { hub with timers := hub.timers.filter fun t => some t.1 ≠ timer }

def remove (hub : Hub) (id reason : String) : Hub :=
  match hub.tunnels.get id with
  | none => hub
  | some r =>
    let tunnel := hub.heap r
    let hub := { hub with
      access := hub.access.forget tunnel.id
      tunnels := hub.tunnels.delete id }
    let hub := hub.clearTimeout tunnel.graceTimer
    let hub := hub.endAll tunnel.session.toList ("tunnel closed (" ++ reason ++ ")")
    let hub := hub.endAll tunnel.joiners "tunnel closed"
    hub.onTunnel r fun tunnel => { tunnel with joiners := [] }

def startGrace (hub : Hub) (r : TunnelRef) : Hub :=
  let period := hub.config.gracePeriod
  if period = 0 then hub.remove (hub.heap r).id "grace period is 0"
  else
    { hub.onTunnel r fun tunnel => { tunnel with
        graceUntil := some (hub.now + period)
        graceTimer := some hub.nextTimer } with
      timers := hub.timers ++ [(hub.nextTimer, r)]
      nextTimer := hub.nextTimer + 1 }

/-- The listener of `_attach`. -/
def onOwnerClose (hub : Hub) (x : SessionRef) (r : TunnelRef) : Hub :=
  if (hub.heap r).session ≠ some x then hub
  else
    let hub := hub.onTunnel r fun tunnel => { tunnel with session := none }
    if (hub.sessions x).saidBye then hub.remove (hub.heap r).id "closed by owner"
    else hub.startGrace r

/-- A listener of the `close` event of a session; that of `join` is the second one. -/
def onClose (hub : Hub) (x : SessionRef) : Listener → Hub
  | .owner r => hub.onOwnerClose x r
  | .joiner r =>
    hub.onTunnel r fun tunnel => { tunnel with joiners := tunnel.joiners.filter (· ≠ x) }

/-- `_onSocketClose`, with the listeners of the session's `close` event. -/
def onSocketClose (hub : Hub) (x : SessionRef) : Hub :=
  let listeners := (hub.sessions x).closeListeners
  let hub := hub.onSession x fun session =>
    { session with closed := true, wsOpen := false, closeListeners := [] }
  listeners.foldl (fun hub listener => hub.onClose x listener) hub

/-- The callback of a grace timer, which is not armed any more. -/
def onGraceTimer (hub : Hub) (timer : TimerRef) (r : TunnelRef) : Hub :=
  { hub with timers := hub.timers.filter fun t => t.1 ≠ timer }.remove (hub.heap r).id
    "grace period expired"

/-- The first lines of `_attach`: the grace period and an earlier session are ended. -/
def takeOver (hub : Hub) (r : TunnelRef) (x : SessionRef) : Hub :=
  (hub.clearTimeout (hub.heap r).graceTimer).endAll
    ((hub.heap r).session.toList.filter fun y => y ≠ x) "replaced by a newer connection"

def attach (hub : Hub) (r : TunnelRef) (x : SessionRef) (call : Call) : Hub :=
  let hub := (hub.takeOver r x).onTunnel r fun tunnel => { tunnel with
    credential := some call.owner.credential
    graceTimer := none
    graceUntil := none
    session := some x
    target := call.target
    keepHost := call.request.keepHost }
  hub.onSession x fun session => { session with
    tunnel := some r
    closeListeners := session.closeListeners ++ [.owner r] }

/-- The loops of `closeFor` and `closeCredential` over a copy of the values. -/
def removeAll (hub : Hub) (tunnels : List TunnelRef) (reason : String) : Hub :=
  tunnels.foldl (fun hub r => hub.remove (hub.heap r).id reason) hub

def closeFor (hub : Hub) (accountId : AccountId) (reason : String) : Hub :=
  hub.removeAll (hub.tunnels.values.filter fun r => (hub.heap r).accountId = accountId) reason

def closeCredential (hub : Hub) (credential reason : String) : Hub :=
  hub.removeAll (hub.tunnels.values.filter fun r => (hub.heap r).credential = some credential)
    reason

end Hub

end Tunlit.Registry.State
