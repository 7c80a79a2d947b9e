import Tunlit.Lib.Runs
import Tunlit.Registry.Register

/-! # A connection of a CLI

`controllers/control.js` for one WebSocket. Control messages are handled one after the other;
`handle` is cut at every `await`, and what the accounts, the invites and the registry answer
is part of the event. An OPEN frame is handled at once, by the listener of this file and by
that of `attachJoiner`. `log` is what has happened so far. -/
namespace Tunlit.Control.Handshake
open Tunlit.Lib.Runs Tunlit.Access.Policy Tunlit.Registry.State Tunlit.Registry.Register

def PROTOCOL_VERSION : Nat := 1

inductive Side where
  | owner
  | joiner
deriving DecidableEq, Repr

inductive Stage where
  | hello
  | setup
  | ready
deriving DecidableEq, Repr

/-- A control message: its type, and the fields that some handler reads. -/
structure Message where
  type : String
  version : Option Nat := none
  role : Option String := none
  token : Option String := none
  code : Option String := none
  request : Request := { mode := "", target := none }
deriving DecidableEq

/-- What `deviceFor` finds behind a token. -/
structure Device where
  accountId : AccountId
  credential : String
  guest : Option String := none
deriving DecidableEq, Repr

/-- The promise that `handle` waits for. -/
inductive Await where
  | device (presented : Option String)
  | account (presented : Option String) (device : Device)
  | used
  | register (request : Request)
deriving DecidableEq

inductive Answer where
  | device (device : Option Device)
  | account (account : Option Account)
  | used
  | registered (tunnel : TunnelRef) (message : Except Failure Control)
  | rejected (failure : Failure)
deriving DecidableEq

/-- What the listeners of `stream` make of an OPEN frame. -/
structure Verdict where
  created : Bool
  destroyed : Bool
  reached : Option TunnelRef
deriving DecidableEq, Repr

inductive Milestone where
  | asked (message : Message)
  | resolved (presented : Option String) (device : Device) (account : Account)
  | registered (tunnel : TunnelRef)
  | joined (code : Option String) (tunnel : TunnelRef)
  | ready (role : Side)
  | opened (stream : Nat) (verdict : Verdict)
deriving DecidableEq

structure Connection where
  headerToken : Option String := none
  state : Stage := .hello
  role : Option Side := none
  account : Option Account := none
  credential : Option String := none
  guest : Option String := none
  saidBye : Bool := false
  closed : Bool := false
  wsOpen : Bool := true
  queue : List Message := []
  awaiting : Option Await := none
  -- the tunnel that the listener of `attachJoiner` holds
  attached : Option TunnelRef := none
  streams : List Nat := []
  sent : List Control := []
  log : List Milestone := []

/-- `registry.join` at some moment, with the message for its tunnel. -/
abbrev Join := Option String → Except Failure (TunnelRef × Control)

namespace Connection

def sendControl (c : Connection) (message : Control) : Connection :=
  if c.closed || !c.wsOpen then c else { c with sent := c.sent ++ [message] }

def fail (c : Connection) (failure : Failure) : Connection :=
  { c.sendControl (.error failure) with wsOpen := false }

def note (c : Connection) (milestone : Milestone) : Connection :=
  { c with log := c.log ++ [milestone] }

def roleOf : Option String → Option Side
  | some "joiner" => some .joiner
  | some "owner" => some .owner
  | _ => none

/-- `headerToken || message.token` -/
def presented (c : Connection) (message : Message) : Option String :=
  match c.headerToken with
  | none | some "" => message.token
  | some token => some token

/-- The end of the handling of `hello`. -/
def greet (c : Connection) : Connection := { c.sendControl .hello with state := .setup }

def unsupported (version : Option Nat) : Failure :=
  ⟨"unsupported protocol version " ++ version.elim "undefined" toString, "unsupported_version"⟩

def handleHello (c : Connection) (message : Message) : Connection :=
  if message.type ≠ "hello" then c.fail (badRequest "expected hello")
  else if message.version ≠ some PROTOCOL_VERSION then c.fail (unsupported message.version)
  else
    let c := { c with role := roleOf message.role }
    match c.role with
    | none => c.fail (badRequest "role must be owner or joiner")
    | some .owner => { c.note (.asked message) with awaiting := some (.device (c.presented message)) }
    | some .joiner => c.greet

def handleJoin (c : Connection) (message : Message) (join : Join) : Connection :=
  if message.type ≠ "join" then c.fail (badRequest "expected join")
  else match join message.code with
    | .error failure => c.fail failure
    | .ok (tunnel, reply) =>
      { (c.note (.joined message.code tunnel)).note (.ready .joiner) with
        state := .ready
        attached := some tunnel }.sendControl reply

/-- `handle` up to its first `await`. -/
def handle (c : Connection) (message : Message) (join : Join) : Connection :=
  if message.type = "bye" then { c with saidBye := true, wsOpen := false }
  else match c.state with
    | .hello => c.handleHello message
    | .setup =>
      if c.role = some .owner then
        if message.type ≠ "register" then c.fail (badRequest "expected register")
        else { c with awaiting := some (.register message.request) }
      else c.handleJoin message join
    | .ready => c

def unauthorized (message : String) : Failure := ⟨message, "unauthorized"⟩

/-- `handle` from one `await` to the next; none when the answer is not one to what it waits
for. -/
def resume (c : Connection) (await : Await) (answer : Answer) : Option Connection :=
  let c := { c with awaiting := none }
  match await, answer with
  | _, .rejected failure => some (c.fail failure)
  | .device _, .device none => some (c.fail (unauthorized "invalid token"))
  | .device presented, .device (some device) =>
    some { c with awaiting := some (.account presented device) }
  | .account .., .account none =>
    some ({ c with account := none }.fail
      (unauthorized "the account behind this device is gone"))
  | .account presented device, .account (some account) =>
    let c := { c.note (.resolved presented device account) with
      account := some account
      credential := some device.credential }
    match device.guest with
    | some label => some { c with guest := some label, awaiting := some .used }
    | none => some c.greet
  | .used, .used => some c.greet
  | .register _, .registered tunnel reply =>
    let c := { (c.note (.registered tunnel)).note (.ready .owner) with state := .ready }
    match reply with
    | .error failure => some (c.fail failure)
    | .ok message => some (c.sendControl message)
  | _, _ => none

/-! ## Streams -/

/-- The `stream` listener of the control server destroys the stream. -/
def unexpected (c : Connection) : Bool := c.role ≠ some .joiner || c.state ≠ .ready

def verdict (c : Connection) (id : Nat) : Verdict :=
  if id ∈ c.streams then ⟨false, false, none⟩
  else ⟨true, c.unexpected, c.attached⟩

/-- An OPEN frame; a destroyed stream is forgotten at once. -/
def onOpen (c : Connection) (id : Nat) : Connection :=
  let verdict := c.verdict id
  { c.note (.opened id verdict) with
    streams := if verdict.created && !verdict.destroyed then c.streams ++ [id] else c.streams }

end Connection

/-! ## The machine -/

inductive Event where
  | control (message : Message)
  | next (join : Join)
  | resume (answer : Answer)
  | opens (id : Nat)
  | forget (id : Nat)
  | timeout
  | wsCloses
  | socketClose

def step (c : Connection) : Event → Option Connection
  | .control message =>
    if c.closed then none
    else if message.type = "ping" || message.type = "pong" then some c
    else some { c with queue := c.queue ++ [message] }
  | .next join =>
    match c.awaiting, c.queue with
    | none, message :: queue => some ({ c with queue := queue }.handle message join)
    | _, _ => none
  | .resume answer => c.awaiting.bind fun await => c.resume await answer
  | .opens id => if c.closed then none else some (c.onOpen id)
  | .forget id => some { c with streams := c.streams.filter (· ≠ id) }
  | .timeout =>
    if c.closed || c.state = .ready then none
    else some (c.fail (badRequest "handshake timeout"))
  | .wsCloses => some { c with wsOpen := false }
  | .socketClose =>
    if c.closed then none
    else some { c with closed := true, wsOpen := false, streams := [] }

def machine : Machine Connection Event where
  init c := ∃ headerToken, c = { headerToken := headerToken }
  step := step

end Tunlit.Control.Handshake
