import Mathlib.Logic.Function.Basic
import Tunlit.Lib.Runs
import Tunlit.WebSocket.Parser

/-! # Upgraded connections

`proxyUpgrade` of `lib/proxy.js` with the frame log of `lib/wsframes.js` and the route that
injects a message. A chunk passes the tap of its direction, which shows it to a parser,
and is written to the other side some time later; an injected frame is written at once.
The key of a masked frame, and how the bytes are cut, are part of the events. -/
namespace Tunlit.WebSocket.Upgrade
open Function Tunlit.Lib.Runs Tunlit.WebSocket.Frames Tunlit.WebSocket.Parser

/-! ## The log of frames -/

def MAX_PAYLOAD : Nat := 16 * 1024

/-- The longest body of a request to the API. -/
def MAX_BODY : Nat := 64 * 1024

/-- `in` from the visitor to the app, `out` the other way. -/
inductive Direction where
  | incoming
  | outgoing
deriving DecidableEq, Repr

structure Record where
  direction : Direction
  opcode : Nat
  bytes : Nat
  payload : Option Bytes
  truncated : Bool
  /-- not a column of the log: the message was injected -/
  injected : Bool := false
deriving DecidableEq, Repr

def record (direction : Direction) (message : Message) : Record where
  direction := direction
  opcode := message.opcode
  bytes := message.payload.length
  payload := if message.payload = [] then none else some (message.payload.take MAX_PAYLOAD)
  truncated := MAX_PAYLOAD < message.payload.length

/-! ## Connections -/

structure Request where
  method : String
  path : String
  /-- the headers for the app, with `connection` and `upgrade` -/
  headers : List (String × String)
  /-- what came in behind the head of the request -/
  head : Bytes
  ip : String
  host : String
  connection : String
deriving DecidableEq

/-- The head of the request, as it is written to the app. -/
def Request.raw (request : Request) : Bytes :=
  let line := request.method ++ " " ++ request.path ++ " HTTP/1.1\r\n"
  let fields := request.headers.map fun (name, value) => name ++ ": " ++ value ++ "\r\n"
  (line ++ String.join fields ++ "\r\n").toUTF8.toList

structure Entry where
  method : String
  path : String
  status : Nat
  ip : String
  host : String
  connection : String
deriving DecidableEq

/-- One direction of a connection. -/
structure Flow where
  parser : FrameParser
  /-- what the sender has yet to send -/
  unread : Bytes
  /-- what the tap has let through and is not written yet -/
  held : Bytes := []
  delivered : Bytes := []
  ended : Bool := false
  /-- what of the sender's bytes is delivered -/
  forwarded : Bytes := []
  /-- the messages that were injected -/
  injected : List Bytes := []

structure Connection where
  flow : Direction → Flow
  entry : Entry
  /-- the log has writers for the connection -/
  isOpen : Bool := true
  destroyed : Bool := false
  pending : List Record := []

/-- The connection when `proxyUpgrade` returns, with what either side is going to send. -/
def proxyUpgrade (request : Request) (visitor app : Bytes) : Connection :=
  let incoming := FrameParser.new false
  let (incoming, messages) :=
    if request.head = [] then (incoming, []) else incoming.push request.head
  { flow := fun
      | .incoming =>
        { parser := incoming
          unread := visitor
          delivered := request.raw ++ request.head
          forwarded := request.head }
      | .outgoing => { parser := .new true, unread := app }
    entry :=
      { method := request.method
        path := request.path
        status := 101
        ip := request.ip
        host := request.host
        connection := request.connection }
    pending := messages.map (record .incoming) }

namespace Connection

def onFlow (c : Connection) (d : Direction) (f : Flow → Flow) : Connection :=
  { c with flow := update c.flow d (f (c.flow d)) }

/-- A chunk of `n` bytes comes in and passes the tap. -/
def read (c : Connection) (d : Direction) (n : Nat) : Connection :=
  let chunk := (c.flow d).unread.take n
  let (parser, messages) := (c.flow d).parser.push chunk
  { c.onFlow d fun flow => { flow with
      parser
      unread := flow.unread.drop n
      held := flow.held ++ chunk } with
    pending := c.pending ++ messages.map (record d) }

/-- The next `n` bytes behind the tap are written to the other side. -/
def write (c : Connection) (d : Direction) (n : Nat) : Connection :=
  c.onFlow d fun flow => { flow with
    held := flow.held.drop n
    delivered := flow.delivered ++ flow.held.take n
    forwarded := flow.forwarded ++ flow.held.take n }

/-- `writers[direction](payload)`. What is written after the end fails the connection, and
what is written to a destroyed socket is dropped. -/
def writer (c : Connection) (d : Direction) (payload : Bytes) (key : Key) : Connection :=
  let frame := encodeFrame 1 payload (if d = .incoming then some key else none)
  if c.destroyed then c
  else if (c.flow d).ended then { c with destroyed := true }
  else c.onFlow d fun flow => { flow with delivered := flow.delivered ++ frame }

def inject (c : Connection) (d : Direction) (payload : Bytes) (key : Key) : Connection × Bool :=
  if c.isOpen then
    let c := c.writer d payload key
    let c := c.onFlow d fun flow => { flow with injected := flow.injected ++ [payload] }
    ({ c with pending := c.pending ++ [{ record d ⟨1, payload⟩ with injected := true }] }, true)
  else (c, false)

end Connection

inductive Event where
  | read (d : Direction) (n : Nat)
  | write (d : Direction) (n : Nat)
  /-- the sender has ended its side and everything is written -/
  | finish (d : Direction)
  | inject (d : Direction) (text : Bytes) (key : Key)
  /-- `bail`, or either side is closed -/
  | destroy
  /-- the `close` event of the socket -/
  | closed
deriving DecidableEq

def step (c : Connection) : Event → Option Connection
  | .read d n =>
    if c.destroyed || (c.flow d).ended || (c.flow d).unread.length < n then none
    else some (c.read d n)
  | .write d n =>
    if c.destroyed || (c.flow d).held.length < n then none else some (c.write d n)
  | .finish d =>
    if c.destroyed || (c.flow d).held ≠ [] then none
    else some (c.onFlow d fun flow => { flow with ended := true })
  | .inject d text key =>
    if text = [] || MAX_BODY < text.length then none else some (c.inject d text key).1
  | .destroy => some { c with destroyed := true }
  | .closed => if c.destroyed then some { c with isOpen := false } else none

def machine (request : Request) (visitor app : Bytes) : Machine Connection Event where
  init c := c = proxyUpgrade request visitor app
  step := step

end Tunlit.WebSocket.Upgrade
