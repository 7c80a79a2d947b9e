import Tunlit.Control.Handshake
import Tunlit.Logs.Connections
import Tunlit.Registry.Joiners

/-! # Relayed streams

`relayStream` of `controllers/relay.js`, over the tunnels of the registry, the log of
connections and what `intel` knows at the moment. A destroyed stream emits its error and its
close on the next tick, and the ticks that are due run before any other event. A listener
that throws ends its tick. -/
namespace Tunlit.Control.Relays
open Function Tunlit.Lib.Runs Tunlit.Access.Policy Tunlit.Registry.State Tunlit.Logs.Connections
  Tunlit.Registry.Joiners
open Tunlit.Control.Handshake (Side)

abbrev RelayRef := Nat

/-- One of the two streams of a relay, with its reader and its writer. -/
structure Stream where
  session : SessionRef
  closeReceived : Bool := false
  -- the reader has emitted `end`: what came before the CLOSE has gone on through the pipe
  ended : Bool := false
  closeSent : Bool := false
  destroyed : Bool := false
deriving DecidableEq, Repr, Inhabited

inductive Announcement where
  | «open»
  | close
deriving DecidableEq, Repr

/-- The variables of a call of `relayStream`; an announcement is kept with the session that
it is sent to. -/
structure Relay where
  tunnel : TunnelRef
  joiner : Stream
  owner : Stream
  key : Key
  announced : Bool := false
  timer : Bool := true
  reason : Option String := none
  announcements : List (Announcement × Option SessionRef) := []
deriving DecidableEq, Repr, Inhabited

def other : Side → Side
  | .owner => .joiner
  | .joiner => .owner

def Relay.stream (relay : Relay) : Side → Stream
  | .owner => relay.owner
  | .joiner => relay.joiner

def Relay.onStream (relay : Relay) (f : Stream → Stream) : Side → Relay
  | .owner => { relay with owner := f relay.owner }
  | .joiner => { relay with joiner := f relay.joiner }

/-- The events of a destroyed stream that are due. -/
structure Tick where
  relay : RelayRef
  side : Side
  error : Bool
deriving DecidableEq, Repr

structure Server where
  hub : Hub := {}
  intel : String → Intel := fun _ => {}
  log : Log := {}
  relays : RelayRef → Relay := default
  nextRelay : RelayRef := 0
  ticks : List Tick := []

namespace Server

def onRelay (s : Server) (i : RelayRef) (f : Relay → Relay) : Server :=
  { s with relays := update s.relays i (f (s.relays i)) }

def onStream (s : Server) (i : RelayRef) (side : Side) (f : Stream → Stream) : Server :=
  s.onRelay i fun relay => relay.onStream f side

/-! ## Streams -/

/-- `stream.destroy` -/
def destroy (s : Server) (i : RelayRef) (side : Side) (error : Bool) : Server :=
  if ((s.relays i).stream side).destroyed then s
  else { s.onStream i side fun stream => { stream with destroyed := true } with
    ticks := s.ticks ++ [⟨i, side, error⟩] }

/-- The session still has the stream in its map. -/
def isKnown (s : Server) (i : RelayRef) (side : Side) : Bool :=
  let stream := (s.relays i).stream side
  !stream.destroyed && !(stream.closeSent && stream.closeReceived) &&
    !(s.hub.sessions stream.session).closed

/-- A stream destroys itself when both its halves are done. -/
def autoDestroy (s : Server) (i : RelayRef) (side : Side) : Server :=
  let stream := (s.relays i).stream side
  if stream.ended && stream.closeSent then s.destroy i side false else s

/-- A stream of a session that closes. -/
def dropStream (s : Server) (x : SessionRef) (i : RelayRef) (side : Side) : Server :=
  if ((s.relays i).stream side).session = x && s.isKnown i side then s.destroy i side true else s

/-- `_onSocketClose`, up to its `close` event. -/
def dropAll (s : Server) (x : SessionRef) : Server :=
  (List.range s.nextRelay).foldl
    (fun s i => (s.dropStream x i .joiner).dropStream x i .owner) s

/-! ## The listeners of `relayStream` -/

def announce (s : Server) (i : RelayRef) (event : Announcement) : Server :=
  s.onRelay i fun relay => { relay with
    announcements := relay.announcements ++ [(event,
      (s.hub.heap relay.tunnel).session.filter fun y => !(s.hub.sessions y).closed)] }

def opened (s : Server) (i : RelayRef) : Server :=
  if (s.relays i).announced then s
  else (s.onRelay i fun relay => { relay with announced := true, timer := false }).announce i .open

def finish (s : Server) (i : RelayRef) (cause : String) : Server :=
  let s := s.onRelay i fun relay => { relay with reason := some (relay.reason.getD cause) }
  let relay := s.relays i
  if s.log.ended relay.key then s
  else
    let s := { s with log := s.log.close relay.key (relay.reason.getD cause) }
    (s.opened i).announce i .close

def isClosed (s : Server) (x : SessionRef) : Bool := (s.hub.sessions x).closed

/-- An `error` listener; none if it throws, because the tunnel has no session. -/
def onError (s : Server) (i : RelayRef) : Side → Option Server
  | .joiner =>
    let cause := if s.isClosed (s.relays i).joiner.session then "client disconnected" else "error"
    some ((s.finish i cause).destroy i .owner false)
  | .owner => (s.hub.heap (s.relays i).tunnel).session.map fun y =>
    (s.finish i (if s.isClosed y then "tunnel closed" else "error")).destroy i .joiner false

def onClose (s : Server) (i : RelayRef) : Side → Server
  | .joiner => (s.finish i "client closed").destroy i .owner false
  | .owner => (s.finish i "app closed").destroy i .joiner false

def run (s : Server) (tick : Tick) : Server :=
  if tick.error then
    match s.onError tick.relay tick.side with
    | none => s
    | some s => s.onClose tick.relay tick.side
  else s.onClose tick.relay tick.side

/-- The chunks that pass a `tap`. -/
def observe (s : Server) (i : RelayRef) (direction : Direction) (length : Nat)
    (found : Option String) : Server :=
  let key := (s.relays i).key
  let s := { s with log := s.log.data key direction length found }
  if (s.log.entries key).detail.isSome then s.opened i else s

/-- The session of the owner that `relayStream` opens a stream to for a joiner. -/
def target (s : Server) (x : SessionRef) : Option (TunnelRef × SessionRef) :=
  (joinedTo s.hub x).bind fun r =>
    if s.hub.online r then (s.hub.heap r).session.map fun y => (r, y) else none

/-- `relayStream`; `details` is the text of what `intel` says. -/
def relayStream (s : Server) (r : TunnelRef) (x y : SessionRef)
    (protocol client details : String) : Server :=
  let protocol := if protocol = "udp" then "udp" else "tcp"
  { s with
    log := s.log.open (s.hub.heap r).id protocol (s.hub.sessions x).ip details client (toString x)
    relays := update s.relays s.nextRelay
      { tunnel := r, joiner := { session := x }, owner := { session := y }, key := s.log.nextKey }
    nextRelay := s.nextRelay + 1 }

/-- An OPEN frame; a stream that is not relayed is destroyed. -/
def onOpen (s : Server) (x : SessionRef) (protocol client details : String) : Server :=
  match s.target x with
  | some (r, y) => s.relayStream r x y protocol client details
  | none => s

end Server

/-! ## The machine -/

inductive Event where
  | tick
  | hub (event : Registry.System.Event)
  | refresh (intel : String → Intel)
  | log (event : Logs.Connections.Event)
  | opens (x : SessionRef) (protocol client details : String)
  -- a RESET of the peer, or another error of a stream
  | fails (i : RelayRef) (side : Side)
  | closes (i : RelayRef) (side : Side)
  | reads (i : RelayRef) (side : Side)
  | finishes (i : RelayRef) (side : Side)
  | data (i : RelayRef) (direction : Direction) (length : Nat) (found : Option String)
  | announceTimer (i : RelayRef)

/-- The registry's part of an event; a `join` is judged by what `intel` knows. -/
def hubStep (s : Server) (event : Registry.System.Event) : Option Server :=
  match event with
  | .join x _ intel =>
    if intel = s.intel (s.hub.sessions x).ip then lift s else none
  | .socketClose x => lift (s.dropAll x)
  | _ => lift s
where
  lift (s : Server) : Option Server :=
    (Registry.System.step s.hub event).map fun hub => { s with hub := hub }

/-- The events of the log that do not come from a relay. -/
def logStep (s : Server) (event : Logs.Connections.Event) : Option Server :=
  match event with
  | .open .. | .data .. | .close .. => none
  | _ => (Logs.Connections.step s.log event).map fun log => { s with log := log }

/-- An event that is not a tick. -/
def handle (s : Server) : Event → Option Server
  | .tick => none
  | .hub event => hubStep s event
  | .refresh intel => some { s with intel := intel }
  | .log event => logStep s event
  | .opens x protocol client details =>
    if x < s.hub.nextSession && !s.isClosed x then some (s.onOpen x protocol client details)
    else none
  | .fails i side => if i < s.nextRelay then some (s.destroy i side true) else none
  | .closes i side =>
    if i < s.nextRelay && s.isKnown i side then
      some (s.onStream i side fun stream => { stream with closeReceived := true })
    else none
  | .reads i side =>
    let stream := (s.relays i).stream side
    if i < s.nextRelay && stream.closeReceived && !stream.ended && !stream.destroyed then
      some ((s.onStream i side fun stream => { stream with ended := true }).autoDestroy i side)
    else none
  | .finishes i side =>
    let stream := (s.relays i).stream side
    if i < s.nextRelay && ((s.relays i).stream (other side)).ended && !stream.closeSent &&
        !stream.destroyed then
      some ((s.onStream i side fun stream => { stream with closeSent := true }).autoDestroy i side)
    else none
  | .data i direction length found =>
    if i < s.nextRelay then some (s.observe i direction length found) else none
  | .announceTimer i =>
    if i < s.nextRelay && (s.relays i).timer then some (s.opened i) else none

def step (s : Server) (event : Event) : Option Server :=
  match s.ticks with
  | tick :: ticks =>
    match event with
    | .tick => some ({ s with ticks := ticks }.run tick)
    | _ => none
  | [] => handle s event

def machine : Machine Server Event where
  init s := ∃ config intel now, s = { hub := { config := config }, intel := intel, log := { now := now } }
  step := step

end Tunlit.Control.Relays
