import Tunlit.Lib.Runs
import Tunlit.Registry.Register

/-! # The server's tunnels as a machine

One event is one turn of JavaScript: a message that is handled up to its first `await`,
the continuation of a call, a socket that closes, a timer that fires or a request of the
web UI. Messages of a session are handled one after the other, so a session whose
`register` waits takes no other message. When a socket closes and when a timer fires is
left open, as is what the database answers. -/
namespace Tunlit.Registry.System
open Tunlit.Lib.Runs Tunlit.Access.Policy Tunlit.Registry.Names Tunlit.Registry.State
  Tunlit.Registry.Register

inductive Event where
  | tick (ms : Nat)
  | configure (config : Config)
  | sweep
  | connect (ip : String)
  -- the WebSocket of a session begins to close, and has closed
  | wsCloses (x : SessionRef)
  | socketClose (x : SessionRef)
  -- the messages of a session
  | hello (x : SessionRef) (answer : Except Failure Role)
  | unexpected (x : SessionRef)
  | bye (x : SessionRef)
  | join (x : SessionRef) (code : Option String) (intel : Intel)
  | register (x : SessionRef) (request : Request) (draw : Draw)
  | proceed (x : SessionRef) (answer : Answer) (draw : Draw)
  | reply (x : SessionRef)
  | handshakeTimeout (x : SessionRef)
  | graceFires (timer : TimerRef)
  -- the web UI, the quotas and a credential that is revoked
  | remove (id : String)
  | closeFor (accountId : AccountId)
  | closeCredential (credential : String)
  | updateAccess (id : String) (input : PolicyInput) (hash : String)
  | applyLive (id : String) (policy : AccessPolicy)
  | setPersistent (r : TunnelRef) (persistent : Bool)

/-! ## Handlers -/

/-- What happened to `register`, for the session. -/
def settle (hub : Hub) (x : SessionRef) (call : Call) : Outcome → Hub
  | .waits point => hub.onSession x fun session =>
      { session with phase := .registering { call with point := point } }
  | .threw failure => hub.onSession x fun session =>
      { session.fail failure with phase := .setup (.owner call.owner) }

def handleRegister (hub : Hub) (x : SessionRef) (request : Request) (draw : Draw) : Option Hub :=
  match (hub.sessions x).phase with
  | .setup (.owner owner) =>
    match callFor hub.config owner request with
    | .error failure => some (hub.onSession x fun session => session.fail failure)
    | .ok call =>
      let (hub, outcome) := start hub x call draw
      some (settle hub x call outcome)
  | _ => none

def handleProceed (hub : Hub) (x : SessionRef) (answer : Answer) (draw : Draw) : Option Hub :=
  match (hub.sessions x).phase with
  | .registering call =>
    (Register.proceed hub x call answer draw).map fun (hub, outcome) => settle hub x call outcome
  | _ => none

/-- The control server behind `await registry.register`. -/
def handleReply (hub : Hub) (x : SessionRef) : Option Hub :=
  match (hub.sessions x).phase with
  | .registering { owner, point := .returned r resumed, .. } =>
    let tunnel := hub.heap r
    some (hub.onSession x fun session =>
      { session with phase := .ready (.owner owner) }.sendControl (.registered tunnel.id tunnel.mode
        tunnel.persistent tunnel.shareCode tunnel.resumeToken resumed))
  | _ => none

def invalidCode : Failure := ⟨"Invalid share code", "invalid_code"⟩

/-- The tunnel that a share code opens to an address. -/
def joinedBy (hub : Hub) (code : Option String) (ip : String) (intel : Intel) :
    Except Failure TunnelRef :=
  match splitShareCode code with
  | none => .error invalidCode
  | some parts =>
    match hub.tunnels.get parts.id with
    | none => .error invalidCode
    | some r =>
      let tunnel := hub.heap r
      if tunnel.mode ≠ .tcp || tunnel.secret ≠ some parts.secret then .error invalidCode
      else if (evaluate tunnel.policy ip intel).isSome then
        .error ⟨"Your address is not allowed to use this tunnel", "forbidden"⟩
      else .ok r

def handleJoin (hub : Hub) (x : SessionRef) (code : Option String) (intel : Intel) : Option Hub :=
  match (hub.sessions x).phase with
  | .setup .joiner =>
    match joinedBy hub code (hub.sessions x).ip intel with
    | .error failure => some (hub.onSession x fun session => session.fail failure)
    | .ok r =>
      let tunnel := hub.heap r
      let message := Control.joined tunnel.id tunnel.target.port (hub.online r)
      let hub := hub.onTunnel r fun tunnel => { tunnel with joiners := tunnel.joiners ++ [x] }
      some (hub.onSession x fun session =>
        { session with
          tunnel := some r
          closeListeners := session.closeListeners ++ [Listener.joiner r]
          phase := .ready Role.joiner }.sendControl message)
  | _ => none

def handleHello (hub : Hub) (x : SessionRef) (answer : Except Failure Role) : Option Hub :=
  if (hub.sessions x).phase ≠ .hello then none else
  match answer with
  | .error failure => some (hub.onSession x fun session => session.fail failure)
  | .ok role => some (hub.onSession x fun session =>
      { session with phase := .setup role }.sendControl .hello)

/-- A message that is not the one that is due. -/
def handleUnexpected (hub : Hub) (x : SessionRef) : Option Hub :=
  match (hub.sessions x).phase with
  | .hello => some (failing "expected hello")
  | .setup (.owner _) => some (failing "expected register")
  | .setup .joiner => some (failing "expected join")
  | _ => none
where
  failing (message : String) : Hub := hub.onSession x fun session => session.fail (badRequest message)

/-- A policy that is changed from the web UI: what was granted under the old one is void. -/
def changePolicy (hub : Hub) (id : String) (r : TunnelRef) (policy : AccessPolicy) : Hub :=
  { hub.onTunnel r fun tunnel => { tunnel with policy := policy } with
    access := hub.access.forget id }

def updateAccess (hub : Hub) (id : String) (input : PolicyInput) (hash : String) : Hub :=
  match hub.tunnels.get id with
  | none => hub
  | some r =>
    match buildPolicy (fun _ => hash) input (hub.heap r).policy with
    | .error _ => hub
    | .ok policy => changePolicy hub id r policy

def applyLive (hub : Hub) (id : String) (policy : AccessPolicy) : Hub :=
  match hub.tunnels.get id with
  | none => hub
  | some r => changePolicy hub id r policy

/-! ## The machine -/

def busy (hub : Hub) (x : SessionRef) : Bool :=
  match (hub.sessions x).phase with
  | .registering _ => true
  | _ => false

def isReady (hub : Hub) (x : SessionRef) : Bool :=
  match (hub.sessions x).phase with
  | .ready _ => true
  | _ => false

def step (hub : Hub) : Event → Option Hub
  | .tick ms => some { hub with now := hub.now + ms }
  | .configure config => some { hub with config := config }
  | .sweep => some { hub with access := hub.access.sweep hub.now }
  | .connect ip => some { hub with
      sessions := Function.update hub.sessions hub.nextSession { ip := ip }
      nextSession := hub.nextSession + 1 }
  | .wsCloses x =>
    if x < hub.nextSession then some (hub.onSession x Session.close) else none
  | .socketClose x =>
    if x < hub.nextSession && !(hub.sessions x).closed then some (hub.onSocketClose x) else none
  | .hello x answer => if x < hub.nextSession then handleHello hub x answer else none
  | .unexpected x => if x < hub.nextSession then handleUnexpected hub x else none
  | .bye x =>
    if x < hub.nextSession && !busy hub x then
      some (hub.onSession x fun session => { session with saidBye := true }.close)
    else none
  | .join x code intel => if x < hub.nextSession then handleJoin hub x code intel else none
  | .register x request draw =>
    if x < hub.nextSession then handleRegister hub x request draw else none
  | .proceed x answer draw =>
    if x < hub.nextSession then handleProceed hub x answer draw else none
  | .reply x => if x < hub.nextSession then handleReply hub x else none
  | .handshakeTimeout x =>
    if x < hub.nextSession && !(hub.sessions x).closed && !isReady hub x then
      some (hub.onSession x fun session => session.fail (badRequest "handshake timeout"))
    else none
  | .graceFires timer =>
    (hub.timers.find? fun t => t.1 = timer).map fun t => hub.onGraceTimer timer t.2
  | .remove id => some (hub.remove id "closed from the web UI")
  | .closeFor accountId => some (hub.closeFor accountId "monthly traffic limit reached")
  | .closeCredential credential => some (hub.closeCredential credential "revoked")
  | .updateAccess id input hash => some (updateAccess hub id input hash)
  | .applyLive id policy => some (applyLive hub id policy)
  | .setPersistent r persistent =>
    if r < hub.nextTunnel then
      some (hub.onTunnel r fun tunnel => { tunnel with persistent := persistent })
    else none

def machine : Machine Hub Event where
  init hub := ∃ config, hub = { config := config }
  step := step

abbrev Reachable : Hub → Prop := machine.Reachable

/-! ## Sample events -/

def alice : Owner := ⟨⟨1, "alice", false⟩, "device:1", none⟩
def bob : Owner := ⟨⟨2, "bob", false⟩, "device:2", none⟩

/-- Random values with a given resume token. -/
def drawn (token : String) : Draw where
  resumeToken := token
  secret := ⟨List.replicate SECRET_LENGTH 'x', by decide⟩
  hash := ""

/-- A session that asks for the name `web` and waits for its limit of tunnels. -/
def asking (x : SessionRef) (owner : Owner) : List Event :=
  [.connect "192.0.2.1", .hello x (.ok (.owner owner)),
    .register x { mode := "http", target := some "80", name := some "web" } (drawn "")]

/-- The answers that let the call of `asking` go on until it returns. -/
def granted (x : SessionRef) (token : String) : List Event :=
  [.proceed x (.limit 0) (drawn token), .proceed x (.limit 0) (drawn token),
    .proceed x (.definition none) (drawn token)]

end Tunlit.Registry.System
