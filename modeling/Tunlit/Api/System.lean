import Tunlit.Api.Calls
import Tunlit.Lib.Runs

/-! # The server with its database

The tunnels of the registry, the calls of the web API and the tables between them, as one
machine. A `register` call of the registry issues its statements where it comes to wait, and
the answer is kept until it goes on; so does the control server while a `hello` message is
checked. When an answer arrives is left open. -/
namespace Tunlit.Api.System
open Function Tunlit.Lib.Runs Tunlit.Lib.Insertion Tunlit.Access.Policy Tunlit.Registry.State
  Tunlit.Registry.Register Tunlit.Api.Tables Tunlit.Api.Calls

/-- A `hello` message whose sender is being looked up. -/
inductive Greeting where
  | device (token : String) (found : Option (String × CredentialRow))
  | invite (found : Option (String × CredentialRow))
  | account (credential : String) (row : CredentialRow) (found : Option AccountRow)
deriving DecidableEq

abbrev JobRef := Nat

structure Server where
  world : World := {}
  -- the answer to the promise that the call of a session waits for
  answers : SessionRef → Answer := fun _ => .saved
  greetings : SessionRef → Option Greeting := fun _ => none
  jobs : JobRef → Option Job := fun _ => none
  nextJob : JobRef := 0

inductive Event where
  -- an event of the registry that asks nothing of the database
  | hub (e : Registry.System.Event)
  -- a `hello` message with a token, its lookups, and its end
  | hello (x : SessionRef) (token : String)
  | greet (x : SessionRef)
  -- a `register` message, and its continuation; `bytes` is what the quotas find
  | register (x : SessionRef) (request : Request) (draw : Draw) (bytes : Nat)
  | proceed (x : SessionRef) (draw : Draw) (bytes : Nat)
  -- a call of the API, and its continuation
  | call (operation : Operation) (hash : String)
  | goOn (j : JobRef) (hash : String)
  -- accounts, devices and invites that are made, and accounts that are changed
  | putAccount (accountId : AccountId) (row : AccountRow)
  | createCredential (credential : String) (row : CredentialRow)

/-! ## Statements of the registry -/

/-- The statement that a call of `register` issues where it waits, and its answer. -/
def issue (world : World) (call : Call) (bytes : Nat) : Database × Answer :=
  let limits := world.tables.limitsFor call.owner.account.id
  let saved := fun r => world.tables.savePolicy (world.hub.heap r).id (world.hub.heap r).policy
  match call.point with
  | .resumeSaved r => (saved r, .saved)
  | .tunnels _ => (world.tables, .limit limits.tunnels)
  | .traffic => (world.tables, .limit limits.traffic)
  | .usage _ => (world.tables, .usage bytes)
  | .named _ name => (world.tables, .definition (world.tables.definitions.get name))
  | .random _ _ id => (world.tables, .definition (world.tables.definitions.get id.1))
  | .policySaved r => (saved r, .saved)
  | .returned .. => (world.tables, .saved)

namespace Server

variable (s : Server)

def withHub (hub : Hub) : Server := { s with world := s.world.withHub hub }

def withTables (tables : Database) : Server := { s with world := s.world.withTables tables }

/-- The server when the call of a session has taken its turn. -/
def awaiting (x : SessionRef) (bytes : Nat) (hub : Hub) : Server :=
  match (hub.sessions x).phase with
  | .registering call =>
    let world := s.world.withHub hub
    { s with
      world := world.withTables (issue world call bytes).1
      answers := update s.answers x (issue world call bytes).2 }
  | _ => s.withHub hub

/-! ## hello -/

def withGreeting (x : SessionRef) (greeting : Option Greeting) : Server :=
  { s with greetings := update s.greetings x greeting }

def startsHello (x : SessionRef) (token : String) : Option Server :=
  if (s.world.hub.sessions x).phase = .hello ∧ s.greetings x = none ∧
      x < s.world.hub.nextSession then
    some (s.withGreeting x (some (.device token (s.world.tables.credentialOf token false))))
  else none

/-- The registry's end of `hello`. -/
def helloed (x : SessionRef) (answer : Except Failure Role) : Option Server :=
  (Registry.System.step s.world.hub (.hello x answer)).map fun hub =>
    (s.withHub hub).withGreeting x none

def unauthorized (message : String) : Failure := ⟨message, "unauthorized"⟩

def ownerOf (credential : String) (row : CredentialRow) (account : AccountRow) : Owner :=
  ⟨⟨row.accountId, account.username, account.admin⟩, credential, row.label⟩

def greet (x : SessionRef) : Option Server :=
  match s.greetings x with
  | none => none
  | some (.device token none) =>
    some (s.withGreeting x (some (.invite (s.world.tables.credentialOf token true))))
  | some (.device _ (some (credential, row))) => some (accountOf credential row)
  | some (.invite none) => s.helloed x (.error (unauthorized "invalid token"))
  | some (.invite (some (credential, row))) => some (accountOf credential row)
  | some (.account _ _ none) =>
    s.helloed x (.error (unauthorized "the account behind this device is gone"))
  | some (.account credential row (some account)) =>
    s.helloed x (.ok (.owner (ownerOf credential row account)))
where
  accountOf (credential : String) (row : CredentialRow) : Server :=
    s.withGreeting x (some (.account credential row (s.world.tables.accounts.get row.accountId)))

/-! ## The API -/

def took (turn : Turn) (j : JobRef) : Server :=
  { s with world := turn.1, jobs := update s.jobs j turn.2 }

def begin (operation : Operation) (hash : String) : Server :=
  { s.took (s.world.begin hash operation) s.nextJob with nextJob := s.nextJob + 1 }

def goOn (j : JobRef) (hash : String) : Option Server :=
  (s.jobs j).map fun job => s.took (s.world.goOn hash job) j

end Server

/-! ## The machine -/

/-- Events of the registry that are taken as they are; a message of a session waits until an
earlier one has been handled. -/
def isFree (s : Server) : Registry.System.Event → Bool
  | .hello _ (.ok (.owner _)) | .register .. | .proceed .. | .closeCredential _ |
    .updateAccess .. | .applyLive .. | .setPersistent .. => false
  | .hello x _ | .unexpected x | .bye x => (s.greetings x).isNone
  | _ => true

def step (s : Server) : Event → Option Server
  | .hub e => if isFree s e then (Registry.System.step s.world.hub e).map s.withHub else none
  | .hello x token => s.startsHello x token
  | .greet x => s.greet x
  | .register x request draw bytes =>
    (Registry.System.step s.world.hub (.register x request draw)).map (s.awaiting x bytes)
  | .proceed x draw bytes =>
    (Registry.System.step s.world.hub (.proceed x (s.answers x) draw)).map (s.awaiting x bytes)
  | .call operation hash => some (s.begin operation hash)
  | .goOn j hash => s.goOn j hash
  | .putAccount accountId row => (s.world.tables.putAccount accountId row).map s.withTables
  | .createCredential credential row =>
    (s.world.tables.createCredential credential row).map s.withTables

/-- The hosts are those of the rows when the server starts. -/
def machine : Machine Server Event where
  init s := Registry.System.machine.init s.world.hub ∧
    (∀ hostname, s.world.byHost.get hostname =
      (s.world.tables.domains.get hostname).map DomainRow.tunnelName) ∧
    (∀ x, s.greetings x = none) ∧ ∀ j, s.jobs j = none
  step := step

abbrev Reachable : Server → Prop := machine.Reachable

/-! ## Sample runs -/

/-- Two accounts with a device each. -/
def sampleTables (limits : Limits) : Database where
  accounts := (OrderedMap.empty.set 1 ⟨"alice", false, limits⟩).set 2 ⟨"bob", false, limits⟩
  credentials := (OrderedMap.empty.set "device:1" ⟨1, "t1", none⟩).set "device:2" ⟨2, "t2", none⟩
  usedAccounts := [1, 2]
  usedCredentials := ["device:1", "device:2"]

def sample (limits : Limits) : Server :=
  { world := { tables := sampleTables limits, baseDomain := "tunlit.test" } }

theorem sample_init (limits : Limits) : machine.init (sample limits) :=
  ⟨⟨{}, rfl⟩, fun _ => rfl, fun _ => rfl, fun _ => rfl⟩

def alice : Viewer := ⟨1, "alice", false⟩
def bob : Viewer := ⟨2, "bob", false⟩

/-- A CLI connects and is let in with its token. -/
def signsIn (x : SessionRef) (token : String) : List Event :=
  [.hub (.connect "192.0.2.1"), .hello x token, .greet x, .greet x]

/-- It asks for a name, and waits for its limit of tunnels. -/
def asks (x : SessionRef) (name : String) : Event :=
  .register x { mode := "http", target := some "80", name := some name }
    (Registry.System.drawn name) 0

/-- The call of `register` goes on. -/
def proceeds (x : SessionRef) : Event := .proceed x (Registry.System.drawn "") 0

/-- A call of the API that takes `n` turns behind its first one. -/
def calls (j : JobRef) (operation : Operation) (n : Nat) : List Event :=
  .call operation "" :: List.replicate n (.goOn j "")

end Tunlit.Api.System
