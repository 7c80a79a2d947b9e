import Tunlit.Api.Tables
import Tunlit.Registry.System

/-! # Calls of the web API

The handlers of `controllers/persistent.js`, of `updateAccess` in `controllers/tunnels.js`
and of the routes that take an account or a credential away, cut at every `await`. A
statement of the database takes effect when it is issued, and its answer is kept until the
call goes on. A call ends where it has no effect any more; the answer to the browser is left
out. -/
namespace Tunlit.Api.Calls
open Tunlit.Js.Text Tunlit.Lib.Insertion Tunlit.Access.Policy Tunlit.Registry.Names
  Tunlit.Registry.State Tunlit.Registry.Register Tunlit.Registry.System Tunlit.Api.Tables

/-- The account of an API session. -/
structure Viewer where
  accountId : AccountId
  username : String
  admin : Bool := false
deriving DecidableEq, Repr

structure World where
  hub : Hub := {}
  tables : Database := {}
  byHost : OrderedMap String String := ∅
  baseDomain : String := ""

/-- What `create` works out before it waits. -/
structure Creating where
  name : String
  live : Option TunnelRef
  policy : AccessPolicy
  accountId : AccountId
deriving DecidableEq

/-- What is done with a definition that the viewer owns. -/
inductive Task where
  | updateAccess (input : PolicyInput)
  | remove
  | addDomain (hostname : String)
  | removeDomain (hostname : String)
deriving DecidableEq

/-- A call that waits. -/
inductive Job where
  -- create; the number of rows that was found is kept until the call ends
  | listed (c : Creating) (counted : Nat)
  | named (c : Creating) (counted : Nat)
  | limited (c : Creating) (counted limit : Nat)
  | looked (c : Creating) (counted : Nat) (found : Bool)
  | stored (c : Creating) (done : Bool)
  | reread (c : Creating) (definition : Option Definition)
  -- definitionFor
  | loaded (viewer : Viewer) (name : String) (task : Task) (definition : Option Definition)
  -- updateAccess of a persistent tunnel, and of a live one
  | saved (name : String) (policy : AccessPolicy)
  | accessSaved (name : String)
  -- remove
  | hostDestroyed (name hostname : String) (rest : List String)
  | hostForgotten (name : String) (rest : List String)
  | dropped (name : String)
  -- addDomain
  | domainsCounted (name hostname : String) (accountId : AccountId) (counted : Nat)
  | domainsLimited (name hostname : String) (accountId : AccountId) (counted limit : Nat)
  | domainStored (name hostname : String) (accountId : AccountId) (done : Bool)
  -- removeDomain
  | domainDestroyed (hostname : String)
  -- accounts.remove
  | accountFound (accountId : AccountId) (row : Option AccountRow)
  | adminsCounted (accountId : AccountId) (admins : Nat)
  | sessionsDestroyed (accountId : AccountId)
  | devicesDestroyed (accountId : AccountId)
  | invitesDestroyed (accountId : AccountId)
  | accountDestroyed (accountId : AccountId)
  -- devices.revoke and invites.revoke
  | credentialFound (credential : String) (found : Bool)
  | revoked (credential : String)
deriving DecidableEq

/-- A request of the web UI or of the CLI with a device's token. -/
inductive Operation where
  | create (viewer : Viewer) (name : String) (input : PolicyInput)
  | own (viewer : Viewer) (name : String) (task : Task)
  | updateAccess (viewer : Viewer) (id : String) (input : PolicyInput)
  | removeAccount (accountId : AccountId)
  | revoke (viewer : Viewer) (credential : String)
deriving DecidableEq

/-- What a turn of a call leaves, and where the call waits if it has not ended. -/
abbrev Turn := World × Option Job

namespace World

variable (world : World)

def withHub (hub : Hub) : World := { world with hub := hub }
def withTables (tables : Database) : World := { world with tables := tables }
def withHosts (byHost : OrderedMap String String) : World := { world with byHost := byHost }

def ends : Turn := (world, none)

/-! ## create -/

def wantsPolicy (input : PolicyInput) : Bool := input ≠ {}

def policyFor (input : PolicyInput) (live : Option TunnelRef) (hash : String) :
    Except Failure AccessPolicy :=
  let previous := (live.map fun r => (world.hub.heap r).policy).getD emptyPolicy
  if wantsPolicy input then buildPolicy (fun _ => hash) input previous else .ok previous

def create (viewer : Viewer) (name : String) (input : PolicyInput) (hash : String) : Turn :=
  let name := toLowerCase (trim name)
  let live := world.hub.tunnels.get name
  let owner := (live.map fun r => (world.hub.heap r).accountId).getD viewer.accountId
  if !isValidName name then world.ends
  else if owner ≠ viewer.accountId && !viewer.admin then world.ends
  else match world.policyFor input live hash with
    | .error _ => world.ends
    | .ok policy =>
      (world, some (.listed ⟨name, live, policy, owner⟩ (world.tables.persistentCount owner)))

/-- The insertion, after `findOne`. -/
def insert (c : Creating) (found : Bool) : Turn :=
  if found then world.ends
  else match world.tables.createDefinition c.name ⟨c.accountId, c.policy⟩ with
    | none => (world, some (.stored c false))
    | some tables => (world.withTables tables, some (.stored c true))

/-- The end of `create`, unless the row is gone again. -/
def keep (c : Creating) (definition : Option Definition) : Turn :=
  match definition, c.live with
  | some _, some r =>
    let hub := world.hub.onTunnel r fun tunnel => { tunnel with persistent := true }
    (world.withHub (applyLive hub c.name c.policy)).ends
  | _, _ => world.ends

/-! ## The calls on a definition -/

def mayUse (viewer : Viewer) (definition : Definition) : Bool :=
  viewer.admin || definition.accountId = viewer.accountId

/-- `removeForTunnel` from a host on, and `persistent.remove`. -/
def removeHosts (name : String) : List String → Turn
  | [] => (world.withTables (world.tables.destroyDefinition name), some (.dropped name))
  | hostname :: rest => (world.withTables (world.tables.destroyDomain hostname),
      some (.hostDestroyed name hostname rest))

def hostsFor (name : String) : List String :=
  (world.byHost.entries.filter fun entry => entry.2 = name).map Prod.fst

def perform (name : String) (definition : Definition) (hash : String) : Task → Turn
  | .updateAccess input =>
    match buildPolicy (fun _ => hash) input definition.policy with
    | .error _ => world.ends
    | .ok policy => (world.withTables (world.tables.savePolicy name policy),
        some (.saved name policy))
  | .remove => world.removeHosts name (world.hostsFor name)
  | .addDomain hostname => (world, some (.domainsCounted name hostname definition.accountId
      (world.tables.domainCount definition.accountId)))
  | .removeDomain hostname =>
    let normalized := toLowerCase (trim hostname)
    if world.byHost.get normalized = some name then
      (world.withTables (world.tables.destroyDomain normalized),
        some (.domainDestroyed normalized))
    else world.ends

/-- The definition that was loaded, if the viewer may use it. -/
def withDefinition (viewer : Viewer) (name : String) (task : Task)
    (definition : Option Definition) (hash : String) : Turn :=
  match definition with
  | none => world.ends
  | some definition =>
    if mayUse viewer definition then world.perform name definition hash task else world.ends

/-! ### Domains -/

def normalize (hostname : String) : String :=
  let name := (toLowerCase (trim hostname)).toList
  .ofList (if name.getLast? = some '.' then name.dropLast else name)

/-- `[a-z0-9](?:[a-z0-9-]{0,61}[a-z0-9])?` -/
def isLabel (label : List Char) : Bool :=
  1 ≤ label.length && label.length ≤ 63 && label.all isNameChar &&
    label.head? ≠ some '-' && label.getLast? ≠ some '-'

/-- `[a-z][a-z0-9-]{0,62}` -/
def isTopLevel (label : List Char) : Bool :=
  1 ≤ label.length && label.length ≤ 63 && label.all isNameChar &&
    label.head?.any isLower

/-- `HOSTNAME` -/
def isHostname (hostname : String) : Bool :=
  let labels := split '.' hostname.toList
  1 ≤ hostname.toList.length && hostname.toList.length ≤ 253 && 2 ≤ labels.length &&
    labels.dropLast.all isLabel && labels.getLast?.any isTopLevel

/-- `validate`: a hostname that is not under the server's own. -/
def isForeign (hostname : String) : Bool :=
  isHostname hostname && hostname ≠ world.baseDomain &&
    !("." ++ world.baseDomain).toList.isSuffixOf hostname.toList

def addDomain (name hostname : String) (accountId : AccountId) (counted limit : Nat) : Turn :=
  let hostname := normalize hostname
  if limit ≠ 0 && limit ≤ counted then world.ends
  else if !world.isForeign hostname || world.byHost.has hostname then world.ends
  else match world.tables.createDomain hostname ⟨name, accountId⟩ with
    | none => (world, some (.domainStored name hostname accountId false))
    | some tables =>
      (world.withTables tables, some (.domainStored name hostname accountId true))

/-! ## updateAccess of a live tunnel -/

def mayTouch (viewer : Viewer) (id : String) : Bool :=
  (world.hub.tunnels.get id).any fun r =>
    viewer.admin || (world.hub.heap r).accountId = viewer.accountId

def updateAccess (viewer : Viewer) (id : String) (input : PolicyInput) (hash : String) : Turn :=
  if !world.mayTouch viewer id then world.ends
  else match world.hub.tunnels.get id with
    | none => world.ends
    | some r =>
      match buildPolicy (fun _ => hash) input (world.hub.heap r).policy with
      | .error _ => world.ends
      | .ok policy =>
        let world := world.withHub (changePolicy world.hub id r policy)
        if (world.hub.heap r).persistent then
          (world.withTables (world.tables.savePolicy id policy), some (.accessSaved id))
        else world.ends

/-! ## Accounts and credentials -/

/-- The checks of `accounts.remove`, and the first statement behind them. -/
def checkAccount (accountId : AccountId) (row : Option AccountRow) : Turn :=
  match row with
  | none => world.ends
  | some row =>
    if row.admin then (world, some (.adminsCounted accountId world.tables.adminCount))
    else (world, some (.sessionsDestroyed accountId))

def mayRevoke (viewer : Viewer) (credential : String) : Bool :=
  (world.tables.credentials.get credential).any fun row =>
    viewer.admin || row.accountId = viewer.accountId

/-! ## The turns -/

/-- A call up to its first `await`. -/
def begin (hash : String) : Operation → Turn
  | .create viewer name input => world.create viewer name input hash
  | .own viewer name task =>
    (world, some (.loaded viewer name task (world.tables.definitions.get name)))
  | .updateAccess viewer id input => world.updateAccess viewer id input hash
  | .removeAccount accountId =>
    (world, some (.accountFound accountId (world.tables.accounts.get accountId)))
  | .revoke viewer credential =>
    (world, some (.credentialFound credential (world.mayRevoke viewer credential)))

/-- A call from one `await` to the next. -/
def goOn (hash : String) : Job → Turn
  | .listed c counted => (world, some (.named c counted))
  | .named c counted =>
    (world, some (.limited c counted (world.tables.limitsFor c.accountId).persistent))
  | .limited c counted limit =>
    if limit ≠ 0 && limit ≤ counted then world.ends
    else (world, some (.looked c counted (world.tables.definitions.has c.name)))
  | .looked c _ found => world.insert c found
  | .stored c done =>
    if done then (world, some (.reread c (world.tables.definitions.get c.name))) else world.ends
  | .reread c definition => world.keep c definition
  | .loaded viewer name task definition => world.withDefinition viewer name task definition hash
  | .saved name policy => (world.withHub (applyLive world.hub name policy)).ends
  | .accessSaved _ => world.ends
  | .hostDestroyed name hostname rest =>
    (world.withHosts (world.byHost.delete hostname), some (.hostForgotten name rest))
  | .hostForgotten name rest => world.removeHosts name rest
  | .dropped name =>
    match world.hub.tunnels.get name with
    | none => world.ends
    | some r =>
      (world.withHub (world.hub.onTunnel r fun tunnel => { tunnel with persistent := false })).ends
  | .domainsCounted name hostname accountId counted => (world, some (.domainsLimited name hostname
      accountId counted (world.tables.limitsFor accountId).domains))
  | .domainsLimited name hostname accountId counted limit =>
    world.addDomain name hostname accountId counted limit
  | .domainStored name hostname _ done =>
    if done then (world.withHosts (world.byHost.set hostname name)).ends else world.ends
  | .domainDestroyed hostname => (world.withHosts (world.byHost.delete hostname)).ends
  | .accountFound accountId row => world.checkAccount accountId row
  | .adminsCounted accountId admins =>
    if admins ≤ 1 then world.ends else (world, some (.sessionsDestroyed accountId))
  | .sessionsDestroyed accountId =>
    (world.withTables (world.tables.destroyCredentials accountId false),
      some (.devicesDestroyed accountId))
  | .devicesDestroyed accountId =>
    (world.withTables (world.tables.destroyCredentials accountId true),
      some (.invitesDestroyed accountId))
  | .invitesDestroyed accountId =>
    (world.withTables (world.tables.destroyAccount accountId),
      some (.accountDestroyed accountId))
  | .accountDestroyed _ => world.ends
  | .credentialFound credential found =>
    if found then
      (world.withTables (world.tables.destroyCredential credential), some (.revoked credential))
    else world.ends
  | .revoked credential =>
    (world.withHub (world.hub.closeCredential credential "revoked")).ends

end World

end Tunlit.Api.Calls
