import Tunlit.Registry.State

/-! # Registering a tunnel

`register` and `_allocateId` of `lib/registry.js`, cut at every `await`: a call runs until
it waits, throws or returns, and goes on with the answer of the database or the quotas.
`_attach` is always the last step, so a call that returns has attached its tunnel. -/
namespace Tunlit.Registry.Register
open Tunlit.Js.Text Tunlit.Access.Policy Tunlit.Registry.Names Tunlit.Registry.State

/-- What `persistent.load` returns for a name. -/
structure Definition where
  accountId : AccountId
  policy : AccessPolicy
deriving DecidableEq

inductive Answer where
  | saved
  | limit (limit : Nat)
  | usage (bytes : Nat)
  | definition (definition : Option Definition)
  | rejected (message : String)
deriving DecidableEq

/-- The random values that a turn may draw, and the salted hash of the password it is given. -/
structure Draw where
  ids : List RandomId := []
  resumeToken : String
  secret : Secret
  hash : String
deriving DecidableEq

inductive Outcome where
  | waits (point : Point)
  | threw (failure : Failure)
deriving DecidableEq

def badRequest (message : String) : Failure := ⟨message, "bad_request"⟩
def quotaExceeded (message : String) : Failure := ⟨message, "quota_exceeded"⟩

/-- `_findByResumeToken`: the first tunnel of the map with that token. -/
def findByResumeToken (hub : Hub) (token : String) : Option TunnelRef :=
  hub.tunnels.values.find? fun r => (hub.heap r).resumeToken = token

/-- The tunnel that the message asks to resume. -/
def existingFor (hub : Hub) (call : Call) : Option TunnelRef :=
  match call.request.resume with
  | none | some "" => none
  | some token =>
    (findByResumeToken hub token).filter fun r =>
      (hub.heap r).mode = call.mode && (hub.heap r).accountId = call.owner.account.id

/-! ## The name -/

/-- `_allocateId` with a name, up to the database. -/
def checkName (hub : Hub) (requested : String) : Except Failure String :=
  let name := toLowerCase requested
  if isReserved name then
    .error ⟨"The name \"" ++ name ++ "\" is taken by the server itself", "invalid_name"⟩
  else if !isValidName name then
    .error ⟨"Invalid name \"" ++ name ++ "\": use 3-32 characters a-z, 0-9 or \"-\"",
      "invalid_name"⟩
  else if hub.tunnels.has name then
    .error ⟨"The name \"" ++ name ++ "\" is already in use", "name_taken"⟩
  else .ok name

/-- The loop of `_allocateId` over random ids, up to the database; none when it draws more
ids than there are. -/
def drawId (hub : Hub) (previous : Option ShareCode) : Nat → List RandomId → Option Outcome
  | 0, _ => some (.threw (badRequest "Could not allocate a tunnel id"))
  | _ + 1, [] => none
  | left + 1, id :: ids =>
    if !hub.tunnels.has id.1 && !isReserved id.1 then some (.waits (.random previous left id))
    else drawId hub previous left ids

def previousFor (call : Call) : Option ShareCode :=
  if call.mode = .tcp then splitShareCode call.request.share else none

/-- The name of the message, else the id of the share code if that is free. -/
def wantedFor (hub : Hub) (call : Call) (previous : Option ShareCode) : Option String :=
  match call.request.name with
  | some name => if name ≠ "" then some name else freeId
  | none => freeId
where
  freeId : Option String := previous.bind fun code =>
    if hub.tunnels.has code.id then none else some code.id

def allocateId (hub : Hub) (call : Call) (draw : Draw) : Option Outcome :=
  let previous := previousFor call
  match wantedFor hub call previous with
  | none | some "" => drawId hub previous 50 draw.ids
  | some requested =>
    match checkName hub requested with
    | .error failure => some (.threw failure)
    | .ok name => some (.waits (.named previous name))

/-! ## The tunnel -/

/-- `tunnels.set` and `_attach`. -/
def publish (hub : Hub) (x : SessionRef) (call : Call) (r : TunnelRef) : Hub × Outcome :=
  ({ hub with tunnels := hub.tunnels.set (hub.heap r).id r }.attach r x call,
    .waits (.returned r false))

/-- The tunnel as the constructor and the lines behind it make it; `_attach` is to come. -/
def newTunnel (call : Call) (previous : Option ShareCode) (id : String)
    (definition : Option Definition) (draw : Draw) (policy : AccessPolicy) : Tunnel where
  id := id
  accountId := call.owner.account.id
  owner := call.owner.account.username
  guest := call.owner.guest
  mode := call.mode
  target := call.target
  keepHost := call.request.keepHost
  resumeToken := draw.resumeToken
  secret := match previous with
    | some code => if code.id = id then some code.secret else fresh
    | none => fresh
  policy := policy
  persistent := definition.isSome
where
  fresh : Option Secret := if call.mode = .tcp then some draw.secret else none

def policyFor (call : Call) (definition : Option Definition) (draw : Draw) :
    Except Failure AccessPolicy :=
  match call.request.policy with
  | some input => buildPolicy (fun _ => draw.hash) input emptyPolicy
  | none => .ok (definition.elim emptyPolicy (·.policy))

/-- `register` from the name on. -/
def construct (hub : Hub) (x : SessionRef) (call : Call) (previous : Option ShareCode)
    (id : String) (definition : Option Definition) (draw : Draw) : Hub × Outcome :=
  match policyFor call definition draw with
  | .error failure => (hub, .threw failure)
  | .ok policy =>
    let r := hub.nextTunnel
    let hub := { hub with
      heap := Function.update hub.heap r (newTunnel call previous id definition draw policy)
      nextTunnel := r + 1 }
    if call.request.policy.isSome && definition.isSome then (hub, .waits (.policySaved r))
    else publish hub x call r

def resume (hub : Hub) (x : SessionRef) (call : Call) (r : TunnelRef) : Hub × Outcome :=
  (hub.attach r x call, .waits (.returned r true))

/-! ## The call -/

def owned (hub : Hub) (accountId : AccountId) : Nat :=
  (hub.tunnels.values.filter fun r => (hub.heap r).accountId = accountId).length

/-- `register` up to its first `await`. -/
def start (hub : Hub) (x : SessionRef) (call : Call) (draw : Draw) : Hub × Outcome :=
  match existingFor hub call with
  | some r =>
    match call.request.policy with
    | none => resume hub x call r
    | some input =>
      match buildPolicy (fun _ => draw.hash) input emptyPolicy with
      | .error failure => (hub, .threw failure)
      | .ok policy =>
        let hub := hub.onTunnel r fun tunnel => { tunnel with policy := policy }
        if (hub.heap r).persistent then (hub, .waits (.resumeSaved r))
        else resume hub x call r
  | none => (hub, .waits (.tunnels (owned hub call.owner.account.id)))

/-- The message checked, and the call it starts. -/
def callFor (config : Config) (owner : Owner) (request : Request) : Except Failure Call :=
  if request.mode ≠ "http" && request.mode ≠ "tcp" then
    .error (badRequest "mode must be http or tcp")
  else match parseTarget request.target with
    | none => .error (badRequest "target must be a port or host:port")
    | some target => .ok {
        owner := owner
        request := request
        mode := if request.mode = "http" then config.httpMode else .tcp
        target := target
        point := .traffic }

/-- `register` from one `await` to the next; none when the answer is not one to the promise
it waits for. -/
def proceed (hub : Hub) (x : SessionRef) (call : Call) (answer : Answer) (draw : Draw) :
    Option (Hub × Outcome) :=
  match call.point, answer with
  | .returned .., _ => none
  | _, .rejected message => some (hub, .threw (badRequest message))
  | .resumeSaved r, .saved => some (resume hub x call r)
  | .tunnels owned, .limit limit =>
    if limit ≠ 0 && limit ≤ owned then
      some (hub, .threw (quotaExceeded ("Limit of " ++ toString limit ++ " tunnels reached")))
    else some (hub, .waits .traffic)
  | .traffic, .limit limit =>
    if limit ≠ 0 then some (hub, .waits (.usage limit))
    else (allocateId hub call draw).map fun outcome => (hub, outcome)
  | .usage limit, .usage bytes =>
    if limit ≤ bytes then some (hub, .threw (quotaExceeded "Monthly traffic limit reached"))
    else (allocateId hub call draw).map fun outcome => (hub, outcome)
  | .named previous name, .definition definition =>
    if definition.any fun d => d.accountId ≠ call.owner.account.id then
      some (hub, .threw ⟨"The name \"" ++ name ++ "\" is reserved by another account",
        "name_reserved"⟩)
    else some (construct hub x call previous name definition draw)
  | .random previous left id, .definition definition =>
    if definition.isSome then
      (drawId hub previous left draw.ids).map fun outcome => (hub, outcome)
    else some (construct hub x call previous id.1 none draw)
  | .policySaved r, .saved => some (publish hub x call r)
  | _, _ => none

end Tunlit.Registry.Register
