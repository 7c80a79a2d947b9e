import Tunlit.Access.Guesses
import Tunlit.Lib.Json
import Tunlit.Lib.Utf8
import Tunlit.Registry.State

/-! # Where a request goes

`classifyHost` of `lib/proxy.js`, the handlers of `controllers/http.js` up to `proxyRequest` and
`proxyUpgrade`, and `POST /gate/:id` of `routes/service.js`; the other calls of the API are one
answer. A handler runs to its end. A request comes with its URL parsed and its Basic
credentials decoded, and with the token that would be created for it. -/
namespace Tunlit.Proxy.Routing
open Tunlit.Js.Text Tunlit.Access.Policy Tunlit.Access.Store Tunlit.Access.Guesses
  Tunlit.Registry.Names Tunlit.Registry.State

def UI_PREFIX : String := "/@tunlit"
def API_PREFIX : String := "/@tunlit/api"
def SELECT_PAGE : String := "/@tunlit/select"
def GATE_PATH : String := "/@tunlit/gate"
def SW_PATH : String := "/@tunlit/sw.js"
def ACME_PREFIX : String := "/.well-known/acme-challenge/"
def COOKIE_NAME : List Char := "tunlit-access".toList
def MAX_BODY : Nat := 64 * 1024

/-! ## What a server knows -/

/-- A tunnel as the router sees it. -/
structure Seen where
  mode : Mode
  online : Bool
  policy : AccessPolicy

/-- The tunnels by their ids, which are names. -/
structure Registry where
  get : String → Option Seen
  named : ∀ id tunnel, get id = some tunnel → isName id = true

structure Credentials where
  username : String
  password : String

structure Router where
  ready : Bool
  setupRequired : Bool
  baseDomain : String
  registry : Registry
  /-- `domains.tunnelFor` -/
  domains : String → Option String
  /-- `intel.lookup` -/
  lookup : String → Intel
  /-- `certificates.challengeResponse` -/
  challengeResponse : String → Option String
  /-- the files of the web UI -/
  isFile : String → Bool
  verifyPassword : String → Option String → Bool
  checkAccountCredentials : Credentials → Bool
  front : Front := {}

structure Req where
  method : String := "GET"
  hostname : String
  clientIp : String
  pathname : String := "/"
  search : String := ""
  /-- the query's `tunlit-tunnel` -/
  selected : Option String := none
  /-- `wantsHtml` -/
  html : Bool := true
  /-- the `Cookie` header -/
  cookie : Option String := none
  /-- `basicCredentials` -/
  credentials : Option Credentials := none
  body : List Char := []
  /-- the token that is created, if one is -/
  fresh : String := ""

/-! ## Cookies -/

def cookieName (part : List Char) : List Char := trimList (part.takeWhile (· ≠ '='))
def cookieValue (part : List Char) : List Char := trimList (part.dropWhile (· ≠ '=')).tail

def tokenIn : List (List Char) → Option String
  | [] => none
  | part :: parts =>
    if '=' ∈ part ∧ cookieName part = COOKIE_NAME then some (.ofList (cookieValue part))
    else tokenIn parts

/-- `tokenFromRequest` -/
def tokenFromRequest (req : Req) : Option String :=
  tokenIn (split ';' ((req.cookie.getD "").toList))

/-! ## Hosts -/

inductive Host where
  | base
  | subdomain (id : String)
  | custom (id : String)
  | unknown
deriving DecidableEq, Repr

def Host.isCustom : Host → Bool
  | .custom _ => true
  | .base | .subdomain _ | .unknown => false

def startsWith (text start : String) : Bool := start.toList.isPrefixOf text.toList

def classifyHost (hostname baseDomain : String) : Host :=
  let suffix := '.' :: baseDomain.toList
  if hostname = baseDomain then .base
  else if suffix.isSuffixOf hostname.toList then
    let label := hostname.toList.take (hostname.toList.length - suffix.length)
    if label ≠ [] ∧ '.' ∉ label then .subdomain (.ofList label) else .unknown
  else .unknown

namespace Router

variable (router : Router)

def hostFor (hostname : String) : Host :=
  match classifyHost hostname router.baseDomain with
  | .unknown =>
    match router.domains hostname with
    | some name => .custom name
    | none => .unknown
  | host => host

/-- A tunnel, or why there is none. -/
inductive Lookup where
  | notFound
  | offline
  | found (tunnel : Seen)

def tunnelFor (id : String) (modes : List Mode) : Lookup :=
  match router.registry.get id with
  | none => .notFound
  | some tunnel =>
    if tunnel.mode ∉ modes then .notFound
    else if !tunnel.online then .offline
    else .found tunnel

def pathTunnel (id : String) : Option Seen :=
  if isName id then (router.registry.get id).filter (·.mode = .path) else none

/-! ## The gate -/

inductive Gate where
  | deny (reply : Reply)
  | pass (cookie : Option String)

def accepts (policy : AccessPolicy) (credentials : Credentials) : Bool :=
  if policy.auth = .password then router.verifyPassword credentials.password policy.passwordHash
  else router.checkAccountCredentials credentials

def withFront (front : Front) : Router := { router with front }

def denial (req : Req) (id : String) (policy : AccessPolicy) : Router × Gate :=
  let (front, outcome) := router.front.denial ⟨id, policy⟩ req.clientIp
    (router.lookup req.clientIp) (tokenFromRequest req) req.credentials.isSome
  match outcome with
  | .reply .served => (router.withFront front, .pass none)
  | .reply reply => (router.withFront front, .deny reply)
  | .check key await =>
    let ok := req.credentials.any (router.accepts policy)
    match front.resume key await (.verified ok req.fresh) with
    | some (front, _, .cookie token) => (router.withFront front, .pass (some token))
    | some (front, _, _) => (router.withFront front, .deny .gatePage)
    | none => (router.withFront front, .deny .gatePage)

/-- `String(req.body.password || "")` of a body without numbers and literals, or none where
it is not read. -/
def passwordOf (body : List Char) : Option String :=
  match Lib.Json.parse body with
  | some (.object fields) =>
    match fields.reverse.lookup "password".toList with
    | some (.text password) => some (.ofList password)
    | _ => some ""
  | some _ => some ""
  | none => none

/-- `POST /gate/:id` -/
def gate (req : Req) (id : String) : Router × Reply :=
  if MAX_BODY < (Lib.Utf8.encode req.body).length then (router, .refused 413)
  else match passwordOf req.body with
    | none => (router, .refused 400)
    | some password =>
      let found := (router.registry.get id).map fun tunnel => (⟨id, tunnel.policy⟩ : Found)
      let (front, outcome) := router.front.gate found req.clientIp (router.lookup req.clientIp)
      match outcome with
      | .reply reply => (router.withFront front, reply)
      | .check key await =>
        let ok := router.verifyPassword password (found.bind (·.policy.passwordHash))
        match front.resume key await (.verified ok req.fresh) with
        | some (front, _, reply) => (router.withFront front, reply)
        | none => (router.withFront front, .internal)

end Router

/-! ## Requests -/

inductive Response where
  | challenge (response : String)
  | gateCompleted
  | json (status : Nat) (error : String)
  | redirect (location : String)
  | serviceWorker
  | file (name : String)
  | index
  | gate (reply : Reply)
  /-- another call of the API -/
  | api
  | missing (id : String)
  | offline (id : String)
  | denied (id : String) (reply : Reply)
  | attach (id : String) (target : String)
  | proxied (id : String) (pathMode : Bool) (cookie : Option String)

def noTunnel (req : Req) (location : String) : Response :=
  if req.html then .redirect location else .json 404 "no_tunnel_selected"

def isUi (pathname : String) : Bool :=
  pathname = UI_PREFIX || startsWith pathname (UI_PREFIX ++ "/")
def isApi (pathname : String) : Bool :=
  pathname = API_PREFIX || startsWith pathname (API_PREFIX ++ "/")

/-- What is behind a prefix. -/
def behind (text start : String) : List Char := text.toList.drop start.toList.length

/-- The id of a call of `/gate/:id`; one with escapes is left out. -/
def gateParam (pathname : String) : Option String :=
  if startsWith pathname (API_PREFIX ++ "/gate/") then
    let rest := behind pathname (API_PREFIX ++ "/gate/")
    let id := rest.takeWhile (· ≠ '/')
    let slash := rest.dropWhile (· ≠ '/')
    if id ≠ [] ∧ '%' ∉ id ∧ (slash = [] ∨ slash = ['/']) then some (.ofList id) else none
  else none

/-- The name and the rest of a path like `/@name/rest`. -/
def selection (pathname : String) : Option (String × String) :=
  match pathname.toList with
  | '/' :: '@' :: rest =>
    let name := rest.takeWhile (· ≠ '/')
    if name = [] then none else some (.ofList name, .ofList (rest.dropWhile (· ≠ '/')))
  | _ => none

/-- `text.includes("..")` -/
def hasDots (text : List Char) : Bool := text.tails.any fun tail => ['.', '.'].isPrefixOf tail

def isRead (method : String) : Bool := method = "GET" || method = "HEAD"

namespace Router

variable (router : Router)

def handleUi (req : Req) : Router × Response :=
  if isApi req.pathname then
    match gateParam req.pathname with
    | some id =>
      if req.method = "POST" then
        let (router, reply) := router.gate req (toLowerCase id)
        (router, .gate reply)
      else (router, .api)
    | none => (router, .api)
  else if !isRead req.method then (router, .json 405 "method_not_allowed")
  else
    let relative := if req.pathname = UI_PREFIX then [] else behind req.pathname (UI_PREFIX ++ "/")
    if relative ≠ [] ∧ !hasDots relative ∧ router.isFile (.ofList relative) then
      (router, .file (.ofList relative))
    else (router, .index)

/-- `denial`, and `proxyRequest` of what it lets pass. -/
def serve (req : Req) (id : String) (tunnel : Seen) (pathMode : Bool) : Router × Response :=
  match router.denial req id tunnel.policy with
  | (router, .deny reply) => (router, .denied id reply)
  | (router, .pass cookie) => (router, .proxied id pathMode cookie)

def serveSelected (req : Req) (id : String) : Router × Response :=
  match router.pathTunnel id with
  | none => (router, .missing id)
  | some tunnel => if tunnel.online then router.serve req id tunnel true else (router, .offline id)

/-- A tunnel of a host, or why there is none. -/
def serveHost (req : Req) (id : String) (modes : List Mode) (custom : Bool) : Router × Response :=
  match router.tunnelFor id modes with
  | .notFound => (router, if custom then .offline id else .missing id)
  | .offline => (router, .offline id)
  | .found tunnel => router.serve req id tunnel false

def serveBase (req : Req) : Router × Response :=
  match selection req.pathname with
  | some (name, rest) =>
    let id := toLowerCase name
    match router.pathTunnel id with
    | none => (router, .missing id)
    | some _ => (router, .attach id ((if rest = "" then "/" else rest) ++ req.search))
  | none =>
    match req.selected with
    | some selected => router.serveSelected req (toLowerCase selected)
    | none => (router, noTunnel req SELECT_PAGE)

/-- The routing of a server that is set up. -/
def route (req : Req) : Router × Response :=
  let host := router.hostFor req.hostname
  if isUi req.pathname && !host.isCustom then
    if req.pathname = SW_PATH then
      (router, if isRead req.method then .serviceWorker else .json 405 "method_not_allowed")
    else router.handleUi req
  else match host with
    | .subdomain id => router.serveHost req id [.subdomain] false
    | .custom id => router.serveHost req id [.subdomain, .path] true
    | .base => router.serveBase req
    | .unknown => (router, noTunnel req SELECT_PAGE)

def challenge (req : Req) : Option String :=
  if startsWith req.pathname ACME_PREFIX then
    router.challengeResponse (.ofList (behind req.pathname ACME_PREFIX))
  else none

def handleRequest (req : Req) : Router × Response :=
  match router.challenge req with
  | some response => (router, .challenge response)
  | none =>
    let isSet := router.ready && !router.setupRequired
    if req.pathname = GATE_PATH ∧ isSet then (router, .gateCompleted)
    else if isSet then router.route req
    else if isUi req.pathname then router.handleUi req
    else (router, noTunnel req (UI_PREFIX ++ "/"))

end Router

/-! ## Upgrades -/

inductive Upgrade where
  | rejected (status : Nat) (text : String)
  /-- rejected by the policy of a tunnel -/
  | denied (id : String) (status : Nat) (text : String)
  | control
  | proxied (id : String) (pathMode : Bool)

namespace Router

variable (router : Router)

/-- `access.allows` -/
def allows (req : Req) (id : String) : Router × Bool :=
  let (access, allowed) := router.front.access.allows (tokenFromRequest req) id router.front.now
  (router.withFront { router.front with access }, allowed)

/-- The end of `handleUpgrade`, with the tunnel. -/
def upgradeTo (req : Req) (id : String) (tunnel : Seen) (pathMode : Bool) : Router × Upgrade :=
  if isRestricted tunnel.policy then
    if (evaluate tunnel.policy req.clientIp (router.lookup req.clientIp)).isSome then
      (router, .denied id 403 "Forbidden")
    else if tunnel.policy.auth ≠ .none then
      let (router, allowed) := router.allows req id
      if allowed then (router, .proxied id pathMode) else (router, .denied id 401 "Unauthorized")
    else (router, .proxied id pathMode)
  else (router, .proxied id pathMode)

def upgradeFound (req : Req) (id : String) (modes : List Mode) (custom pathMode : Bool) :
    Router × Upgrade :=
  match router.tunnelFor id modes with
  | .notFound =>
    (router, if custom then .rejected 502 "Tunnel offline" else .rejected 404 "Tunnel not found")
  | .offline => (router, .rejected 502 "Tunnel offline")
  | .found tunnel => router.upgradeTo req id tunnel pathMode

def handleUpgrade (req : Req) : Router × Upgrade :=
  if !router.ready || router.setupRequired then (router, .rejected 503 "Setup required")
  else match router.hostFor req.hostname with
    | .subdomain id => router.upgradeFound req id [.subdomain] false false
    | .custom id => router.upgradeFound req id [.subdomain, .path] true false
    | .unknown => (router, .rejected 404 "Not Found")
    | .base =>
      if req.pathname = "/@tunlit/ws" then (router, .control)
      else if startsWith req.pathname "/@" then (router, .rejected 404 "Not Found")
      else match req.selected with
        | none | some "" => (router, .rejected 404 "No tunnel selected")
        | some selected => router.upgradeFound req (toLowerCase selected) [.path] false true

end Router

end Tunlit.Proxy.Routing
