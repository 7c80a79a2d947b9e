import Tunlit.Accounts.Rows
import Tunlit.Lib.Patterns
import Tunlit.Lib.Percent

/-! # The routes of the API

`utils/router.js` and the mounts of `controllers/http.js`. A request is answered by the first route
of the first mount that matches; the guards of the mount come before those of the route. -/
namespace Tunlit.Api.Routes
open Tunlit.Js.Text Tunlit.Lib Tunlit.Lib.Insertion Tunlit.Lib.Patterns Tunlit.Accounts.Rows

abbrev Text := List Char

/-! ## Patterns -/

inductive Piece
  | literal (c : Char)
  /-- a dot of the pattern, which is no more than that to `RegExp` -/
  | dot
  | param (key : Text)
deriving DecidableEq

def isLetter (c : Char) : Bool := isLower c || isUpper c

/-- `compile`, for patterns of letters, digits, `/`, `-` and dots. -/
def compileFrom : ℕ → Text → List Piece
  | fuel + 1, '/' :: ':' :: c :: rest =>
    if isLetter c then
      .literal '/' :: .param (c :: rest.takeWhile isLetter) ::
        compileFrom fuel (rest.dropWhile isLetter)
    else .literal '/' :: compileFrom fuel (':' :: c :: rest)
  | fuel + 1, c :: rest => (if c = '.' then .dot else .literal c) :: compileFrom fuel rest
  | _, _ => []

def compile (pattern : Text) : List Piece := compileFrom pattern.length pattern

def keys (pieces : List Piece) : List Text := pieces.filterMap fun
  | .param key => some key
  | _ => none

/-- The ways to take at least one character that is no slash, the longest first. -/
def segments : Text → List (Text × Text)
  | [] => []
  | c :: rest =>
    if c = '/' then []
    else (segments rest).map (fun s => (c :: s.1, s.2)) ++ [([c], rest)]

/-- `regex.exec`: what the groups have taken. -/
def exec : List Piece → Text → Option (List Text)
  | [], rest => if rest = [] ∨ rest = ['/'] then some [] else none
  | .literal c :: pieces, d :: rest => if d = c then exec pieces rest else none
  | .dot :: pieces, d :: rest => if isLineTerminator d then none else exec pieces rest
  | .param _ :: pieces, text =>
    (segments text).findSome? fun s => (exec pieces s.2).map (s.1 :: ·)
  | _ :: _, [] => none

/-! ## Routes -/

inductive Method
  | GET | POST | PUT | PATCH | DELETE
  | other (name : String)
deriving DecidableEq

inductive Guard
  | authenticate | requireBrowser | requireAdmin | requireSetupComplete
deriving DecidableEq

structure Route where
  method : Method
  pattern : Text
  guards : List Guard := []
deriving DecidableEq

structure Mount where
  path : Text
  guards : List Guard := []
  routes : List Route
deriving DecidableEq

def get (pattern : String) (guards : List Guard := []) : Route := ⟨.GET, pattern.toList, guards⟩
def post (pattern : String) (guards : List Guard := []) : Route := ⟨.POST, pattern.toList, guards⟩
def put (pattern : String) (guards : List Guard := []) : Route := ⟨.PUT, pattern.toList, guards⟩
def delete (pattern : String) (guards : List Guard := []) : Route :=
  ⟨.DELETE, pattern.toList, guards⟩

def service : List Route :=
  [get "/info", get "/whoami", get "/status/:id", post "/gate/:id", get "/gate/:id/authorize"]

def setup : List Route := [get "/status", post "/complete"]

def auth : List Route :=
  [post "/login" [.requireSetupComplete], post "/logout" [.authenticate],
    get "/me" [.authenticate], post "/device/create", post "/device/poll", get "/providers",
    post "/oidc/:id/start", get "/oidc/callback", post "/passkey/options", post "/passkey/verify",
    get "/totp/setup" [.authenticate], post "/totp/enable" [.authenticate],
    post "/totp/disable" [.authenticate], get "/passkeys" [.authenticate],
    post "/passkeys/options" [.authenticate], post "/passkeys" [.authenticate],
    delete "/passkeys/:id" [.authenticate]]

def tunnels : List Route :=
  [get "/", get "/:id", get "/:id/requests.har", get "/:id/requests", get "/:id/visitors",
    delete "/:id/visitors", get "/:id/connections", get "/:id/connections/:key",
    delete "/:id/connections", delete "/:id/requests", get "/:id/requests/:requestId/frames",
    post "/:id/requests/:requestId/frames", get "/:id/requests/:requestId",
    post "/:id/requests/:requestId/replay", get "/:id/breakpoints", put "/:id/breakpoints",
    post "/:id/breakpoints/:holdId", get "/:id/stats", put "/:id/access", delete "/:id/clients",
    delete "/:id/clients/:clientId", delete "/:id"]

def persistent : List Route :=
  [get "/", post "/", get "/:name", put "/:name/access", delete "/:name", post "/:name/domains",
    post "/:name/domains/:hostname/check", delete "/:name/domains/:hostname"]

def quotas : List Route := [get "/", put "/" [.requireAdmin]]

def settings : List Route :=
  [get "/", put "/" [.requireAdmin], put "/password" [.requireBrowser]]

def devices : List Route :=
  [get "/", post "/", get "/pending/:code", post "/pending/:code/approve",
    post "/pending/:code/deny", delete "/:id"]

def invites : List Route := [get "/", post "/", delete "/:id"]
def accounts : List Route := [get "/", post "/", put "/:id", delete "/:id"]

def tls : List Route :=
  [get "/", put "/", post "/verify", post "/request", post "/continue", get "/status"]

def oidc : List Route := [get "/", post "/", put "/:id", delete "/:id"]

def API_PREFIX : Text := "/@tunlit/api".toList

def api (path : String) : Text := API_PREFIX ++ path.toList

def mounts : List Mount :=
  [⟨API_PREFIX, [], service⟩, ⟨api "/setup", [], setup⟩, ⟨api "/auth", [], auth⟩,
    ⟨api "/tunnels", [.authenticate], tunnels⟩, ⟨api "/persistent", [.authenticate], persistent⟩,
    ⟨api "/quotas", [.authenticate], quotas⟩, ⟨api "/settings", [.authenticate], settings⟩,
    ⟨api "/devices", [.authenticate], devices⟩, ⟨api "/invites", [.authenticate], invites⟩,
    ⟨api "/accounts", [.authenticate, .requireAdmin], accounts⟩,
    ⟨api "/tls", [.authenticate, .requireAdmin], tls⟩,
    ⟨api "/oidc", [.authenticate, .requireAdmin], oidc⟩]

/-! ## Dispatch -/

/-- What is left of a path behind the prefix of a mount. -/
def Mount.rest (mount : Mount) (path : Text) : Option Text :=
  if path = mount.path ∨ (mount.path ++ ['/']) <+: path then
    let rest := path.drop mount.path.length
    some (if rest = [] then ['/'] else rest)
  else none

/-- A route with its mount. -/
abbrev Entry := Mount × Route

def Entry.guards (entry : Entry) : List Guard := entry.1.guards ++ entry.2.guards

/-- The groups of a route that matches. -/
def Entry.hit (method : Method) (path : Text) (entry : Entry) : Option (List Text) :=
  (entry.1.rest path).bind fun rest =>
    if entry.2.method = method then exec (compile entry.2.pattern) rest else none

def dispatch (mounts : List Mount) (method : Method) (path : Text) : Option (Entry × List Text) :=
  mounts.findSome? fun mount => mount.routes.findSome? fun route =>
    (Entry.hit method path (mount, route)).map fun groups => ((mount, route), groups)

/-! ## Sessions -/

structure SessionRow where
  token : Text
  accountId : AccountId
  lastSeen : ℕ

/-- A device or an invite, by its token. -/
structure CredentialRow where
  token : Text
  accountId : AccountId

structure Server where
  accounts : OrderedMap AccountId Account := ∅
  sessions : List SessionRow := []
  devices : List CredentialRow := []
  invites : List CredentialRow := []

structure Request where
  method : Method
  path : Text
  cookie : Text := []
  authorization : Text := []
  /-- the pieces of the body as they arrive -/
  body : List (List UInt8) := []

structure Session where
  accountId : AccountId
  role : Role
  device : Bool
deriving DecidableEq

def COOKIE_NAME : Text := "tunlit-admin".toList
def TTL : ℕ := 7 * 24 * 60 * 60 * 1000
def MAX_BODY : ℕ := 64 * 1024

def parseCookies (header : Text) : List (Text × Text) :=
  (split ';' header).filterMap fun part =>
    if '=' ∈ part then
      let name := trimList (part.takeWhile (· ≠ '='))
      if name = [] then none else some (name, trimList ((part.dropWhile (· ≠ '=')).drop 1))
    else none

def tokenFromRequest (req : Request) : Option Text :=
  ((parseCookies req.cookie).lookup COOKIE_NAME).filter (· ≠ [])

def bearerFromHeaders (req : Request) : Option Text :=
  let value := trimList req.authorization
  let rest := (value.drop 6).dropWhile isSpace
  if (value.take 6).flatMap lowerChar = "bearer".toList ∧ (value.drop 6).head?.any isSpace ∧
      rest ≠ [] ∧ ¬ rest.any isLineTerminator then some (trimList rest)
  else none

/-- `SessionStore.get` -/
def sessionFor (server : Server) (now : ℕ) (token : Option Text) : Option Session :=
  token.bind fun token =>
    (server.sessions.find? (·.token = token)).bind fun row =>
      if now - row.lastSeen > TTL then none
      else (server.accounts.get row.accountId).map fun account =>
        ⟨row.accountId, account.role, false⟩

def verify (rows : List CredentialRow) (presented : Option Text) : Option CredentialRow :=
  presented.bind fun token => if token = [] then none else rows.find? (·.token = token)

/-- A device, with whether it is a guest. -/
def deviceFor (server : Server) (presented : Option Text) : Option (CredentialRow × Bool) :=
  ((verify server.devices presented).map fun row => (row, false)).or
    ((verify server.invites presented).map fun row => (row, true))

def deviceSession (server : Server) (req : Request) : Option Session :=
  (deviceFor server (bearerFromHeaders req)).bind fun (row, guest) =>
    if guest then none
    else (server.accounts.get row.accountId).map fun account => ⟨row.accountId, account.role, true⟩

def authenticate (server : Server) (now : ℕ) (req : Request) : Option Session :=
  (sessionFor server now (tokenFromRequest req)).or (deviceSession server req)

/-! ## Handling -/

inductive Outcome
  /-- there is no such route -/
  | unhandled
  /-- `decodeURIComponent` has thrown, which nothing catches -/
  | thrown
  | refused (status : ℕ)
  /-- the handler of the route runs, for the session if there is one -/
  | ran (entry : Entry) (params : List (Text × Text)) (session : Option Session)
deriving DecidableEq

def wellEscaped : Text → Bool
  | '%' :: a :: b :: rest => (Percent.escaped a b).isSome && wellEscaped rest
  | '%' :: _ => false
  | _ :: rest => wellEscaped rest
  | [] => true

def decodeURIComponent (text : Text) : Option Text :=
  let bytes := Percent.decode text
  if wellEscaped text ∧ Utf8.encode (Utf8.decode bytes) = bytes then some (Utf8.decode bytes)
  else none

/-- `readBody`: the status it fails with. -/
def readBody (isJson : List UInt8 → Bool) (chunks : List (List UInt8)) : Option ℕ :=
  if chunks.flatten.length > MAX_BODY then some 413
  else if chunks = [] ∨ isJson chunks.flatten then none else some 400

/-- The session behind a guard, or the status it answers. -/
def Guard.check (server : Server) (now : ℕ) (req : Request) (session : Option Session) :
    Guard → Except ℕ (Option Session)
  | .authenticate =>
    match Routes.authenticate server now req with
    | some session => .ok (some session)
    | none => .error 401
  | .requireBrowser =>
    match session with
    | some session => if session.device then .error 403 else .ok (some session)
    -- `req.session.device` of no session
    | none => .error 500
  | .requireAdmin =>
    match session with
    | some session => if session.role ≠ .admin then .error 403 else .ok (some session)
    | none => .error 500
  | .requireSetupComplete => if server.accounts.entries = [] then .error 409 else .ok session

def handle (isJson : List UInt8 → Bool) (server : Server) (now : ℕ) (req : Request) : Outcome :=
  match dispatch mounts req.method req.path with
  | none => .unhandled
  | some (entry, groups) =>
    match groups.mapM decodeURIComponent with
    | none => .thrown
    | some values =>
      let hasBody := req.method = .POST ∨ req.method = .PUT ∨ req.method = .PATCH
      match if hasBody then readBody isJson req.body else none with
      | some status => .refused status
      | none =>
        match entry.guards.foldlM (Guard.check server now req) none with
        | .error status => .refused status
        | .ok session => .ran entry ((keys (compile entry.2.pattern)).zip values) session

end Tunlit.Api.Routes
