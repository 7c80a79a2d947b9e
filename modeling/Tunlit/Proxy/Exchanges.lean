import Tunlit.Lib.Runs
import Tunlit.Proxy.Holds
import Tunlit.Proxy.Inject
import Tunlit.Registry.State

/-! # One request of a visitor

`serveSelected`, `proxyRequest`, `replayRequest` and `proxyUpgrade` as a machine: a
request that was routed to a tunnel goes from one event to the next. A decision about a
hold is taken up before anything else happens, also the one to cancel it when the response
closes, and a response that is destroyed closes at once. Where a handler throws the router
answers; where the listener of a response does, nobody answers. -/
namespace Tunlit.Proxy.Exchanges
open Tunlit.Js.Text Tunlit.Lib.Insertion Tunlit.Lib.Runs Tunlit.Mux.Frames
  Tunlit.Registry.Names Tunlit.Registry.State Tunlit.Proxy.RequestInfo Tunlit.Proxy.Headers
  Tunlit.Proxy.Holds Tunlit.Proxy.Inject

def HOLD_LIMIT : Nat := 8 * 1024 * 1024

/-! ## What passes -/

/-- A request that was routed to a tunnel. -/
structure Request where
  method : String
  /-- without the parameter of the tunnel -/
  path : String
  headers : HeaderMap
  info : Info
  pathMode : Bool := false
  snippet : Option Bytes := none

/-- The head of a response of the app. -/
structure Answer where
  status : Nat
  statusMessage : String
  rawHeaders : Pairs
deriving DecidableEq

def Answer.headers (answer : Answer) : HeaderMap := incomingHeaders answer.rawHeaders

def Answer.encoding (answer : Answer) : String := text answer.headers "content-encoding"

/-- The head of an answer to the visitor. -/
inductive Head where
  -- of the router and of the API
  | denied (status : Nat)
  | refused (status : Nat)
  | internal
  | replayed
  -- of `sendAppState` with the kind `offline`
  | offline
  -- of `proxyRequest`
  | tooLarge
  | dropped
  | relayed (status : Nat)
  | continued (status : Nat)
deriving DecidableEq

def Head.status : Head → Nat
  | .denied status | .refused status | .relayed status | .continued status => status
  | .internal => 500
  | .replayed => 200
  | .offline => 502
  | .tooLarge => 413
  | .dropped => 503

/-- The `ServerResponse` to the visitor. -/
structure Visitor where
  head : Option Head := none
  ended : Bool := false
  closed : Bool := false
deriving DecidableEq

/-- A stream to the app on an owner's session; it stays in the session's `streams` until
both sides have ended it or it is destroyed. -/
inductive Stream where
  | none
  | opened (x : SessionRef)
  | ended (x : SessionRef)
deriving DecidableEq

inductive Phase where
  | routed
  -- `denial` waits for the verification of a password
  | verifying
  -- `proxyRequest`
  | collecting
  | holding (hold : HoldId)
  | requested
  | collectingReply (answer : Answer)
  | holdingReply (hold : HoldId)
  | streaming
  -- the listener of the response has thrown
  | abandoned
  -- `replay` waits for the stored request, then for the app
  | looking
  | replaying
  -- a WebSocket
  | relaying
  | over
deriving DecidableEq

structure Exchange where
  tunnel : TunnelRef
  request : Request
  phase : Phase := .routed
  res : Visitor := {}
  setCookie : Option String := none
  /-- whether `proxyRequest` was called -/
  called : Bool := false
  shape : Message
  incoming : HeaderMap
  body : Option Bytes := none
  /-- the status that the `close` listener of the response logs, once it is there -/
  outcome : Option Nat := none
  finished : Bool := false
  /-- the statuses that `onRequest` was called with -/
  logged : List Nat := []
  stream : Stream := .none
  /-- the number of holds that were settled -/
  settled : Nat := 0

def start (tunnel : TunnelRef) (request : Request) : Exchange where
  tunnel := tunnel
  request := request
  shape := ⟨request.method, request.path, headerList request.headers, []⟩
  incoming := request.headers

/-- What an event finds on the server. -/
structure Env where
  target : Target
  keepHost : Bool
  /-- the session of the tunnel, if it is not closed -/
  session : Option SessionRef
  /-- `breakpoints.matches` of the tunnel -/
  holds : String → String → Holds.Phase → Bool

/-! ## Heads that are written -/

/-- The headers of the request to the app. -/
def upstreamHeaders (env : Env) (ex : Exchange) : HeaderMap :=
  let headers := buildUpstreamHeaders ex.incoming ex.request.info env.target env.keepHost
  let wantsHtml := ex.request.pathMode &&
    (mentionsHtml (text ex.incoming "accept") || text ex.incoming "sec-fetch-dest" = "document")
  let headers := if wantsHtml then headers.delete "accept-encoding" else headers
  match ex.body with
  | none => headers
  | some [] => headers.delete "content-length"
  | some body => headers.set "content-length" [toString body.length]

def withCookie (setCookie : Option String) (headers : HeaderMap) : HeaderMap :=
  setCookie.elim headers (appendCookie headers)

/-- The headers of a response that is passed on. -/
def plainHeaders (P : Platform) (env : Env) (request : Request) (answer : Answer) : HeaderMap :=
  buildDownstreamHeaders P answer.rawHeaders env.target request.info request.pathMode

/-- Whether the snippet goes into the page. -/
def injects (request : Request) (answer : Answer) : Bool :=
  request.snippet.isSome && answer.status = 200 && isHtml answer.headers

/-- The headers of a response that is streamed. -/
def streamedHeaders (P : Platform) (env : Env) (request : Request) (setCookie : Option String)
    (answer : Answer) : HeaderMap :=
  let headers := plainHeaders P env request answer
  let headers := if injects request answer && (decoderFor P answer.encoding).isSome then
    without ["content-length", "content-encoding"] headers else headers
  withCookie setCookie headers

/-- What is held of a response. -/
def heldReply (P : Platform) (answer : Answer) (body : Bytes) : Reply :=
  let decoded := decodeBody P body answer.encoding
  let dropped := HOP_BY_HOP ++
    if decoded.isSome then ["content-encoding", "content-length"] else []
  { status := answer.status
    headers := (headerList answer.headers).filter fun pair => toLowerCase pair.1 ∉ dropped
    body := decoded.getD body }

/-- The body of a response that was held. -/
def continuedBody (request : Request) (reply : Reply) : Bytes :=
  match request.snippet with
  | some snippet =>
    if reply.status = 200 && isHtml (headersFromPairs reply.headers) then
      injectInto reply.body snippet
    else reply.body
  | none => reply.body

/-- The headers of a response that was held. -/
def continuedHeaders (P : Platform) (env : Env) (request : Request) (setCookie : Option String)
    (reply : Reply) : HeaderMap :=
  let headers := buildDownstreamHeaders P reply.headers env.target request.info request.pathMode
  let headers := (without ["content-length"] headers).set "content-length"
    [toString (continuedBody request reply).length]
  withCookie setCookie headers

/-- The headers of a request that is replayed. -/
def replayHeaders (env : Env) (host : String) (message : Message) : HeaderMap :=
  let kept := message.headers.filter fun pair =>
    toLowerCase pair.1 ∉ HOP_BY_HOP ++ ["host", "content-length"]
  let headers := kept.foldl (fun headers pair => addHeader headers pair.1 pair.2) ∅
  let headers := headers.set "host" [if env.keepHost then host else hostHeader env.target]
  let headers := headers.set "x-forwarded-host" [host]
  if message.body = [] then headers
  else headers.set "content-length" [toString message.body.length]

/-! ## Steps of the functions -/

namespace Exchange

variable (ex : Exchange)

/-- `observe` -/
def finish (status : Nat) : Exchange :=
  if ex.finished then ex else { ex with finished := true, logged := ex.logged ++ [status] }

/-- A head that is written and ended at once. -/
def answer (head : Head) : Exchange :=
  { ex with res := { ex.res with head := some head, ended := true }, phase := .over }

/-- The `catch` of the router. -/
def threw : Exchange :=
  if ex.res.ended then { ex with phase := .over } else ex.answer (ex.res.head.getD .internal)

/-- `stream.destroy()`, or the end of the session. -/
def cut : Exchange := { ex with stream := .none }

/-- The request or response is complete, and the stream is ended on this side. -/
def endStream : Exchange :=
  match ex.stream with
  | .opened x => { ex with stream := .ended x }
  | _ => ex

/-- The listeners of `proxyRequest` for the `close` event of the response. -/
def heardClose : Exchange :=
  let ex := if ex.res.ended || !ex.called then ex else ex.cut
  ex.outcome.elim ex ex.finish

/-- The `close` event of the response; it cancels a hold. -/
def close : Exchange :=
  let ex := { ex with res := { ex.res with closed := true } }
  match ex.phase with
  | .requested | .collectingReply _ | .streaming | .abandoned | .over => ex.heardClose
  | .holding _ => { ex with phase := .over, settled := ex.settled + 1 }
  | .holdingReply _ => { ex.heardClose with phase := .over, settled := ex.settled + 1 }
  | _ => ex

/-- `res.destroy()` -/
def destroy : Exchange := if ex.res.closed then ex else { ex.close with phase := .over }

/-- `proxyRequest` from `session.open` on. -/
def forward (P : Platform) (env : Env) : Exchange :=
  match env.session with
  | none => ex.threw
  | some x =>
    let ex := { ex with stream := .opened x }
    if P.acceptsRequest ex.shape.method ex.shape.path (upstreamHeaders env ex) then
      { ex with phase := .requested }
    else ex.threw

def call (P : Platform) (env : Env) : Exchange :=
  let ex := { ex with called := true }
  if env.holds ex.shape.method ex.shape.path .request then { ex with phase := .collecting }
  else ex.forward P env

/-- `fail(502, ..)` where nothing was answered. -/
def fail : Exchange := (ex.finish 502).answer .offline

/-- `writeHead` in the listener of the response. -/
def writeHead (accepted : Bool) (head : Head) : Exchange :=
  if accepted then { ex with res := { ex.res with head := some head }, phase := .streaming }
  else { ex with phase := .abandoned }

def respond (P : Platform) (env : Env) (answer : Answer) : Exchange :=
  let ex := { ex with outcome := some answer.status }
  if env.holds ex.shape.method ex.shape.path .response then
    { ex with phase := .collectingReply answer }
  else
    ex.writeHead (P.acceptsHead answer.status (some answer.statusMessage)
      (streamedHeaders P env ex.request ex.setCookie answer)) (.relayed answer.status)

/-- A response above the limit is passed on as it came. -/
def overflow (P : Platform) (env : Env) (answer : Answer) : Exchange :=
  ex.writeHead (P.acceptsHead answer.status (some answer.statusMessage)
    (plainHeaders P env ex.request answer)) (.relayed answer.status)

/-- `proxyRequest` behind a decision. -/
def decide (P : Platform) (env : Env) (decision : Decision) : Exchange :=
  let ex := { ex with settled := ex.settled + 1 }
  match ex.phase, decision with
  | .holding _, .drop =>
    -- an observer of its own
    { ex with logged := ex.logged ++ [503] }.answer .dropped
  | .holding _, .continueRequest message =>
    { ex with
      shape := { message with body := [] }
      incoming := headersFromPairs message.headers
      body := some message.body }.forward P env
  | .holdingReply _, .drop => { ex with outcome := some 503 }.answer .dropped
  | .holdingReply _, .continueResponse reply =>
    let ex := { ex with outcome := some reply.status }
    if P.acceptsHead reply.status none
        (continuedHeaders P env ex.request ex.setCookie reply) then
      ex.answer (.continued reply.status)
    else { ex with phase := .abandoned }
  | _, _ => { ex with phase := .over }

end Exchange

/-! ## The machine -/

inductive Gate where
  | passes
  | denies (status : Nat)
  | verifies
deriving DecidableEq

/-- What becomes of a body that is collected; one above the limit overflows. -/
inductive Collected where
  | complete (body : Bytes)
  | overflow
  | error
deriving DecidableEq

/-- What happens in an exchange. -/
inductive Op where
  | route (gate : Gate)
  -- the cookie for a password that is right
  | verified (cookie : Option String)
  | collected (body : Collected) (hold : HoldId)
  | decided (decision : Decision)
  | responded (answer : Answer)
  | replied (body : Collected) (hold : HoldId)
  -- the rest of a response that is streamed
  | streamed (complete : Bool)
  | upstreamError
  | peerCloses
  | sessionCloses
  | closes
  | routeReplay
  -- the status of a refusal, or what is replayed
  | found (message : Except Nat Message)
  | replayed (status : Nat)
  | routeUpgrade (gate : Gate)
  | relayEnds

def Stream.isOpen : Stream → Bool
  | .opened _ => true
  | _ => false

/-- What an exchange makes of an event, from the phase where it is due; none elsewhere. -/
def step (P : Platform) (ex : Exchange) (env : Env) : Op → Option Exchange
  | .route gate =>
    if ex.phase ≠ .routed then none
    else if env.session.isNone then some (ex.answer .offline)
    else match gate with
      | .passes => some (ex.call P env)
      | .denies status => some (ex.answer (.denied status))
      | .verifies => some { ex with phase := .verifying }
  | .verified cookie =>
    if ex.phase ≠ .verifying then none
    else match cookie with
      | none => some (ex.answer (.denied 401))
      | some cookie => some ({ ex with setCookie := some cookie }.call P env)
  | .collected body hold =>
    if ex.phase ≠ .collecting then none
    else match body with
      | .complete body =>
        if ex.res.closed || HOLD_LIMIT < body.length then none
        else some { ex with body := some body, phase := .holding hold }
      | .overflow => if ex.res.closed then none else some (ex.answer .tooLarge)
      | .error => some { ex.destroy with phase := .over }
  | .decided decision =>
    match ex.phase with
    | .holding _ | .holdingReply _ => some (ex.decide P env decision)
    | _ => none
  | .responded answer =>
    if ex.phase ≠ .requested || !ex.stream.isOpen then none else some (ex.respond P env answer)
  | .replied body hold =>
    match ex.phase with
    | .collectingReply answer =>
      match body with
      | .complete body =>
        if !ex.stream.isOpen || HOLD_LIMIT < body.length then none
        else some { ex.endStream with phase := .holdingReply hold }
      | .overflow => if !ex.stream.isOpen then none else some (ex.overflow P env answer)
      | .error => some { ex.cut.destroy with phase := .over }
    | _ => none
  | .streamed complete =>
    if ex.phase ≠ .streaming then none
    else if complete then
      if ex.res.closed then none
      else some { ex.endStream with res := { ex.res with ended := true }, phase := .over }
    else some { ex.cut.destroy with phase := .over }
  | .upstreamError =>
    match ex.phase with
    | .requested => some ex.cut.fail
    | .collectingReply _ | .holdingReply _ | .streaming | .abandoned => some ex.cut.destroy
    | .replaying => some ({ ex.cut with logged := ex.logged ++ [502] }.answer .replayed)
    | _ => none
  | .peerCloses =>
    match ex.stream with
    | .ended _ => some ex.cut
    | _ => none
  | .sessionCloses => some ex.cut
  | .closes => if ex.res.closed then none else some ex.close
  | .routeReplay =>
    if ex.phase ≠ .routed then none
    else if env.session.isNone then some (ex.answer .offline)
    else some { ex with phase := .looking }
  | .found message =>
    if ex.phase ≠ .looking then none
    else match message with
      | .error status => some (ex.answer (.refused status))
      | .ok message =>
        match env.session with
        | none => some ex.threw
        | some x =>
          let ex := { ex with stream := .opened x, shape := message }
          if P.acceptsRequest message.method message.path
              (replayHeaders env ex.request.info.host message) then
            some { ex with phase := .replaying }
          else some ex.threw
  | .replayed status =>
    if ex.phase ≠ .replaying || !ex.stream.isOpen then none
    else some ({ ex.endStream with logged := ex.logged ++ [status] }.answer .replayed)
  | .routeUpgrade gate =>
    if ex.phase ≠ .routed then none
    else match env.session, gate with
      | none, _ => some (ex.answer .offline)
      | some x, .passes => some { ex with stream := .opened x, phase := .relaying }
      | some _, .denies status => some (ex.answer (.denied status))
      -- an upgrade verifies no password
      | some _, .verifies => none
  | .relayEnds => if ex.phase ≠ .relaying then none else some { ex.cut with phase := .over }

/-- One exchange on its own: what it finds on the server is left open. -/
def machine (P : Platform) : Machine Exchange (Env × Op) where
  init ex := ∃ tunnel request, ex = start tunnel request
  step ex event := step P ex event.1 event.2

/-! ## Sample exchanges -/

/-- A platform that decodes nothing, and refuses what Node does in paths and values. -/
def plain : Platform where
  rewriteLocation location _ _ _ := location
  rewriteSetCookie value := value
  acceptsRequest _ path _ := path.toList.all fun c => '!' ≤ c && c ≤ 'ÿ'
  acceptsHead _ _ headers := headers.entries.all fun entry => entry.2.all fun value =>
    value.toList.all fun c => c = '\t' || (' ' ≤ c && c ≤ 'ÿ' && c.toNat ≠ 127)
  hasZstd := true
  decompress _ _ := none

def visit : Request where
  method := "GET"
  path := "/"
  headers := headersFromPairs [("host", "web.example.com")]
  info := ⟨"web.example.com", "web.example.com", "https", true, "192.0.2.7"⟩

/-- A server with the tunnel online and with rules that match every request, or every response. -/
def serving (requests responses : Bool) : Env where
  target := ⟨"localhost", 3000⟩
  keepHost := false
  session := some 0
  holds _ _ phase := match phase with
    | .request => requests
    | .response => responses
    | .both => false

def page : Answer := ⟨200, "OK", [("Content-Type", "text/html")]⟩

end Tunlit.Proxy.Exchanges
