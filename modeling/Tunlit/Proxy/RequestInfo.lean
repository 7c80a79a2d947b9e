import Tunlit.Js.Numerals
import Tunlit.Js.Splitting

/-! # Who a request comes from

`requestInfo` of `lib/proxy.js` and the address a control session is given in
`controllers/control.js`, behind the reverse proxy of `docs/reverse-proxy.md`: it adds
the address of its peer at the end of the `X-Forwarded-For` that it received. -/
namespace Tunlit.Proxy.RequestInfo
open Tunlit.Js.Text Tunlit.Js.Numerals Tunlit.Js.Splitting

/-! ## Requests -/

structure Socket where
  remoteAddress : Option String
  encrypted : Bool := false
deriving DecidableEq

/-- The headers that are read. -/
structure Headers where
  host : Option String := none
  xForwardedHost : Option String := none
  xForwardedProto : Option String := none
  xForwardedFor : Option String := none
deriving DecidableEq

structure Req where
  headers : Headers
  socket : Socket
deriving DecidableEq

structure Config where
  trustProxy : Bool
deriving DecidableEq

structure Info where
  host : String
  hostname : String
  proto : String
  secure : Bool
  clientIp : String
deriving DecidableEq

/-- `a || b`, for a text that may be missing or empty. -/
def orElse (a : Option String) (b : String) : String :=
  match a with
  | some text => if text = "" then b else text
  | none => b

/-- `String(header).split(",")[0].trim()`, and null where the header is not read. -/
def firstEntry (trust : Bool) (header : Option String) : Option String :=
  match header with
  | some text =>
    if trust && text ≠ "" then some (.ofList (trimList ((split ',' text.toList).headD []))) else none
  | none => none

/-- A header value has the characters of Latin-1. -/
def lowerLatin (c : Char) : Char :=
  if isUpper c || (0xc0 ≤ c.toNat && c.toNat ≤ 0xde && c.toNat ≠ 0xd7) then
    Char.ofNat (c.toNat + 32)
  else c

def lowerHeader (text : String) : String := .ofList (text.toList.map lowerLatin)

/-- `replace(/:\d+$/, "")` -/
def withoutPort (text : String) : String :=
  let digits := text.toList.reverse.takeWhile isDigit
  match text.toList.reverse.dropWhile isDigit with
  | ':' :: rest => if digits = [] then text else .ofList rest.reverse
  | _ => text

def requestInfo (req : Req) (config : Config) : Info :=
  let trust := config.trustProxy
  let forwardedHost := firstEntry trust req.headers.xForwardedHost
  let hostHeader := orElse forwardedHost (orElse req.headers.host "")
  let hostname := lowerHeader (withoutPort hostHeader)
  let forwardedProto := (firstEntry trust req.headers.xForwardedProto).map lowerHeader
  let proto := orElse forwardedProto (if req.socket.encrypted then "https" else "http")
  let forwardedFor := firstEntry trust req.headers.xForwardedFor
  let clientIp := orElse forwardedFor (orElse req.socket.remoteAddress "")
  { host := hostHeader, hostname, proto, secure := proto = "https", clientIp }

/-- `session.client.ip`, set when a control connection is opened. -/
def sessionClientIp (req : Req) (config : Config) : String :=
  let forwarded := firstEntry config.trustProxy req.headers.xForwardedFor
  orElse forwarded (orElse req.socket.remoteAddress "")

/-! ## The reverse proxy -/

/-- The address of a peer, as it is printed. -/
structure Peer where
  text : String
  nonempty : text.toList ≠ []
  plain : ∀ c ∈ text.toList, c ≠ ',' ∧ isSpace c = false

/-- What a client sends to the proxy. -/
structure Sent where
  host : String
  forwardedFor : Option String
deriving DecidableEq

structure ReverseProxy where
  /-- where the server sees the proxy's connections come from -/
  address : Option String
  scheme : String
  encrypted : Bool := false
deriving DecidableEq

/-- `$proxy_add_x_forwarded_for` -/
def appended (received : Option String) (peer : Peer) : String :=
  match received with
  | some text => text ++ ", " ++ peer.text
  | none => peer.text

/-- The request as it comes to the server. -/
def ReverseProxy.forward (proxy : ReverseProxy) (peer : Peer) (sent : Sent) : Req where
  headers := {
    host := some sent.host
    xForwardedHost := some sent.host
    xForwardedProto := some proxy.scheme
    xForwardedFor := some (appended sent.forwardedFor peer) }
  socket := { remoteAddress := proxy.address, encrypted := proxy.encrypted }

/-! ## The entry that is read -/

/-- What a client puts in front of the list. -/
def leading (text : String) : String := .ofList (trimList ((split ',' text.toList).headD []))

variable (peer : Peer)

theorem leading_peer : leading peer.text = peer.text := by
  rw [leading, split_headD_of_notMem fun c hc => (peer.plain c hc).1,
    trimList_of_plain fun c hc => (peer.plain c hc).2, String.ofList_toList]

theorem leading_appended (text : String) : leading (appended (some text) peer) = leading text := by
  have h : (appended (some text) peer).toList = text.toList ++ ',' :: ' ' :: peer.text.toList := by
    simp [appended, String.toList_append]
  rw [leading, leading, h, split_headD_append]

theorem appended_ne_empty (received : Option String) : appended received peer ≠ "" := by
  intro h
  have hp := peer.nonempty
  have hl := congrArg String.toList h
  cases received with
  | none => exact hp hl
  | some text => simp [appended, String.toList_append] at hl

variable {peer} {config : Config}

theorem firstEntry_appended (trusted : config.trustProxy = true) (received : Option String) :
    firstEntry config.trustProxy (some (appended received peer)) =
      some (leading (appended received peer)) := by
  rw [firstEntry, if_pos]
  · rfl
  · simp [trusted, appended_ne_empty]

/-! ## Two places, one address -/

/-- The address of a request is that of a session, however the server is reached. -/
theorem sessionClientIp_eq (req : Req) (config : Config) :
    sessionClientIp req config = (requestInfo req config).clientIp := rfl

/-- With no proxy trusted, no header is read. -/
theorem clientIp_untrusted (req : Req) (h : config.trustProxy = false) :
    (requestInfo req config).clientIp = orElse req.socket.remoteAddress "" := by
  have hf : firstEntry config.trustProxy req.headers.xForwardedFor = none := by
    unfold firstEntry
    split
    · simp [h]
    · rfl
  simp only [requestInfo, hf, orElse]

theorem clientIp_forward (proxy : ReverseProxy) (peer : Peer) (sent : Sent)
    (trusted : config.trustProxy = true) :
    (requestInfo (proxy.forward peer sent) config).clientIp =
      orElse (some (leading (appended sent.forwardedFor peer))) (orElse proxy.address "") := by
  simp only [requestInfo, ReverseProxy.forward, firstEntry_appended trusted]

/-! ## What a client may send -/

/-- The entry that a client puts in front is its own address, or none is sent at all. An
empty one makes the server fall back to the address of the proxy. -/
def Honest (proxy : ReverseProxy) (peer : Peer) (sent : Sent) : Prop :=
  ∀ text ∈ sent.forwardedFor, leading text = peer.text ∨
    leading text = "" ∧ orElse proxy.address "" = peer.text

instance (proxy : ReverseProxy) (peer : Peer) (sent : Sent) : Decidable (Honest proxy peer sent) :=
  inferInstanceAs (Decidable (∀ text ∈ sent.forwardedFor, _))

theorem clientIp_forward_eq_iff (proxy : ReverseProxy) (peer : Peer) (sent : Sent)
    (trusted : config.trustProxy = true) :
    (requestInfo (proxy.forward peer sent) config).clientIp = peer.text ↔
      Honest proxy peer sent := by
  have hp : peer.text ≠ "" := fun h => peer.nonempty (by simp [h])
  rw [clientIp_forward proxy peer sent trusted, Honest]
  cases sent.forwardedFor with
  | none => simp [appended, leading_peer, orElse, hp]
  | some text =>
    rw [leading_appended]
    by_cases hl : leading text = ""
    · simp [orElse, hl, Ne.symm hp]
    · simp [orElse, hl]

/-- The address that rules, limits and records use is the peer's, and the same as for any
other such request of the peer, exactly when the client put no other in front. -/
theorem clientIp_of_peer (config : Config) (proxy : ReverseProxy) (peer : Peer) (sent : Sent)
    (trusted : config.trustProxy = true) :
    ((requestInfo (proxy.forward peer sent) config).clientIp = peer.text ∧
      sessionClientIp (proxy.forward peer sent) config = peer.text ∧
      ∀ other : Sent, Honest proxy peer other →
        (requestInfo (proxy.forward peer sent) config).clientIp =
          (requestInfo (proxy.forward peer other) config).clientIp) ↔
      Honest proxy peer sent := by
  have hs := clientIp_forward_eq_iff proxy peer sent trusted
  constructor
  · exact fun h => hs.mp h.1
  · intro h
    refine ⟨hs.mpr h, hs.mpr h, fun other ho => ?_⟩
    rw [hs.mpr h, (clientIp_forward_eq_iff proxy peer other trusted).mpr ho]

def visitor : Peer where
  text := "203.0.113.9"
  nonempty := by decide
  plain c hc := by
    have h : ("203.0.113.9".toList.all fun c => c ≠ ',' && !isSpace c) = true := by decide
    simpa using List.all_eq_true.mp h c hc

def nginx : ReverseProxy := { address := some "127.0.0.1", scheme := "https" }

theorem clientIp_of_visitor :
    (requestInfo (nginx.forward visitor ⟨"shop.example", none⟩) ⟨true⟩).clientIp =
      "203.0.113.9" :=
  ((clientIp_of_peer ⟨true⟩ nginx visitor ⟨"shop.example", none⟩ rfl).mpr
    fun _ h => nomatch h).1

/-- A visitor of another network gives itself an address of the office. -/
theorem clientIp_chosen_by_client :
    ¬ ∀ (config : Config) (proxy : ReverseProxy) (peer : Peer) (sent sent' : Sent),
      config.trustProxy = true → sent.host = sent'.host →
      (requestInfo (proxy.forward peer sent) config).clientIp = peer.text ∧
        (requestInfo (proxy.forward peer sent) config).clientIp =
          (requestInfo (proxy.forward peer sent') config).clientIp := by
  intro h
  have he := (h ⟨true⟩ nginx visitor ⟨"shop.example", some "10.0.0.1"⟩ ⟨"shop.example", none⟩
    rfl rfl).1
  revert he
  decide

end Tunlit.Proxy.RequestInfo
