import Mathlib.Data.List.Infix
import Tunlit.Lib.Insertion
import Tunlit.Mux.Frames
import Tunlit.Proxy.RequestInfo
import Tunlit.Registry.Names

/-! # Headers on their way through the proxy

The header objects of `lib/proxy.js`: a name has a text or an array of texts, here the list
of its texts. A list of headers has a pair for every line. What Node accepts as the head
of a message is left open, as are the rewriting of locations and of cookies. -/
namespace Tunlit.Proxy.Headers
open Tunlit.Js.Text Tunlit.Lib.Insertion Tunlit.Mux.Frames Tunlit.Proxy.RequestInfo
  Tunlit.Registry.Names

abbrev Pairs := List (String × String)
abbrev HeaderMap := OrderedMap String (List String)

inductive Codec where
  | gzip
  | deflate
  | br
  | zstd
deriving DecidableEq, Repr

/-- What the code relies on outside of the repository. -/
structure Platform where
  /-- `rewriteLocation`, over `URL` -/
  rewriteLocation : String → Target → Info → Bool → String
  /-- `rewriteSetCookie`, over `Date` -/
  rewriteSetCookie : String → String
  /-- whether `http.request` takes a method, a path and headers, and does not throw -/
  acceptsRequest : String → String → HeaderMap → Bool
  /-- whether `writeHead` takes a status, a reason and headers, and does not throw -/
  acceptsHead : Nat → Option String → HeaderMap → Bool
  hasZstd : Bool
  /-- the decoders of `zlib`; none for a body that is damaged -/
  decompress : Codec → Bytes → Option Bytes

def HOP_BY_HOP : List String :=
  ["connection", "keep-alive", "proxy-authenticate", "proxy-authorization", "proxy-connection",
    "te", "trailer", "transfer-encoding", "upgrade"]

/-! ## Lists and objects -/

/-- `[].concat(headers[name], value)`, or the value where the name is new. -/
def addHeader (headers : HeaderMap) (name value : String) : HeaderMap :=
  headers.set name ((headers.get name).getD [] ++ [value])

def headersFromPairs (pairs : Pairs) : HeaderMap :=
  pairs.foldl (fun headers pair => addHeader headers (toLowerCase pair.1) pair.2) ∅

/-- `headerList` of `lib/capture.js` -/
def headerList (headers : HeaderMap) : Pairs :=
  headers.entries.flatMap fun entry => entry.2.map fun value => (entry.1, value)

/-- Headers of which Node takes the first of several lines. -/
def SINGLE : List String :=
  ["age", "authorization", "content-length", "content-type", "etag", "expires", "from", "host",
    "if-modified-since", "if-unmodified-since", "last-modified", "location", "max-forwards",
    "proxy-authorization", "referer", "retry-after", "server", "user-agent"]

/-- A line of a head, added to the `headers` of Node's message. -/
def addLine (headers : HeaderMap) (pair : String × String) : HeaderMap :=
  let key := toLowerCase pair.1
  match headers.get key with
  | none => headers.set key [pair.2]
  | some values =>
    if key = "set-cookie" then headers.set key (values ++ [pair.2])
    else if key ∈ SINGLE then headers
    else
      let separator := if key = "cookie" then "; " else ", "
      headers.set key [separator.intercalate (values ++ [pair.2])]

/-- `message.headers` of a message with these lines. -/
def incomingHeaders (rawHeaders : Pairs) : HeaderMap := rawHeaders.foldl addLine ∅

/-- `String(headers[name] || "")` -/
def text (headers : HeaderMap) (name : String) : String :=
  String.intercalate "," ((headers.get name).getD [])

/-! ## The request for the app -/

/-- `/text\/html/i.test(..)` -/
def mentionsHtml (value : String) : Bool :=
  decide ("text/html".toList <:+: (toLowerCase value).toList)

def hostHeader (target : Target) : String :=
  if target.port = 80 || target.port = 443 then target.host else target.authority

def buildUpstreamHeaders (incoming : HeaderMap) (info : Info) (target : Target)
    (keepHost : Bool) : HeaderMap :=
  let headers := incoming.filter fun name _ => name ∉ HOP_BY_HOP && name ≠ "host"
  let headers := headers.set "host" [if keepHost then info.host else hostHeader target]
  let headers := headers.set "x-forwarded-host" [info.host]
  let headers := headers.set "x-forwarded-proto" [info.proto]
  if info.clientIp = "" then headers.delete "x-forwarded-for"
  else headers.set "x-forwarded-for" [info.clientIp]

/-! ## The response for the visitor -/

/-- A header of the app, as it is passed on. -/
def passed (P : Platform) (target : Target) (info : Info) (pathMode : Bool)
    (pair : String × String) : String :=
  let key := toLowerCase pair.1
  if key = "location" then P.rewriteLocation pair.2 target info pathMode
  else if key = "set-cookie" && pathMode then P.rewriteSetCookie pair.2
  else pair.2

def buildDownstreamHeaders (P : Platform) (rawHeaders : Pairs) (target : Target) (info : Info)
    (pathMode : Bool) : HeaderMap :=
  (rawHeaders.filter fun pair => toLowerCase pair.1 ∉ HOP_BY_HOP).foldl
    (fun headers pair => addHeader headers pair.1 (passed P target info pathMode pair)) ∅

/-- The name under which there is a header, in any case. -/
def nameOf (headers : HeaderMap) (key : String) : Option String :=
  (headers.entries.find? fun entry => toLowerCase entry.1 = key).map Prod.fst

def appendCookie (headers : HeaderMap) (cookie : String) : HeaderMap :=
  addHeader headers ((nameOf headers "set-cookie").getD "set-cookie") cookie

/-- The headers but for some, in any case. -/
def without (keys : List String) (headers : HeaderMap) : HeaderMap :=
  headers.filter fun name _ => toLowerCase name ∉ keys

/-- `/^text\/html/i.test(..)` of the content type -/
def isHtml (headers : HeaderMap) : Bool :=
  "text/html".toList.isPrefixOf (toLowerCase (text headers "content-type")).toList

/-! ## Bodies -/

/-- The coding of a body, none in the inside for a plain one; none for one that is not known. -/
def codecFor (encoding : String) : Option (Option Codec) :=
  match toLowerCase (trim encoding) with
  | "gzip" | "x-gzip" => some (some .gzip)
  | "deflate" => some (some .deflate)
  | "br" => some (some .br)
  | "zstd" => some (some .zstd)
  | "" | "identity" => some none
  | _ => none

/-- `decoderFor` -/
def decoderFor (P : Platform) (encoding : String) : Option (Option Codec) :=
  (codecFor encoding).filter fun codec => codec ≠ some .zstd || P.hasZstd

def decodeBody (P : Platform) (body : Bytes) (encoding : String) : Option Bytes :=
  match decoderFor P encoding with
  | none => none
  | some none => some body
  | some (some codec) => P.decompress codec body

end Tunlit.Proxy.Headers
