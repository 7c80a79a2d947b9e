import Mathlib.Data.List.Forall2
import Mathlib.Data.List.Induction
import Mathlib.Data.Rat.Defs
import Tunlit.Lib.Base64
import Tunlit.Lib.Insertion
import Tunlit.Lib.Utf8

/-! # The export of what was recorded

`lib/har.js` and the route that calls it, with `detail` of `lib/traffic.js` and `forConnections` of
`lib/wsframes.js`, which bring the stored rows. How a URL is parsed and how a date is written are
parameters; an export that throws is `none`. -/
namespace Tunlit.Logs.Har
open Tunlit.Lib.Insertion
open Tunlit.Lib

/-! ## Rows -/

/-- One side of a request as it is stored. -/
structure Part where
  headers : List (String × String)
  body : Option (List UInt8)
  bytes : ℕ

structure Row where
  time : ℕ
  duration : ℕ
  kind : String
  connection : Option String
  method : Option String
  path : Option String
  status : Option ℕ
  ip : Option String
  host : Option String
  request : Part
  response : Part

structure Frame where
  tunnel : String
  connection : String
  direction : String
  opcode : ℕ
  time : ℕ
  payload : Option (List UInt8)

/-- A part with its body as base64. -/
structure PartText where
  headers : List (String × String)
  body : Option (List Char)
  bytes : ℕ

/-- What `detail` makes of a row. -/
structure Detail where
  row : Row
  request : PartText
  response : PartText

structure FrameText where
  direction : String
  opcode : ℕ
  time : ℕ
  payload : Option (List Char)

def toText (body : Option (List UInt8)) : Option (List Char) := body.map Base64.encode

def partText (part : Part) : PartText := ⟨part.headers, toText part.body, part.bytes⟩

def detail (row : Row) : Detail := ⟨row, partText row.request, partText row.response⟩

/-- A text, and whether it is base64 of the bytes. -/
structure Content where
  text : List Char
  base64 : Bool
deriving DecidableEq

structure Message where
  send : Bool
  time : ℚ
  opcode : ℕ
  data : List Char

structure Url where
  href : String
  searchParams : List (String × String)

structure Entry where
  startedDateTime : String
  time : ℕ
  method : Option String
  url : String
  requestHeaders : List (String × String)
  queryString : List (String × String)
  requestSize : ℕ
  postData : Option (String × Option Content)
  status : ℕ
  responseHeaders : List (String × String)
  responseSize : ℕ
  mimeType : String
  content : Option Content
  redirectURL : String
  serverIPAddress : Option String
  messages : Option (List Message)

def header (list : List (String × String)) (wanted : String) : String :=
  ((list.find? fun pair => pair.1.toLower = wanted).map Prod.snd).getD ""

def text (body : Option (List Char)) : Option Content :=
  match body with
  | none | some [] => none
  | some body =>
    let bytes := Base64.decode body
    let decoded := Utf8.decode bytes
    some (if Utf8.encode decoded = bytes then ⟨decoded, false⟩ else ⟨body, true⟩)

def message (frame : FrameText) : Message where
  send := frame.direction = "in"
  time := frame.time / 1000
  opcode := frame.opcode
  data := match frame.payload with
    | none | some [] => []
    | some payload => if frame.opcode = 1 then Utf8.decode (Base64.decode payload)
      else Base64.encode (Base64.decode payload)

/-- `null` in a template. -/
def shown (value : Option String) : String := value.getD "null"

section

variable (parseUrl : String → String → Option Url) (toISOString : ℕ → String)

def entry (scheme : String) (frames : OrderedMap String (List FrameText)) (detail : Detail) :
    Option Entry :=
  let row := detail.row
  (parseUrl (shown row.path) (scheme ++ "://" ++ shown row.host)).map fun url =>
    { startedDateTime := toISOString row.time
      time := row.duration
      method := if row.kind = "ws" then some "GET" else row.method
      url := url.href
      requestHeaders := detail.request.headers
      queryString := url.searchParams
      requestSize := detail.request.bytes
      postData := match detail.request.body with
        | none | some [] => none
        | some body => some (header detail.request.headers "content-type", text (some body))
      status := row.status.getD 0
      responseHeaders := detail.response.headers
      responseSize := detail.response.bytes
      mimeType := header detail.response.headers "content-type"
      content := text detail.response.body
      redirectURL := header detail.response.headers "location"
      serverIPAddress := row.ip
      messages := if row.kind = "ws" then
          some (((row.connection.bind frames.get).getD []).map message)
        else none }

end

/-! ## Bodies -/

variable {frames : List Frame} {tunnel : String} {connections : List String}

variable {parseUrl : String → String → Option Url} {toISOString : ℕ → String} {scheme : String}

end Tunlit.Logs.Har
