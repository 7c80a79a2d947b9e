import Mathlib.Data.List.DropRight
import Mathlib.Tactic.Common
import Tunlit.Js.Text

/-! # The configuration

`utils/config.js`. A configuration comes from the defaults, the config file and the
environment; the stored settings are laid over it when the server starts, those of the web
UI while it runs. How a finite number is written as text is a parameter. -/
namespace Tunlit.Settings.Layers
open Tunlit.Js.Text

/-! ## Values -/

inductive Num where
  | nan
  | infinite (negative : Bool)
  | finite (q : ℚ)
deriving DecidableEq, Repr

/-- A value that is not undefined. -/
inductive Value where
  | null
  | bool (b : Bool)
  | number (n : Num)
  | text (s : String)
  | array (items : List Value)
  | object
deriving Inhabited

namespace Value

mutual

/-- What is read back of `JSON.stringify`. -/
def json : Value → Value
  | .number .nan => .null
  | .number (.infinite _) => .null
  | .array items => .array (jsonItems items)
  | value => value

def jsonItems : List Value → List Value
  | [] => []
  | item :: items => item.json :: jsonItems items

end

mutual

/-- There is no number in a value but finite ones. -/
def isFinite : Value → Bool
  | .number .nan => false
  | .number (.infinite _) => false
  | .array items => areFinite items
  | _ => true

def areFinite : List Value → Bool
  | [] => true
  | item :: items => item.isFinite && areFinite items

end

def truthy : Value → Bool
  | .null => false
  | .bool b => b
  | .number .nan => false
  | .number (.finite q) => q ≠ 0
  | .text s => s ≠ ""
  | _ => true

/-- `===` on values of which objects are never the same. -/
def same : Value → Value → Bool
  | .null, .null => true
  | .bool a, .bool b => a = b
  | .number .nan, .number .nan => false
  | .number a, .number b => a = b
  | .text a, .text b => a = b
  | _, _ => false

/-- Values that stand for no stored setting. -/
def isBlank : Value → Bool
  | .null => true
  | .text s => s = ""
  | _ => false

def isNull : Value → Bool
  | .null => true
  | _ => false

end Value

section
variable (numeral : ℚ → String)

mutual

/-- `String` -/
def Value.string : Value → String
  | .null => "null"
  | .bool b => if b then "true" else "false"
  | .number .nan => "NaN"
  | .number (.infinite negative) => if negative then "-Infinity" else "Infinity"
  | .number (.finite q) => numeral q
  | .text s => s
  | .array items => ",".intercalate (Value.itemStrings items)
  | .object => "[object Object]"

def Value.itemStrings : List Value → List String
  | [] => []
  | item :: items => (if item.isNull then "" else item.string) :: Value.itemStrings items

end

/-- `Number`; none if it is not finite. -/
def Value.toNumber : Value → Option ℚ
  | .null => some 0
  | .bool b => some (if b then 1 else 0)
  | .number (.finite q) => some q
  | .number _ => none
  | .text s => Js.Text.number s.toList
  | .array items => Js.Text.number ((Value.array items).string numeral).toList
  | .object => none

/-- `String(value || fallback)` -/
def Value.orElse (value : Value) (fallback : String) : String :=
  if value.truthy then value.string numeral else fallback

end

def Value.ofNumber : Option ℚ → Value
  | some q => .number (.finite q)
  | none => .number .nan

/-! ## Keys -/

inductive Key where
  | listen
  | port
  | httpsPort
  | redirectPort
  | baseDomain
  | publicUrl
  | tlsMode
  | acmeDirectoryUrl
  | trustProxy
  | httpMode
  | gracePeriod
deriving DecidableEq, Repr

inductive Source where
  | default
  | file
  | env
  | ui
deriving DecidableEq, Repr

def DEFAULTS : Key → Value
  | .listen => .text "0.0.0.0"
  | .port => .number (.finite 8080)
  | .httpsPort => .number (.finite 443)
  | .redirectPort => .number (.finite 80)
  | .baseDomain => .text ""
  | .publicUrl => .text ""
  | .tlsMode => .text "proxy"
  | .acmeDirectoryUrl => .text ""
  | .trustProxy => .bool false
  | .httpMode => .text "subdomain"
  | .gracePeriod => .number (.finite 30)

def ENV : Key → String
  | .listen => "TUNLIT_LISTEN"
  | .port => "TUNLIT_PORT"
  | .httpsPort => "TUNLIT_HTTPS_PORT"
  | .redirectPort => "TUNLIT_REDIRECT_PORT"
  | .tlsMode => "TUNLIT_TLS_MODE"
  | .acmeDirectoryUrl => "TUNLIT_ACME_DIRECTORY"
  | .baseDomain => "TUNLIT_BASE_DOMAIN"
  | .publicUrl => "TUNLIT_PUBLIC_URL"
  | .trustProxy => "TUNLIT_TRUST_PROXY"
  | .httpMode => "TUNLIT_HTTP_MODE"
  | .gracePeriod => "TUNLIT_GRACE_PERIOD"

def UI_SETTING_KEYS : List Key :=
  [.baseDomain, .publicUrl, .httpMode, .gracePeriod, .tlsMode, .trustProxy]

def PINNED_BY_ENV : Key → Option String
  | .tlsMode => some "The HTTPS mode"
  | _ => none

/-! ## Normal form -/

/-- A configuration before it is normalized. -/
structure Raw where
  values : Key → Value
  publicUrlConfigured : Option Value := none

structure Config where
  listen : Value
  port : Option ℚ
  httpsPort : Option ℚ
  redirectPort : Option ℚ
  gracePeriod : Option ℚ
  baseDomain : String
  httpMode : String
  tlsMode : String
  acmeDirectoryUrl : String
  managesTls : Bool
  trustProxy : Bool
  publicUrlConfigured : String
  publicUrl : String
  publicScheme : String
  wildcard : Bool
  ready : Bool

namespace Config

variable (config : Config)

/-- `config[key]` -/
def get : Key → Value
  | .listen => config.listen
  | .port => .ofNumber config.port
  | .httpsPort => .ofNumber config.httpsPort
  | .redirectPort => .ofNumber config.redirectPort
  | .baseDomain => .text config.baseDomain
  | .publicUrl => .text config.publicUrl
  | .tlsMode => .text config.tlsMode
  | .acmeDirectoryUrl => .text config.acmeDirectoryUrl
  | .trustProxy => .bool config.trustProxy
  | .httpMode => .text config.httpMode
  | .gracePeriod => .ofNumber config.gracePeriod

/-- What the web UI is shown of a setting. -/
def shown (key : Key) : Value :=
  if key = .publicUrl then .text config.publicUrlConfigured else config.get key

def raw : Raw := ⟨config.get, some (.text config.publicUrlConfigured)⟩

end Config

def lowerTrim (s : String) : String := toLowerCase (trim s)

def parseBool (s : String) : Bool := lowerTrim s ∈ ["1", "true", "yes", "on"]

/-- `.replace(/^\.+/, "").replace(/\.+$/, "")` -/
def stripDots (s : String) : String :=
  .ofList ((s.toList.dropWhile (· = '.')).rdropWhile (· = '.'))

/-- `.replace(/\/+$/, "")` -/
def stripSlashes (s : String) : String := .ofList (s.toList.rdropWhile (· = '/'))

section
variable (numeral : ℚ → String)

def host (value : Value) : String := stripDots (lowerTrim (value.orElse numeral ""))

def mode (fallback : String) (value : Value) : String := lowerTrim (value.orElse numeral fallback)

def directory (value : Value) : String := trim (value.orElse numeral "")

def isTrusted : Value → Bool
  | .bool b => b
  | value => parseBool (value.string numeral)

theorem isTrusted_bool (b : Bool) : isTrusted numeral (.bool b) = b := rfl

def url (value : Value) : String :=
  if value.isNull then "" else stripSlashes (trim (value.string numeral))

/-- `config.publicUrlConfigured ?? config.publicUrl` -/
def Raw.url (raw : Raw) : Value :=
  match raw.publicUrlConfigured with
  | some value => if value.isNull then raw.values .publicUrl else value
  | none => raw.values .publicUrl

def normalize (raw : Raw) : Config :=
  let baseDomain := host numeral (raw.values .baseDomain)
  let httpMode := mode numeral "subdomain" (raw.values .httpMode)
  let tlsMode := mode numeral "proxy" (raw.values .tlsMode)
  let publicUrlConfigured := url numeral raw.url
  let publicUrl :=
    if publicUrlConfigured ≠ "" then publicUrlConfigured
    else if baseDomain ≠ "" then "https://" ++ baseDomain else ""
  { listen := raw.values .listen
    port := (raw.values .port).toNumber numeral
    httpsPort := (raw.values .httpsPort).toNumber numeral
    redirectPort := (raw.values .redirectPort).toNumber numeral
    gracePeriod := (raw.values .gracePeriod).toNumber numeral
    baseDomain, httpMode, tlsMode
    acmeDirectoryUrl := directory numeral (raw.values .acmeDirectoryUrl)
    managesTls := tlsMode = "acme"
    trustProxy := tlsMode ≠ "acme" && isTrusted numeral (raw.values .trustProxy)
    publicUrlConfigured, publicUrl
    publicScheme := if publicUrl.toList.take 7 = "http://".toList then "http" else "https"
    wildcard := httpMode = "subdomain"
    ready := baseDomain ≠ "" }

end

/-! ## Checks -/

def isPort (port : Option ℚ) : Bool := port.any fun q => q.isInt && 1 ≤ q && q ≤ 65535

/-- `[a-z0-9.-]` -/
def isHostChar (c : Char) : Bool := isLower c || isDigit c || c = '.' || c = '-'

/-- `[^/\s]+` -/
def isAuthority (text : List Char) : Bool := text ≠ [] && text.all fun c => c ≠ '/' && !isSpace c

/-- `^https?:\/\/[^/\s]+$` -/
def isPublicUrl (text : List Char) : Bool :=
  text.take 7 = "http://".toList && isAuthority (text.drop 7) ||
    text.take 8 = "https://".toList && isAuthority (text.drop 8)

def isBaseDomain (text : List Char) : Bool := text.all isHostChar

def problem (wrong : Bool) (message : String) : List String := if wrong then [message] else []

def validate (config : Config) : List String :=
  problem (config.httpMode ∉ ["subdomain", "path"]) "httpMode must be \"subdomain\" or \"path\"" ++
  problem (config.tlsMode ∉ ["proxy", "acme"]) "tlsMode must be \"proxy\" or \"acme\"" ++
  problem (!isPort config.port) "port must be a number between 1 and 65535" ++
  problem (!isPort config.httpsPort) "httpsPort must be a number between 1 and 65535" ++
  problem (!isPort config.redirectPort) "redirectPort must be a number between 1 and 65535" ++
  problem (!config.gracePeriod.any (0 ≤ ·))
    "gracePeriod must be a non-negative number of seconds" ++
  problem (config.publicUrlConfigured ≠ "" && !isPublicUrl config.publicUrlConfigured.toList)
    "publicUrl must look like https://host[:port] without a path" ++
  problem (config.baseDomain ≠ "" && !isBaseDomain config.baseDomain.toList)
    "baseDomain must be a hostname"

/-! ## Layers -/

/-- A configuration and where its settings come from. -/
structure Live where
  config : Config
  sources : Key → Source

def Live.pinned (live : Live) (key : Key) : Bool :=
  (PINNED_BY_ENV key).isSome && live.sources key = .env

/-- The settings of a request, in the order of their keys. -/
abbrev Entries := List (Key × Value)

/-- The stored settings, as they are read. -/
abbrev Stored := Key → Option Value

/-- What a config file holds. -/
inductive File where
  | absent
  | mapping (values : Key → Option Value)
  | other (truthy : Bool)

def File.read : File → Except String (Key → Option Value)
  | .absent => .ok fun _ => none
  | .mapping values => .ok values
  | .other truthy => if truthy then .error "must contain a YAML mapping" else .ok fun _ => none

section
variable (numeral : ℚ → String)

def loadConfig (env : String → Option String) (file : File) : Except String Live :=
  file.read.bind fun fromFile =>
    let given (key : Key) : Value × Source :=
      match (env (ENV key)).filter (· ≠ "") with
      | some text => (.text text, .env)
      | none =>
        match (fromFile key).filter (!·.isBlank) with
        | some value => (value, .file)
        | none => (DEFAULTS key, .default)
    let config := normalize numeral ⟨fun key => (given key).1, none⟩
    if validate config = [] then .ok ⟨config, fun key => (given key).2⟩
    else .error ("Invalid configuration:\n  - " ++ "\n  - ".intercalate (validate config))

/-- A request laid over the live configuration. -/
def Config.with (config : Config) (settings : Entries) : Raw where
  values key := (settings.lookup key).getD (config.get key)
  publicUrlConfigured := some ((settings.lookup .publicUrl).getD (.text config.publicUrlConfigured))

/-- A pinned setting that a request would change. -/
def Live.mismatch (live : Live) (settings : Entries) : Option (Key × Value) :=
  settings.find? fun entry => live.pinned entry.1 &&
    !(Value.text (lowerTrim (entry.2.string numeral))).same (live.config.get entry.1)

def Live.unpinned (live : Live) (settings : Entries) : Entries :=
  settings.filter fun entry => !live.pinned entry.1

def applySettings (live : Live) (requested : Entries) : Except String Live :=
  match live.mismatch numeral requested with
  | some (key, _) => .error ((PINNED_BY_ENV key).getD "" ++ " is set by " ++ ENV key)
  | none =>
    let settings := live.unpinned requested
    let next := normalize numeral (live.config.with settings)
    if validate next = [] then
      .ok ⟨next, fun key => if (settings.lookup key).isSome then .ui else live.sources key⟩
    else .error (", ".intercalate (validate next))

/-- A stored setting that is taken. -/
def Live.taken (live : Live) (stored : Stored) (key : Key) : Option Value :=
  if key ∈ UI_SETTING_KEYS then (stored key).filter fun value => !value.isBlank && !live.pinned key
  else none

/-- The stored settings laid over a loaded configuration. -/
def Live.withStored (live : Live) (stored : Stored) : Raw where
  values key := (live.taken stored key).getD (live.config.get key)
  publicUrlConfigured := (stored .publicUrl).or (some (.text live.config.publicUrlConfigured))

def applyStored (live : Live) (stored : Stored) : Except String Live :=
  let config := normalize numeral (live.withStored stored)
  if validate config = [] then
    .ok ⟨config, fun key => if (live.taken stored key).isSome then .ui else live.sources key⟩
  else .error ("Stored settings are invalid:\n  - " ++ "\n  - ".intercalate (validate config))

end

/-! ## What a request picks -/

/-- `pickSettings` of `controllers/setup.js` -/
def pickSettings (numeral : ℚ → String) (body : Key → Option Value) : Entries :=
  UI_SETTING_KEYS.filterMap fun key => (body key).map fun value => (key,
    match key with
    | .gracePeriod => .ofNumber (value.toNumber numeral)
    | .trustProxy => .bool (value.same (.bool true) || value.same (.text "true"))
    | _ => value)

end Tunlit.Settings.Layers
