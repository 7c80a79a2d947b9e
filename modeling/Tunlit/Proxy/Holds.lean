import Tunlit.Mux.Frames
import Tunlit.Proxy.Headers

/-! # Breakpoints

`lib/breakpoints.js` holds requests and responses that a rule matches, and
`controllers/tunnels.js` resolves them, with or without edits. The id of a hold is random;
here holds are numbered. -/
namespace Tunlit.Proxy.Holds
open Function Tunlit.Js.Text Tunlit.Lib.Insertion Tunlit.Mux.Frames Tunlit.Proxy.Headers

/-! ## Rules -/

def MAX_RULES : Nat := 32

inductive Phase where
  | request
  | response
  | both
deriving DecidableEq, Repr

def PHASES : List (String × Phase) :=
  [("request", .request), ("response", .response), ("both", .both)]

structure Rule where
  method : Option String
  path : String
  phase : Phase
deriving DecidableEq, Repr

/-- A rule as it is sent, its values as texts. -/
structure RuleInput where
  method : String := ""
  path : String
  phase : String
deriving DecidableEq, Repr

def startsWith (text start : String) : Bool := start.toList.isPrefixOf text.toList

/-- `/^[A-Z]{3,10}$/` -/
def isMethod (method : String) : Bool :=
  3 ≤ method.length && method.length ≤ 10 && method.toList.all isUpper

def normalizeRule (rule : RuleInput) : Except String Rule := do
  let method := if rule.method = "" then none else some (toUpperCase (trim rule.method))
  if method.any fun method => method ≠ "" && !isMethod method then
    throw ("\"" ++ rule.method ++ "\" is not a method")
  let path := trim rule.path
  if !startsWith path "/" then throw "A breakpoint path must start with /"
  match PHASES.lookup rule.phase with
  | some phase => return ⟨method, path, phase⟩
  | none => throw ("phase must be one of " ++ ", ".intercalate (PHASES.map Prod.fst))

/-- none where the input is no list -/
def normalizeRules (input : Option (List RuleInput)) : Except String (List Rule) :=
  match input with
  | none => .error "rules must be a list"
  | some rules =>
    if MAX_RULES < rules.length then .error ("At most " ++ toString MAX_RULES ++ " breakpoints")
    else rules.mapM normalizeRule

/-! ## Holds -/

/-- A request as it is held: its shape, and its body in full. -/
structure Message where
  method : String
  path : String
  headers : Pairs
  body : Bytes := []
deriving DecidableEq

structure Reply where
  status : Nat
  headers : Pairs
  body : Bytes
deriving DecidableEq

inductive Content where
  | request (message : Message)
  | response (reply : Reply)
deriving DecidableEq

abbrev HoldId := Nat
abbrev ExchangeRef := Nat

/-- What is held for a tunnel, and the exchange that waits for the decision. -/
structure Entry where
  tunnel : String
  exchange : ExchangeRef
  content : Content
deriving DecidableEq

structure Breakpoints where
  rules : String → List Rule := fun _ => []
  held : OrderedMap HoldId Entry := ∅
  nextHold : HoldId := 0

namespace Breakpoints

def setRules (breakpoints : Breakpoints) (tunnel : String) (rules : List Rule) : Breakpoints :=
  { breakpoints with rules := update breakpoints.rules tunnel rules }

def matched (breakpoints : Breakpoints) (tunnel method path : String) (phase : Phase) : Bool :=
  (breakpoints.rules tunnel).any fun rule =>
    (rule.phase = phase || rule.phase = .both) &&
      (rule.method.all fun m => m = "" || m = method) && startsWith path rule.path

def hold (breakpoints : Breakpoints) (entry : Entry) : Breakpoints :=
  { breakpoints with
    held := breakpoints.held.set breakpoints.nextHold entry
    nextHold := breakpoints.nextHold + 1 }

/-- The part of `settle` that is done to the store. -/
def release (breakpoints : Breakpoints) (id : HoldId) : Breakpoints :=
  { breakpoints with held := breakpoints.held.delete id }

def get (breakpoints : Breakpoints) (tunnel : String) (id : HoldId) : Option Entry :=
  (breakpoints.held.get id).filter fun entry => entry.tunnel = tunnel

/-- The holds that `forget` cancels. -/
def holdsOf (breakpoints : Breakpoints) (tunnel : String) : List HoldId :=
  (breakpoints.held.entries.filter fun e => e.2.tunnel = tunnel).map Prod.fst

end Breakpoints

/-! ## Decisions -/

inductive Decision where
  | cancel
  | drop
  | continueRequest (message : Message)
  | continueResponse (reply : Reply)
deriving DecidableEq

inductive HeadersInput where
  | malformed
  | pairs (pairs : Pairs)
deriving DecidableEq

/-- What is sent to resolve a hold, its values as texts. -/
structure Edits where
  action : String := ""
  method : Option String := none
  path : Option String := none
  headers : Option HeadersInput := none
  body : Option String := none
  status : Option String := none
deriving DecidableEq

def editedHeaders (stored : Pairs) (input : Edits) : Except String Pairs :=
  match input.headers with
  | none => .ok stored
  | some .malformed => .error "Headers must be a list of [name, value] pairs"
  | some (.pairs pairs) =>
    .ok ((pairs.map fun pair => (trim pair.1, trim pair.2)).filter fun pair => pair.1 ≠ "")

def editedBody (stored : Bytes) (input : Edits) : Bytes :=
  match input.body with
  | none => stored
  | some text => text.toUTF8.toList

def edited (stored : Message) (input : Edits) : Except String Message := do
  let headers ← editedHeaders stored.headers input
  let method ← match input.method with
    | none => pure stored.method
    | some text =>
      let method := toUpperCase (trim text)
      if isMethod method then pure method else throw "Invalid method"
  let path ← match input.path with
    | none => pure stored.path
    | some text =>
      let path := trim text
      if startsWith path "/" then pure path else throw "The path must start with /"
  return ⟨method, path, headers, editedBody stored.body input⟩

def editedResponse (stored : Reply) (input : Edits) : Except String Reply := do
  let headers ← editedHeaders stored.headers input
  let status ← match input.status with
    | none => pure stored.status
    | some text =>
      match (number text.toList).bind integer with
      | some status =>
        if status < 100 || 599 < status then throw "Invalid status" else pure status.toNat
      | none => throw "Invalid status"
  return ⟨status, headers, editedBody stored.body input⟩

/-- The decision of `resolveBreakpoint`, or the message that it answers with. -/
def resolution (content : Content) (input : Edits) : Except String Decision :=
  if input.action = "drop" then .ok .drop
  else match content with
    | .request message => (edited message input).map .continueRequest
    | .response reply => (editedResponse reply input).map .continueResponse

end Tunlit.Proxy.Holds
