import Tunlit.Js.Text
import Tunlit.Lib.Insertion
import Tunlit.Lib.Runs

/-! # Device codes

`createCode`, `approve`, `deny`, `poll` and `sweep` of `lib/devices.js`. An approval is cut
where the row of the device is created; it keeps its request, also when the code is gone by
then. The bytes of a code and the tokens are given, and none is given twice. A device keeps
the code it was created through. -/
namespace Tunlit.Devices.Codes
open Tunlit.Js.Text Tunlit.Lib.Insertion Tunlit.Lib.Runs

/-! ## Data -/

def CODE_TTL : Nat := 10 * 60 * 1000
def CODE_ALPHABET : List Char := "ABCDEFGHJKLMNPQRSTUVWXYZ23456789".toList

/-- The letters of a code, in two groups. -/
def humanCode (bytes : List UInt8) : String :=
  let letters := bytes.map fun byte => CODE_ALPHABET.getD (byte.toNat % CODE_ALPHABET.length) 'A'
  .ofList (letters.take 4 ++ '-' :: letters.drop 4)

inductive Status where
  | pending
  | authorized
deriving DecidableEq, Repr

structure Request where
  code : String
  pollToken : String
  client : String
  ip : String
  userAgent : String
  createdAt : Nat
  expiresAt : Nat
  status : Status := .pending
  issued : Option String := none
deriving DecidableEq, Repr

structure Device where
  accountId : Nat
  name : String
  token : String
  ip : Option String
  userAgent : Option String
  code : String
deriving DecidableEq, Repr

/-- An approval that waits for its row. -/
structure Approval where
  code : String
  token : String
deriving DecidableEq, Repr

/-- A token that was handed out, and to whom. -/
structure Handing where
  code : String
  pollToken : String
  token : Option String
deriving DecidableEq, Repr

structure World where
  now : Nat := 0
  /-- all requests there ever were -/
  requests : OrderedMap String Request := ∅
  /-- the codes of those that are pending, the oldest first -/
  pending : List String := []
  devices : List Device := []
  approvals : List Approval := []
  /-- the codes that were denied -/
  denied : List String := []
  /-- the codes that were authorized, and when -/
  offered : List (String × Nat) := []
  handed : List Handing := []

inductive Answer where
  | refused (code : Nat) (message : String)
  | created (code pollToken : String) (expiresAt : Nat)
  | approving
  | denied
  | polled
  | authorized (token : Option String)
  | invalid
deriving DecidableEq, Repr

/-! ## Operations -/

namespace World

variable (w : World)

def expired (code : String) : Bool :=
  (w.requests.get code).any fun request => request.expiresAt < w.now

def sweep : World := { w with pending := w.pending.filter fun code => !w.expired code }

def createCode (bytes : List UInt8) (pollToken client ip userAgent : String) : World × Answer :=
  let w := w.sweep
  let code := humanCode bytes
  let expiresAt := w.now + CODE_TTL
  let request := { code, pollToken, client, ip, userAgent, createdAt := w.now, expiresAt }
  ({ w with requests := w.requests.set code request, pending := w.pending ++ [code] },
    .created code pollToken expiresAt)

/-- `get`, behind its sweep. -/
def get (text : String) : Option Request :=
  let code := trim (toUpperCase text)
  if code ∈ w.pending then w.requests.get code else none

/-- `approve` up to the row of the device. -/
def approve (text name : String) (accountId : Nat) (token : String) : World × Answer :=
  let w := w.sweep
  match w.get text with
  | none => (w, .refused 404 "That code is unknown or has expired")
  | some request =>
    if request.status ≠ .pending then (w, .refused 409 "That code was already used")
    else
      let device : Device := {
        accountId
        name := if trim name ≠ "" then trim name
          else if request.client ≠ "" then request.client else "CLI"
        token
        ip := if request.ip ≠ "" then some request.ip else none
        userAgent := if request.userAgent ≠ "" then some request.userAgent else none
        code := request.code }
      ({ w with
        devices := w.devices ++ [device]
        approvals := w.approvals ++ [⟨request.code, token⟩] }, .approving)

/-- `approve` behind the row of the device. -/
def authorize (approval : Approval) : World :=
  match w.requests.get approval.code with
  | none => w
  | some request =>
    { w with
      requests := w.requests.set approval.code
        { request with status := .authorized, issued := some approval.token }
      offered := w.offered ++ [(approval.code, w.now)] }

def deny (text : String) : World × Answer :=
  let w := w.sweep
  match w.get text with
  | none => (w, .refused 404 "That code is unknown or has expired")
  | some request =>
    ({ w with
      pending := w.pending.filter (· ≠ request.code)
      denied := w.denied ++ [request.code] }, .denied)

/-- The request of a poll token, behind a sweep. -/
def polled (pollToken : String) : Option Request :=
  (w.pending.filterMap w.requests.get).find? fun request => request.pollToken = pollToken

def poll (pollToken : String) : World × Answer :=
  let w := w.sweep
  match w.polled pollToken with
  | none => (w, .invalid)
  | some request =>
    if request.status ≠ .authorized then (w, .polled)
    else
      ({ w with
        pending := w.pending.filter (· ≠ request.code)
        handed := w.handed ++ [⟨request.code, pollToken, request.issued⟩] },
        .authorized request.issued)

end World

/-! ## The machine -/

inductive Event where
  | passes (time : Nat)
  | sweep
  | createCode (bytes : List UInt8) (pollToken client ip userAgent : String)
  | approve (text name : String) (accountId : Nat) (token : String)
  | resume (i : Nat)
  | deny (text : String)
  | poll (pollToken : String)

/-- A code and a poll token that were not given before. -/
def World.isNew (w : World) (bytes : List UInt8) (pollToken : String) : Bool :=
  (w.requests.get (humanCode bytes)).isNone &&
    w.requests.entries.all fun entry => entry.2.pollToken ≠ pollToken

def step (w : World) : Event → Option World
  | .passes time => some { w with now := w.now + time }
  | .sweep => some w.sweep
  | .createCode bytes pollToken client ip userAgent =>
    if w.isNew bytes pollToken then some (w.createCode bytes pollToken client ip userAgent).1
    else none
  | .approve text name accountId token =>
    if w.devices.all fun device => device.token ≠ token then
      some (w.approve text name accountId token).1
    else none
  | .resume i => w.approvals[i]?.map fun approval =>
    World.authorize { w with approvals := w.approvals.eraseIdx i } approval
  | .deny text => some (w.deny text).1
  | .poll pollToken => some (w.poll pollToken).1

def machine : Machine World Event := ⟨(· = {}), step⟩

end Tunlit.Devices.Codes
