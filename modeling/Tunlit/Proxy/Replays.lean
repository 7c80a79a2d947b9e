import Tunlit.Proxy.Courses
import Tunlit.Proxy.Spellings

/-! # Replays of stored requests

What `proxyRequest` sends to the app and records, with the `Tap` of `lib/capture.js`, and what
`replay` of `controllers/tunnels.js` and `replayRequest` make of the record. -/
namespace Tunlit.Proxy.Replays
open Tunlit.Js.Text Tunlit.Lib.Insertion Tunlit.Lib.Runs Tunlit.Mux.Frames
  Tunlit.Registry.Names Tunlit.Registry.State Tunlit.Proxy.RequestInfo Tunlit.Proxy.Headers
  Tunlit.Proxy.Spellings Tunlit.Proxy.Holds Tunlit.Proxy.Exchanges Tunlit.Proxy.Courses

/-! ## Bodies that are tapped -/

def MAX_BODY : Nat := 64 * 1024

structure Tap where
  chunks : List Bytes := []
  kept : Nat := 0
  total : Nat := 0

structure Captured where
  body : Bytes
  truncated : Bool
deriving DecidableEq

def Tap.transform (tap : Tap) (chunk : Bytes) : Tap :=
  let total := tap.total + chunk.length
  if tap.kept < MAX_BODY then
    let room := MAX_BODY - tap.kept
    let piece := if room < chunk.length then chunk.take room else chunk
    { chunks := tap.chunks ++ [piece], kept := tap.kept + piece.length, total }
  else { tap with total }

def Tap.result (tap : Tap) : Captured := ⟨tap.chunks.flatten, tap.kept < tap.total⟩

/-- What a tap has kept of the bytes that passed it. -/
structure Tap.Keeps (tap : Tap) (bytes : Bytes) : Prop where
  body : tap.chunks.flatten = bytes.take MAX_BODY
  kept : tap.kept = tap.chunks.flatten.length
  total : tap.total = bytes.length

theorem Tap.Keeps.transform {tap : Tap} {bytes : Bytes} (h : tap.Keeps bytes) (chunk : Bytes) :
    (tap.transform chunk).Keeps (bytes ++ chunk) := by
  obtain ⟨hbody, hkept, htotal⟩ := h
  have hlen : tap.kept = min MAX_BODY bytes.length := by
    rw [hkept, hbody, List.length_take]
  unfold Tap.transform
  dsimp only
  split
  · next hroom =>
    have hpiece : (if MAX_BODY - tap.kept < chunk.length then chunk.take (MAX_BODY - tap.kept)
        else chunk) = chunk.take (MAX_BODY - bytes.length) := by
      rw [show tap.kept = bytes.length by omega]
      split
      · rfl
      · next hfits => rw [List.take_of_length_le (by omega)]
    refine ⟨?_, ?_, ?_⟩
    · rw [hpiece, List.flatten_append, List.flatten_singleton, hbody, List.take_append]
    · dsimp only
      rw [List.flatten_append, List.flatten_singleton, List.length_append, hkept]
    · rw [List.length_append, htotal]
  · next hfull =>
    refine ⟨?_, hkept, ?_⟩
    · rw [hbody, List.take_append_of_le_length (by omega)]
    · rw [List.length_append, htotal]

def tapped (chunks : List Bytes) : Captured := (chunks.foldl Tap.transform {}).result

/-- A request as the app gets it. -/
structure Sent where
  method : String
  path : String
  headers : HeaderMap
  body : Bytes

/-- A row of the log, as far as a replay reads it. -/
structure Stored where
  message : Message
  host : String
  truncated : Bool

/-- A request that `proxyRequest` sends: the lines that Node parsed, what was continued with at
a breakpoint, if it was held, and else the chunks of its body. The request may have been
logged before all of them had passed. -/
structure Visit where
  lines : Pairs
  request : Exchanges.Request
  headers : request.headers = incomingHeaders lines
  decision : Option Message
  chunks : List Bytes
  passed : Nat

/-- `shape`, `incoming` and `body` of `proxyRequest` when it asks the app. -/
structure Outgoing where
  shape : Message
  incoming : HeaderMap
  body : Option Bytes

def outgoing (request : Exchanges.Request) : Option Message → Outgoing
  | none => ⟨⟨request.method, request.path, headerList request.headers, []⟩, request.headers, none⟩
  | some message =>
    ⟨{ message with body := [] }, headersFromPairs message.headers, some message.body⟩

namespace Visit

variable (visit : Visit)

def out : Outgoing := outgoing visit.request visit.decision

/-- The exchange of the request when it asks the app. -/
def exchange : Exchange :=
  { start 0 visit.request with
    shape := visit.out.shape
    incoming := visit.out.incoming
    body := visit.out.body }

/-- What `proxyRequest` sends. -/
def sent (env : Env) : Sent where
  method := visit.out.shape.method
  path := visit.out.shape.path
  headers := wire (upstreamHeaders env visit.exchange)
  body := visit.out.body.getD visit.chunks.flatten

/-- `captured().request` -/
def captured : Captured :=
  match visit.out.body with
  | none => tapped (visit.chunks.take visit.passed)
  | some body => ⟨body, false⟩

/-- What `observe` records. -/
def stored : Stored where
  message := { visit.out.shape with body := visit.captured.body }
  host := visit.request.info.host
  truncated := visit.captured.truncated

end Visit

/-- `replay`, and what `replayRequest` sends. -/
def replay (env : Env) (stored : Stored) (input : Edits) : Except String Sent := do
  let message ← edited stored.message input
  if stored.truncated && input.body.isNone then throw "The request body was too large to store"
  return ⟨message.method, message.path, wire (replayHeaders env stored.host message), message.body⟩

/-! ## Being the same -/

/-- The headers in which a replay may differ. -/
def EXCEPT : List String := HOP_BY_HOP ++ ["content-length", "x-forwarded-for"]

/-- The app gets the same again. -/
structure Same (original again : Sent) : Prop where
  method : again.method = original.method
  path : again.path = original.path
  body : again.body = original.body
  headers : ∀ name, name ∉ EXCEPT → again.headers.get name = original.headers.get name
  length : again.headers.get "content-length" =
    if again.body = [] then none else some [toString again.body.length]

/-- Headers that `replayRequest` leaves out. -/
def LEFT_OUT : List String := HOP_BY_HOP ++ ["host", "content-length"]

def resent (pairs : Pairs) : Pairs := pairs.filter fun pair => toLowerCase pair.1 ∉ LEFT_OUT

/-- The stored headers that are sent again. -/
def Visit.kept (visit : Visit) : Pairs := resent visit.out.shape.headers

/-- `wantsHtml` -/
def Visit.wantsHtml (visit : Visit) : Bool :=
  visit.request.pathMode && (mentionsHtml (text visit.out.incoming "accept") ||
    text visit.out.incoming "sec-fetch-dest" = "document")

variable {env : Env} {visit : Visit} {key : String}

theorem Visit.described (visit : Visit) :
    Lower visit.out.incoming ∧ Describes visit.out.shape.headers visit.out.incoming := by
  unfold Visit.out
  cases visit.decision with
  | none =>
    have hplain : Plain visit.request.headers := visit.headers ▸ plain_incomingHeaders visit.lines
    exact ⟨hplain.lower, describes_headerList hplain⟩
  | some message => exact ⟨lower_headersFromPairs _, get_headersFromPairs message.headers⟩

variable {pairs : Pairs} {message : Message} {host : String}

/-- A request with the header of a reverse proxy, and one without. -/
def visitOf (lines : Pairs) : Visit where
  lines := lines
  request := { Exchanges.visit with headers := incomingHeaders lines }
  headers := rfl
  decision := none
  chunks := []
  passed := 0

def proxied : Visit :=
  visitOf [("Host", "web.example.com"), ("X-Forwarded-Proto", "https"), ("Accept", "*/*")]

variable {P : Platform} {ex ex' : Exchange} {op : Op}

def ofExchange (ex : Exchange) : Outgoing := ⟨ex.shape, ex.incoming, ex.body⟩

/-- `proxyRequest` has not come to a breakpoint. -/
def isUnasked : Exchanges.Phase → Bool
  | .routed | .verifying | .collecting => true
  | _ => false

/-- `proxyRequest` has asked the app. -/
def isAsked : Exchanges.Phase → Bool
  | .requested | .collectingReply _ | .holdingReply _ | .streaming | .abandoned => true
  | _ => false

/-- An exchange carries what came, and what was decided once the app is asked. -/
structure CarriesRequest (ex : Exchange) : Prop where
  unasked : isUnasked ex.phase = true → ofExchange ex = outgoing ex.request none
  asked : isAsked ex.phase = true → ∃ decision, ofExchange ex = outgoing ex.request decision

/-- The parts of an exchange that say what is sent to the app. -/
def carried (ex : Exchange) : Exchanges.Request × Outgoing := (ex.request, ofExchange ex)

theorem carriesRequest_of_idle (hunasked : isUnasked ex.phase = false)
    (hasked : isAsked ex.phase = false) : CarriesRequest ex :=
  ⟨fun h => absurd (hunasked.symm.trans h) (by decide),
    fun h => absurd (hasked.symm.trans h) (by decide)⟩

theorem carriesRequest_of_unasked (hphase : isAsked ex.phase = false)
    (h : ofExchange ex = outgoing ex.request none) : CarriesRequest ex :=
  ⟨fun _ => h, fun hp => absurd (hphase.symm.trans hp) (by decide)⟩

theorem carriesRequest_of_over (h : ex.phase = .over) : CarriesRequest ex :=
  carriesRequest_of_idle (by rw [h]; rfl) (by rw [h]; rfl)

theorem CarriesRequest.of_same (h : CarriesRequest ex) (hphase : ex'.phase = ex.phase)
    (hsame : carried ex' = carried ex) : CarriesRequest ex' := by
  obtain ⟨hrequest, hout⟩ := Prod.mk.inj hsame
  refine ⟨fun hp => ?_, fun hp => ?_⟩
  · rw [hout, hrequest]
    exact h.unasked (hphase ▸ hp)
  · rw [hout, hrequest]
    exact h.asked (hphase ▸ hp)

/-- Once the app was asked, it does not change what was sent. -/
theorem CarriesRequest.of_asked (h : CarriesRequest ex) (hasked : isAsked ex.phase = true)
    (hphase : isUnasked ex'.phase = false) (hsame : carried ex' = carried ex) :
    CarriesRequest ex' := by
  obtain ⟨hrequest, hout⟩ := Prod.mk.inj hsame
  refine ⟨fun hp => ?_, fun _ => ?_⟩
  · rw [hphase] at hp
    cases hp
  · rw [hout, hrequest]
    exact h.asked hasked

theorem carriesRequest_forward (ex : Exchange) {decision : Option Message}
    (h : ofExchange ex = outgoing ex.request decision) : CarriesRequest (ex.forward P env) := by
  rcases forward_cases P ex env with ⟨-, hf⟩ | ⟨x, -, -, hf⟩ | ⟨x, -, -, hf⟩
  · rw [hf]
    exact carriesRequest_of_over threw_phase
  · rw [hf]
    have hphase : isUnasked Exchanges.Phase.requested = false := rfl
    exact ⟨fun hp => absurd (hphase.symm.trans hp) (by decide), fun _ => ⟨decision, h⟩⟩
  · rw [hf]
    exact carriesRequest_of_over threw_phase

theorem carriesRequest_call (ex : Exchange) (h : ofExchange ex = outgoing ex.request none) :
    CarriesRequest (ex.call P env) := by
  rcases call_cases P ex env with hf | ⟨-, hf⟩
  · rw [hf]
    exact carriesRequest_of_unasked rfl h
  · rw [hf]
    exact carriesRequest_forward { ex with called := true } h

theorem carriesRequest_writeHead (ex : Exchange) (h : CarriesRequest ex) (hasked : isAsked ex.phase = true)
    (accepted : Bool) (head : Head) : CarriesRequest (ex.writeHead accepted head) := by
  unfold Exchange.writeHead
  split
  · exact h.of_asked hasked rfl rfl
  · exact h.of_asked hasked rfl rfl

theorem carriesRequest_close (h : CarriesRequest ex) : CarriesRequest ex.close := by
  rcases close_cases ex with ⟨-, hf⟩ | ⟨-, -, hf⟩ | ⟨-, -, hf⟩ | ⟨-, hf⟩
  · rw [hf]
    exact h.of_same heardClose_phase (by rw [heardClose_eq]; rfl)
  · rw [hf]
    exact carriesRequest_of_over rfl
  · rw [hf]
    exact carriesRequest_of_over rfl
  · rw [hf]
    exact h.of_same rfl rfl

theorem carriesRequest_decide (h : CarriesRequest ex) {hold : HoldId}
    (hp : ex.phase = .holding hold ∨ ex.phase = .holdingReply hold) (decision : Decision) :
    CarriesRequest (ex.decide P env decision) := by
  rcases hp with hp | hp
  · rw [decide_holding hp]
    split
    · exact carriesRequest_of_over rfl
    · next message =>
      generalize hex : ({ ex with
        settled := ex.settled + 1
        shape := { message with body := [] }
        incoming := headersFromPairs message.headers
        body := some message.body } : Exchange) = continued
      have hout : ofExchange continued = outgoing continued.request (some message) := by
        rw [← hex]
        rfl
      exact carriesRequest_forward continued hout
    · exact carriesRequest_of_over rfl
  · have hasked : isAsked ex.phase = true := by rw [hp]; rfl
    rw [decide_holdingReply hp]
    split
    · exact carriesRequest_of_over rfl
    · dsimp only
      split
      · exact carriesRequest_of_over rfl
      · exact h.of_asked hasked rfl rfl
    · exact carriesRequest_of_over rfl

/-- Every step keeps what an exchange carries. -/
theorem carriesRequest_step (h : CarriesRequest ex) (hs : step P ex env op = some ex') :
    CarriesRequest ex' := by
  have hunasked : ∀ p, ex.phase = p → isUnasked p = true →
      ofExchange ex = outgoing ex.request none := fun p hp hu => h.unasked (hp ▸ hu)
  cases takes hs with
  | offline _ _ | denied _ _ _ | tooLarge _ _ | replayFails _ | replayed _ | fails _ =>
    exact carriesRequest_of_over rfl
  | lost _ | replyLost _ | streamLost _ | streamed _ _ | relayEnds _ =>
    exact carriesRequest_of_over rfl
  | foundOffline _ _ | refused _ _ _ => exact carriesRequest_of_over threw_phase
  | @waits _ phase hp hw _ =>
    simp only [List.mem_cons, List.not_mem_nil, or_false] at hw
    rcases hw with rfl | rfl
    · exact carriesRequest_of_unasked rfl (hunasked _ hp rfl)
    · exact carriesRequest_of_idle rfl rfl
  | @calls _ cookie hp _ _ =>
    have hout : ofExchange ex = outgoing ex.request none := by
      simp only [List.mem_cons, List.not_mem_nil, or_false] at hp
      rcases hp with hp | hp
      · exact hunasked _ hp rfl
      · exact hunasked _ hp rfl
    exact carriesRequest_call { ex with setCookie := cookie } hout
  | held _ _ => exact carriesRequest_of_idle rfl rfl
  | decided hp => exact carriesRequest_decide h hp _
  | @responded answer hp _ =>
    have hasked : isAsked ex.phase = true := by rw [hp]; rfl
    rcases respond_cases P ex env answer with hf | ⟨-, hf⟩
    · rw [hf]
      exact h.of_asked hasked rfl rfl
    · rw [hf]
      exact carriesRequest_writeHead { ex with outcome := some answer.status }
        (h.of_same rfl rfl) hasked _ _
  | replyHeld hp _ =>
    have hasked : isAsked ex.phase = true := by rw [hp]; rfl
    rw [endStream_eq]
    exact h.of_asked hasked rfl rfl
  | overflows hp _ => exact carriesRequest_writeHead ex h (by rw [hp]; rfl) _ _
  | breaks _ =>
    unfold Exchange.destroy
    split
    · exact h.of_same rfl rfl
    · exact carriesRequest_of_over rfl
  | cuts _ => exact h.of_same rfl rfl
  | closes _ => exact carriesRequest_close h
  | replays _ _ _ => exact carriesRequest_of_idle rfl rfl
  | upgrades _ _ => exact carriesRequest_of_idle rfl rfl

/-- In every run, what the app is asked is what came or what was decided at a breakpoint. -/
theorem carriesRequest (h : (machine P).Reachable ex) : CarriesRequest ex := by
  refine h.invariant ?_ ?_
  · intro ex hinit
    obtain ⟨tunnel, request, rfl⟩ := hinit
    exact carriesRequest_of_unasked rfl rfl
  · intro ex event ex' h _ hs
    exact carriesRequest_step h hs

/-- An exchange that has asked the app is that of a visit. -/
theorem visit_of_asked {lines : Pairs} (h : (machine P).Reachable ex)
    (hlines : ex.request.headers = incomingHeaders lines) (hasked : isAsked ex.phase = true)
    (chunks : List Bytes) (passed : Nat) : ∃ visit : Visit,
      visit.request = ex.request ∧ visit.chunks = chunks ∧ visit.passed = passed ∧
        visit.out = ofExchange ex ∧
        ∀ env, upstreamHeaders env visit.exchange = upstreamHeaders env ex := by
  obtain ⟨decision, hout⟩ := (carriesRequest h).asked hasked
  refine ⟨⟨lines, ex.request, hlines, decision, chunks, passed⟩, rfl, rfl, rfl, hout.symm, ?_⟩
  intro env
  have hvisit : Visit.out ⟨lines, ex.request, hlines, decision, chunks, passed⟩ =
      ofExchange ex := hout.symm
  unfold upstreamHeaders Visit.exchange
  rw [hvisit]
  rfl

end Tunlit.Proxy.Replays
