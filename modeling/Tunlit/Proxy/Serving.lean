import Tunlit.Proxy.Courses
import Tunlit.Registry.System

/-! # The server of visitors

The exchanges over the registry and the breakpoints. An exchange finds its tunnel as the
registry left it, also when the tunnel is not registered any more; the listener of
`index.js` drops the rules and the holds of a tunnel that is removed. -/
namespace Tunlit.Proxy.Serving
open Function Tunlit.Lib.Insertion Tunlit.Lib.Runs Tunlit.Registry Tunlit.Registry.State
  Tunlit.Proxy.Headers Tunlit.Proxy.Holds Tunlit.Proxy.Exchanges

structure Server where
  hub : Hub := {}
  breakpoints : Breakpoints := {}
  exchanges : ExchangeRef → Option Exchange := fun _ => none
  nextExchange : ExchangeRef := 0
  /-- the holds that were settled -/
  settled : List HoldId := []

/-- The hold whose decision an exchange waits for. -/
def holdOf : Exchanges.Phase → Option HoldId
  | .holding hold | .holdingReply hold => some hold
  | _ => none

/-- What is held of an exchange when a body is complete. -/
def contentOf (P : Platform) (ex : Exchange) (op : Op) : Option Content :=
  match ex.phase, op with
  | .collecting, .collected (.complete body) _ => some (.request { ex.shape with body := body })
  | .collectingReply answer, .replied (.complete body) _ =>
    some (.response (heldReply P answer body))
  | _, _ => none

/-- The session that a stream belongs to. -/
def sessionOf : Stream → Option SessionRef
  | .none => none
  | .opened x | .ended x => some x

namespace Server

variable (P : Platform) (s : Server)

def env (r : TunnelRef) : Env :=
  let tunnel := s.hub.heap r
  { target := tunnel.target
    keepHost := tunnel.keepHost
    session := tunnel.session.filter fun x => !(s.hub.sessions x).closed
    holds := s.breakpoints.matched tunnel.id }

def setExchange (i : ExchangeRef) (ex : Exchange) : Server :=
  { s with exchanges := update s.exchanges i (some ex) }

/-- `settle`, and what the exchange makes of the decision. -/
def settle (hold : HoldId) (decision : Decision) : Server :=
  match s.breakpoints.held.get hold with
  | none => s
  | some entry =>
    let s := { s with
      breakpoints := s.breakpoints.release hold
      settled := s.settled ++ [hold] }
    match s.exchanges entry.exchange with
    | none => s
    | some ex =>
      match Exchanges.step P ex (s.env ex.tunnel) (.decided decision) with
      | some ex' => s.setExchange entry.exchange ex'
      | none => s

def forget (id : String) : Server :=
  (s.breakpoints.holdsOf id).foldl (fun s hold => s.settle P hold .cancel)
    { s with breakpoints := s.breakpoints.setRules id [] }

/-- The end of a session destroys its streams. -/
def cutStreams (closed : SessionRef → Bool) : Server :=
  { s with exchanges := fun i => (s.exchanges i).map fun ex =>
      if (sessionOf ex.stream).any closed then ex.cut else ex }

/-- A turn of the registry. -/
def follow (hub : Hub) : Server :=
  let gone := (s.hub.tunnels.entries.map Prod.fst).filter fun id => !hub.tunnels.has id
  gone.foldl (forget P)
    ({ s with hub := hub }.cutStreams fun x => (hub.sessions x).closed)

/-- `setBreakpoints` -/
def setRules (id : String) (input : Option (List RuleInput)) : Server :=
  if s.hub.tunnels.has id then
    match normalizeRules input with
    | .ok rules => { s with breakpoints := s.breakpoints.setRules id rules }
    | .error _ => s
  else s

/-- `resolveBreakpoint` -/
def resolve (id : String) (hold : HoldId) (edits : Edits) : Server :=
  if s.hub.tunnels.has id then
    match s.breakpoints.get id hold with
    | none => s
    | some entry =>
      match resolution entry.content edits with
      | .ok decision => s.settle P hold decision
      | .error _ => s
  else s

/-- A request that is routed to a tunnel. -/
def begin (id : String) (request : Exchanges.Request) (op : Op) : Option Server :=
  (s.hub.tunnels.get id).bind fun r =>
    (Exchanges.step P (start r request) (s.env r) op).map fun ex =>
      { s.setExchange s.nextExchange ex with nextExchange := s.nextExchange + 1 }

/-- An event of an exchange; a hold is entered, or left by a response that closes. -/
def goOn (i : ExchangeRef) (op : Op) : Option Server :=
  (s.exchanges i).bind fun ex =>
    (Exchanges.step P ex (s.env ex.tunnel) op).map fun ex' =>
      let s := s.setExchange i ex'
      match contentOf P ex op with
      | some content =>
        { s with breakpoints := s.breakpoints.hold ⟨(s.hub.heap ex.tunnel).id, i, content⟩ }
      | none =>
        match (holdOf ex.phase).filter fun _ => holdOf ex'.phase = none with
        | some hold => s.settle P hold .cancel
        | none => s

/-- The events of an exchange that do not come from the server. -/
def own : Op → Bool
  | .verified _ | .responded _ | .streamed _ | .upstreamError | .peerCloses | .closes | .found _
  | .replayed _ | .relayEnds => true
  | .collected _ hold | .replied _ hold => hold = s.breakpoints.nextHold
  | .route _ | .decided _ | .sessionCloses | .routeReplay | .routeUpgrade _ => false

end Server

/-! ## The machine -/

inductive Event where
  | registry (e : System.Event)
  | setRules (id : String) (input : Option (List RuleInput))
  | resolve (id : String) (hold : HoldId) (edits : Edits)
  -- what a visitor asks of a tunnel, and what the web UI does in a replay
  | request (id : String) (request : Exchanges.Request) (gate : Gate)
  | upgrade (id : String) (request : Exchanges.Request) (gate : Gate)
  | replay (id : String) (request : Exchanges.Request)
  | exchange (i : ExchangeRef) (op : Op)

def step (P : Platform) (s : Server) : Event → Option Server
  | .registry e => (System.step s.hub e).map (s.follow P)
  | .setRules id input => some (s.setRules id input)
  | .resolve id hold edits => some (s.resolve P id hold edits)
  | .request id request gate => s.begin P id request (.route gate)
  | .upgrade id request gate => s.begin P id request (.routeUpgrade gate)
  | .replay id request => s.begin P id request .routeReplay
  | .exchange i op => if s.own op then s.goOn P i op else none

def machine (P : Platform) : Machine Server Event where
  init s := ∃ config, s = { hub := { config := config } }
  step := step P

/-! ## One exchange among the others -/

/-- What one exchange takes up. -/
structure Move where
  i : ExchangeRef
  ex : Exchange
  op : Op

/-- The move that an event is, for events that move one exchange. -/
def moveOf (s : Server) : Event → Option Move
  | .registry _ | .setRules _ _ => none
  | .resolve id hold edits =>
    if s.hub.tunnels.has id then
      (s.breakpoints.get id hold).bind fun entry =>
        (resolution entry.content edits).toOption.bind fun decision =>
          (s.exchanges entry.exchange).map fun ex => ⟨entry.exchange, ex, .decided decision⟩
    else none
  | .request id request gate =>
    (s.hub.tunnels.get id).map fun r => ⟨s.nextExchange, start r request, .route gate⟩
  | .upgrade id request gate =>
    (s.hub.tunnels.get id).map fun r => ⟨s.nextExchange, start r request, .routeUpgrade gate⟩
  | .replay id request =>
    (s.hub.tunnels.get id).map fun r => ⟨s.nextExchange, start r request, .routeReplay⟩
  | .exchange i op => (s.exchanges i).map fun ex => ⟨i, ex, op⟩

variable {P : Platform} {s s' : Server} {I : ExchangeRef → Exchange → Prop}

/-- A property of every exchange on its own. -/
def Each (I : ExchangeRef → Exchange → Prop) (s : Server) : Prop :=
  ∀ i ex, s.exchanges i = some ex → I i ex

theorem Each.setExchange {i : ExchangeRef} {ex : Exchange} (h : Each I s) (hex : I i ex) :
    Each I (s.setExchange i ex) := by
  intro j exj hj
  simp only [Server.setExchange, update_apply] at hj
  split at hj
  · next hji =>
    cases hj
    exact hji ▸ hex
  · exact h j exj hj

theorem Each.settle {hold : HoldId} {decision : Decision} (h : Each I s)
    (hstep : ∀ entry ∈ s.breakpoints.held.get hold, ∀ ex ∈ s.exchanges entry.exchange, ∀ ex',
      Exchanges.step P ex (s.env ex.tunnel) (.decided decision) = some ex' →
        I entry.exchange ex') : Each I (s.settle P hold decision) := by
  unfold Server.settle
  split
  · exact h
  · next entry hget =>
    dsimp only
    split
    · exact h
    · next ex hex =>
      split
      · next ex' hs => exact Each.setExchange h (hstep entry hget ex hex ex' hs)
      · exact h

/-- What a cancelled hold keeps is kept when a tunnel is forgotten. -/
theorem Each.forget {id : String} (h : Each I s)
    (hcancel : ∀ i ex env ex', I i ex →
      Exchanges.step P ex env (.decided .cancel) = some ex' → I i ex') :
    Each I (s.forget P id) := by
  unfold Server.forget
  refine List.foldlRecOn _ _ (motive := Each I) h fun t ht hold _ => ?_
  exact ht.settle fun entry _ ex hex ex' hs => hcancel _ ex _ ex' (ht _ ex hex) hs

theorem Each.follow {hub : Hub} (h : Each I s) (hcut : ∀ i ex, I i ex → I i ex.cut)
    (hcancel : ∀ i ex env ex', I i ex →
      Exchanges.step P ex env (.decided .cancel) = some ex' → I i ex') :
    Each I (s.follow P hub) := by
  unfold Server.follow
  refine List.foldlRecOn _ _ (motive := Each I) ?_ fun t ht id _ => ht.forget hcancel
  intro i ex' hi
  obtain ⟨ex, hex, rfl⟩ := Option.map_eq_some_iff.mp hi
  split
  · exact hcut i ex (h i ex hex)
  · exact h i ex hex

theorem begin_eq {id : String} {request : Exchanges.Request} {op : Op}
    (hs : s.begin P id request op = some s') : ∃ r ex, s.hub.tunnels.get id = some r ∧
      Exchanges.step P (start r request) (s.env r) op = some ex ∧
      s' = { s.setExchange s.nextExchange ex with nextExchange := s.nextExchange + 1 } := by
  obtain ⟨r, hr, hs⟩ := Option.bind_eq_some_iff.mp hs
  obtain ⟨ex, hex, rfl⟩ := Option.map_eq_some_iff.mp hs
  exact ⟨r, ex, hr, hex, rfl⟩

theorem Each.goOn {i : ExchangeRef} {op : Op} (h : Each I s)
    (hcancel : ∀ i ex env ex', I i ex →
      Exchanges.step P ex env (.decided .cancel) = some ex' → I i ex')
    (hmove : ∀ ex ∈ s.exchanges i, ∀ ex',
      Exchanges.step P ex (s.env ex.tunnel) op = some ex' → I i ex')
    (hs : s.goOn P i op = some s') : Each I s' := by
  obtain ⟨ex, hex, hs⟩ := Option.bind_eq_some_iff.mp hs
  obtain ⟨ex', hstep, rfl⟩ := Option.map_eq_some_iff.mp hs
  have hset : Each I (s.setExchange i ex') := h.setExchange (hmove ex hex ex' hstep)
  dsimp only
  split
  · exact hset
  · split
    · refine hset.settle fun entry _ ex hex ex' hs => hcancel _ ex _ ex' (hset _ ex hex) hs
    · exact hset

/-- An event keeps what its move, a cut stream and a cancelled hold keep. -/
theorem each_step {e : Event} (hcut : ∀ i ex, I i ex → I i ex.cut)
    (hcancel : ∀ i ex env ex', I i ex →
      Exchanges.step P ex env (.decided .cancel) = some ex' → I i ex')
    (hmove : ∀ move ∈ moveOf s e, (s.exchanges move.i = some move.ex ∨
      ∃ r request, move.ex = start r request) → ∀ ex',
        Exchanges.step P move.ex (s.env move.ex.tunnel) move.op = some ex' → I move.i ex')
    (h : Each I s) (hs : step P s e = some s') : Each I s' := by
  cases e with
  | registry e =>
    obtain ⟨hub, -, rfl⟩ := Option.map_eq_some_iff.mp hs
    exact h.follow hcut hcancel
  | setRules id input =>
    cases hs
    unfold Server.setRules
    split
    · split <;> exact h
    · exact h
  | resolve id hold edits =>
    cases hs
    unfold Server.resolve
    split
    · next hhas =>
      split
      · exact h
      · next entry hentry =>
        split
        · next decision hdecision =>
          refine h.settle fun entry' hget' ex hex ex' hstep => ?_
          have hget := (Option.filter_eq_some_iff.mp hentry).1
          cases hget.symm.trans hget'
          refine hmove ⟨entry.exchange, ex, .decided decision⟩ ?_ (.inl hex) ex' hstep
          simp only [moveOf, hhas, if_true, hentry, hdecision, Option.bind_some, Option.mem_def,
            Except.toOption]
          rw [show s.exchanges entry.exchange = some ex from hex]
          rfl
        · exact h
    · exact h
  | request id request gate =>
    obtain ⟨r, ex, hr, hstep, rfl⟩ := begin_eq hs
    refine h.setExchange (hmove ⟨s.nextExchange, start r request, .route gate⟩ ?_
      (.inr ⟨r, request, rfl⟩) ex hstep)
    simp [moveOf, hr]
  | upgrade id request gate =>
    obtain ⟨r, ex, hr, hstep, rfl⟩ := begin_eq hs
    refine h.setExchange (hmove ⟨s.nextExchange, start r request, .routeUpgrade gate⟩ ?_
      (.inr ⟨r, request, rfl⟩) ex hstep)
    simp [moveOf, hr]
  | replay id request =>
    obtain ⟨r, ex, hr, hstep, rfl⟩ := begin_eq hs
    refine h.setExchange (hmove ⟨s.nextExchange, start r request, .routeReplay⟩ ?_
      (.inr ⟨r, request, rfl⟩) ex hstep)
    simp [moveOf, hr]
  | exchange i op =>
    obtain ⟨-, hs⟩ := Option.ite_none_right_eq_some.mp hs
    refine h.goOn hcancel (fun ex hex ex' hstep => ?_) hs
    refine hmove ⟨i, ex, op⟩ ?_ (.inl hex) ex' hstep
    rw [Option.mem_def, moveOf, show s.exchanges i = some ex from hex]
    rfl

/-! ## Sample events -/

/-- alice's session 0 is online with the tunnel 0, whose name is `web`. -/
def online : List Event :=
  (System.asking 0 System.alice ++ System.granted 0 "t" ++ [System.Event.reply 0]).map .registry

/-- A request is held on its way to the app. -/
def held : List Event :=
  online ++ [.setRules "web" (some [{ path := "/", phase := "request" }]),
    .request "web" visit .passes, .exchange 0 (.collected (.complete []) 0)]

end Tunlit.Proxy.Serving
