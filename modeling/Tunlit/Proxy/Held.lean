import Tunlit.Proxy.Serving

/-! # Requests that are held

A hold is created behind an `await` and settled by whoever comes first: its owner, the
response that closes or the tunnel that is removed. -/
namespace Tunlit.Proxy.Held
open Function Tunlit.Lib.Insertion Tunlit.Lib.Runs Tunlit.Registry Tunlit.Registry.State
  Tunlit.Proxy.Headers Tunlit.Proxy.Holds Tunlit.Proxy.Exchanges Tunlit.Proxy.Courses
  Tunlit.Proxy.Serving

/-! ## The property and its condition -/

/-- The response is ended or destroyed, or a request is under way that does it. -/
def Attended (ex : Exchange) : Prop :=
  ex.res.ended = true ∨ ex.res.closed = true ∨
    match ex.phase with
    | .requested | .collectingReply _ | .holdingReply _ | .streaming => True
    | _ => False

structure Sound (s : Server) : Prop where
  registered : ∀ hold entry, s.breakpoints.held.get hold = some entry →
    ∃ ex, s.exchanges entry.exchange = some ex ∧ s.hub.tunnels.get entry.tunnel = some ex.tunnel
  once : s.settled.Nodup
  attended : ∀ i ex, s.exchanges i = some ex → 0 < ex.settled → Attended ex

/-- Whether `writeHead` takes the head that is written in the listener of the response. -/
def takesHead (P : Platform) (ex : Exchange) (env : Env) : Op → Bool
  | .responded answer => env.holds ex.shape.method ex.shape.path .response ||
    P.acceptsHead answer.status (some answer.statusMessage)
      (streamedHeaders P env ex.request ex.setCookie answer)
  | .replied .overflow _ =>
    match ex.phase with
    | .collectingReply answer => P.acceptsHead answer.status (some answer.statusMessage)
      (plainHeaders P env ex.request answer)
    | _ => true
  | .decided (.continueResponse reply) =>
    P.acceptsHead reply.status none (continuedHeaders P env ex.request ex.setCookie reply)
  | _ => true

/-- No tunnel is removed while a request of it is held, a request is held only while its
tunnel is registered, and after a decision every head is taken. -/
def Careful (P : Platform) (s : Server) : Event → Prop
  | .registry e => ∀ hub ∈ System.step s.hub e, ∀ entry ∈ s.breakpoints.held.values,
      hub.tunnels.get entry.tunnel = s.hub.tunnels.get entry.tunnel
  | .resolve _ hold edits => ∀ entry ∈ s.breakpoints.held.get hold,
      ∀ decision ∈ (resolution entry.content edits).toOption,
        ∀ ex ∈ s.exchanges entry.exchange, takesHead P ex (s.env ex.tunnel) (.decided decision)
  | .exchange i op => ∀ ex ∈ s.exchanges i,
      ((contentOf P ex op).isSome → s.hub.tunnels.get (s.hub.heap ex.tunnel).id = some ex.tunnel) ∧
        (0 < ex.settled → takesHead P ex (s.env ex.tunnel) op)
  | _ => True

instance (P : Platform) (s : Server) : (e : Event) → Decidable (Careful P s e)
  | .registry e => inferInstanceAs (Decidable (∀ hub ∈ System.step s.hub e,
      ∀ entry ∈ s.breakpoints.held.values,
        hub.tunnels.get entry.tunnel = s.hub.tunnels.get entry.tunnel))
  | .resolve _ hold edits => inferInstanceAs (Decidable (∀ entry ∈ s.breakpoints.held.get hold,
      ∀ decision ∈ (resolution entry.content edits).toOption,
        ∀ ex ∈ s.exchanges entry.exchange, takesHead P ex (s.env ex.tunnel) (.decided decision)))
  | .exchange i op => inferInstanceAs (Decidable (∀ ex ∈ s.exchanges i,
      ((contentOf P ex op).isSome → s.hub.tunnels.get (s.hub.heap ex.tunnel).id = some ex.tunnel) ∧
        (0 < ex.settled → takesHead P ex (s.env ex.tunnel) op)))
  | .setRules .. | .request .. | .upgrade .. | .replay .. => isTrue trivial

variable {P : Platform} {ex ex' : Exchange} {env : Env} {op : Op} {s s' : Server}

/-! ## One exchange -/

/-- Nothing of the exchange was settled, or its visitor is attended to. -/
def Kept (ex : Exchange) : Prop := ex.settled = 0 ∨ Attended ex

theorem Kept.of_res (h : Kept ex) (hs : ex'.settled = ex.settled) (hr : ex'.res = ex.res)
    (hp : ex'.phase = ex.phase ∨ proxying ex.phase = false ∨ ex.phase = .collecting) :
    Kept ex' := by
  rcases h with h | h | h | h
  · exact .inl (hs.trans h)
  · exact .inr (.inl (hr ▸ h))
  · exact .inr (.inr (.inl (hr ▸ h)))
  · rcases hp with hp | hp | hp
    · exact .inr (.inr (.inr (by rw [hp]; exact h)))
    · cases hphase : ex.phase <;> simp_all [proxying]
    · rw [hp] at h
      exact h.elim

theorem kept_answer {head : Head} : Kept (ex.answer head) := .inr (.inl rfl)

theorem threw_ended : ex.threw.res.ended = true := by
  unfold Exchange.threw
  split
  · next h => exact h
  · rfl

theorem attended_threw : Attended ex.threw := .inl threw_ended

theorem attended_forward : Attended (ex.forward P env) := by
  rcases forward_cases P ex env with ⟨-, hf⟩ | ⟨x, -, -, hf⟩ | ⟨x, -, -, hf⟩ <;> rw [hf]
  · exact attended_threw
  · exact .inr (.inr trivial)
  · exact attended_threw

theorem attended_close : Attended ex.close := .inr (.inl (by rw [(close_eq ex).1]))

theorem attended_destroy : ex.destroy.res.closed = true := by
  unfold Exchange.destroy
  split
  · next h => exact h
  · exact congrArg Visitor.closed (close_eq ex).1

theorem kept_destroyed {phase : Exchanges.Phase} : Kept { ex.destroy with phase := phase } :=
  .inr (.inr (.inl attended_destroy))

theorem attended_writeHead {accepted : Bool} {head : Head} (h : accepted = true) :
    Attended (ex.writeHead accepted head) := by
  rw [Exchange.writeHead, if_pos h]
  exact .inr (.inr trivial)

theorem writeHead_settled {accepted : Bool} {head : Head} :
    (ex.writeHead accepted head).settled = ex.settled := by
  unfold Exchange.writeHead
  split <;> rfl

/-- Of the exchange's own steps none leaves a visitor alone behind a decision. -/
theorem kept_step (h : Kept ex) (hd : ∀ decision, op ≠ .decided decision)
    (ht : 0 < ex.settled → takesHead P ex env op) (hs : step P ex env op = some ex') :
    Kept ex' := by
  have hzero : ¬ 0 < ex.settled → ex.settled = 0 := Nat.eq_zero_of_not_pos
  cases takes hs with
  | offline _ _ | denied _ _ _ | tooLarge _ _ | replayFails _ | replayed _ | fails _ =>
    exact kept_answer
  | lost _ | replyLost _ | streamLost _ => exact kept_destroyed
  | breaks hp => exact .inr (.inr (.inl attended_destroy))
  | streamed _ _ => exact .inr (.inl rfl)
  | relayEnds hp => exact h.of_res rfl rfl (.inr (.inl (by rw [hp]; rfl)))
  | foundOffline _ _ | refused _ _ _ => exact .inr attended_threw
  | waits hp _ _ => exact h.of_res rfl rfl (.inr (.inl (by rw [hp]; rfl)))
  | @calls _ cookie hp _ _ =>
    rcases call_cases P { ex with setCookie := cookie } env with hf | ⟨-, hf⟩
    · rw [hf]
      simp only [List.mem_cons, List.not_mem_nil, or_false] at hp
      exact h.of_res rfl rfl (.inr (.inl (by rcases hp with hp | hp <;> rw [hp] <;> rfl)))
    · rw [hf]
      exact .inr attended_forward
  | held hp hc => exact h.of_res rfl rfl (.inr (.inr hp))
  | decided hp => exact absurd rfl (hd _)
  | @responded answer hp _ =>
    rcases respond_cases P ex env answer with hf | ⟨hheld, hf⟩
    · rw [hf]
      exact .inr (.inr (.inr trivial))
    · rw [hf]
      by_cases hz : 0 < ex.settled
      · have hacc := ht hz
        simp only [takesHead, hheld, Bool.false_or] at hacc
        exact .inr (attended_writeHead hacc)
      · exact .inl (writeHead_settled.trans (hzero hz))
  | replyHeld hp _ => exact .inr (.inr (.inr trivial))
  | overflows hp _ =>
    by_cases hz : 0 < ex.settled
    · have hacc := ht hz
      simp only [takesHead, hp] at hacc
      exact .inr (attended_writeHead hacc)
    · exact .inl (writeHead_settled.trans (hzero hz))
  | cuts _ => exact h.of_res rfl rfl (.inl rfl)
  | closes _ => exact .inr attended_close
  | replays hp _ _ => exact h.of_res rfl rfl (.inr (.inl (by rw [hp]; rfl)))
  | upgrades hp _ => exact h.of_res rfl rfl (.inr (.inl (by rw [hp]; rfl)))

/-- An exchange in this phase waits for a decision about this content. -/
def WaitsFor (phase : Exchanges.Phase) (hold : HoldId) : Content → Prop
  | .request _ => phase = .holding hold
  | .response _ => phase = .holdingReply hold

theorem WaitsFor.holdOf {phase : Exchanges.Phase} {hold : HoldId} {content : Content}
    (h : WaitsFor phase hold content) : holdOf phase = some hold := by
  cases content <;> rw [WaitsFor] at h <;> rw [h] <;> rfl

/-- Entries of the store and waiting exchanges belong together. -/
structure Paired (s : Server) : Prop where
  entries : ∀ hold entry, s.breakpoints.held.get hold = some entry →
    ∃ ex, s.exchanges entry.exchange = some ex ∧ WaitsFor ex.phase hold entry.content ∧
      s.hub.tunnels.get entry.tunnel = some ex.tunnel
  waiting : ∀ i ex hold, s.exchanges i = some ex → holdOf ex.phase = some hold →
    ∃ entry, s.breakpoints.held.get hold = some entry ∧ entry.exchange = i
  below : ∀ hold entry, s.breakpoints.held.get hold = some entry →
    hold < s.breakpoints.nextHold
  settledBelow : ∀ hold ∈ s.settled, hold < s.breakpoints.nextHold
  apart : ∀ hold ∈ s.settled, s.breakpoints.held.get hold = none
  once : s.settled.Nodup
  fresh : ∀ i, s.nextExchange ≤ i → s.exchanges i = none
  kept : ∀ i ex, s.exchanges i = some ex → Kept ex

theorem Paired.sound (h : Paired s) : Sound s where
  registered hold entry hget := by
    obtain ⟨ex, hex, -, hreg⟩ := h.entries hold entry hget
    exact ⟨ex, hex, hreg⟩
  once := h.once
  attended i ex hex hpos := (h.kept i ex hex).resolve_left (Nat.ne_of_gt hpos)

variable {hold : HoldId} {entry : Entry} {decision : Decision} {i : ExchangeRef}

/-- An exchange goes on without a change of its hold. -/
theorem Paired.setExchange (h : Paired s) (hex : s.exchanges i = some ex)
    (ht : ex'.tunnel = ex.tunnel)
    (hp : ex'.phase = ex.phase ∨ holdOf ex.phase = none ∧ holdOf ex'.phase = none)
    (hk : Kept ex') : Paired (s.setExchange i ex') := by
  constructor
  case entries =>
    intro hold entry hget
    obtain ⟨ex₂, hex₂, hw, hreg⟩ := h.entries hold entry hget
    by_cases hi : entry.exchange = i
    · rw [hi, hex] at hex₂
      cases hex₂
      have hp : ex'.phase = ex.phase := by
        rcases hp with hp | ⟨hp, -⟩
        · exact hp
        · rw [hw.holdOf] at hp
          cases hp
      exact ⟨ex', by simp [Server.setExchange, hi], hp ▸ hw, hreg.trans (by rw [ht])⟩
    · exact ⟨ex₂, by simpa [Server.setExchange, update_of_ne hi] using hex₂, hw, hreg⟩
  case waiting =>
    intro j exj hold hj hw
    simp only [Server.setExchange, update_apply] at hj
    split at hj
    · next hji =>
      cases hj
      rcases hp with hp | ⟨-, hp⟩
      · exact hji ▸ h.waiting i ex hold hex (hp ▸ hw)
      · rw [hw] at hp
        cases hp
    · exact h.waiting j exj hold hj hw
  case below => exact h.below
  case settledBelow => exact h.settledBelow
  case apart => exact h.apart
  case once => exact h.once
  case fresh =>
    intro j hj
    have hne : j ≠ i := by
      rintro rfl
      rw [h.fresh _ hj] at hex
      cases hex
    simpa only [Server.setExchange, update_of_ne hne] using h.fresh j hj
  case kept =>
    intro j exj hj
    simp only [Server.setExchange, update_apply] at hj
    split at hj
    · cases hj
      exact hk
    · exact h.kept j exj hj

theorem Paired.setRules {id : String} {rules : List Rule} (h : Paired s) :
    Paired { s with breakpoints := s.breakpoints.setRules id rules } :=
  ⟨h.entries, h.waiting, h.below, h.settledBelow, h.apart, h.once, h.fresh, h.kept⟩

/-- A tunnel is forgotten that holds no request. -/
theorem Paired.forget {id : String} (h : Paired s) (hnone : s.breakpoints.holdsOf id = []) :
    Paired (s.forget P id) := by
  rw [Server.forget, hnone]
  exact h.setRules

/-- The streams of sessions are cut while the registry keeps the tunnels with held requests. -/
theorem Paired.cutStreams {hub : Hub} {closed : SessionRef → Bool} (h : Paired s)
    (hkeep : ∀ entry ∈ s.breakpoints.held.values,
      hub.tunnels.get entry.tunnel = s.hub.tunnels.get entry.tunnel) :
    Paired ({ s with hub := hub }.cutStreams closed) := by
  have hcut : ∀ ex : Exchange, (if (sessionOf ex.stream).any closed then ex.cut else ex).phase =
      ex.phase ∧ (if (sessionOf ex.stream).any closed then ex.cut else ex).tunnel = ex.tunnel ∧
      (Kept ex → Kept (if (sessionOf ex.stream).any closed then ex.cut else ex)) := by
    intro ex
    split
    · exact ⟨rfl, rfl, fun hk => hk.of_res rfl rfl (.inl rfl)⟩
    · exact ⟨rfl, rfl, id⟩
  constructor
  case entries =>
    intro hold entry hget
    obtain ⟨ex, hex, hw, hreg⟩ := h.entries hold entry hget
    obtain ⟨hp, ht, -⟩ := hcut ex
    refine ⟨_, Option.map_eq_some_iff.mpr ⟨ex, hex, rfl⟩, hp ▸ hw, ?_⟩
    exact (hkeep entry (OrderedMap.mem_values.mpr ⟨hold, hget⟩)).trans (hreg.trans (by rw [ht]))
  case waiting =>
    intro i ex' hold hi hp
    obtain ⟨ex, hex, rfl⟩ := Option.map_eq_some_iff.mp hi
    rw [(hcut ex).1] at hp
    exact h.waiting i ex hold hex hp
  case below => exact h.below
  case settledBelow => exact h.settledBelow
  case apart => exact h.apart
  case once => exact h.once
  case fresh => exact fun i hi => Option.map_eq_none_iff.mpr (h.fresh i hi)
  case kept =>
    intro i ex' hi
    obtain ⟨ex, hex, rfl⟩ := Option.map_eq_some_iff.mp hi
    exact (hcut ex).2.2 (h.kept i ex hex)

/-! ## Steps -/

/-- The request goes on with another path, and the response is passed on. -/
def continued : List Event :=
  held ++ [.resolve "web" 0 { path := some "/index" }, .exchange 0 (.responded page),
    .exchange 0 (.streamed true)]

/-- The tunnel is removed while its request is held. -/
def removed : List Event := held ++ [.registry (.remove "web")]

end Tunlit.Proxy.Held
