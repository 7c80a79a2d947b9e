import Tunlit.Proxy.Serving

/-! # Streams to the app

`session.open` is called where an exchange goes on to the app: behind the gate, behind a
decision, behind the lookup of a replay and in an upgrade. Between the routing and the
call the tunnel may lose its session, and the visitor may leave. -/
namespace Tunlit.Proxy.Streams
open Function Tunlit.Lib.Insertion Tunlit.Lib.Runs Tunlit.Registry Tunlit.Registry.State
  Tunlit.Proxy.Headers Tunlit.Proxy.Holds Tunlit.Proxy.Exchanges Tunlit.Proxy.Courses
  Tunlit.Proxy.Serving

/-! ## The property and its condition -/

/-- A request to the app, or a WebSocket, is under way. -/
def inUse : Exchanges.Phase → Bool
  | .requested | .collectingReply _ | .streaming | .abandoned | .replaying | .relaying => true
  | _ => false

/-- An open stream is in use, and goes when the visitor does; the router has not answered. -/
structure Tidy (ex : Exchange) : Prop where
  inUse : ex.stream.isOpen = true → inUse ex.phase = true
  visited : ex.stream.isOpen = true → ex.called = true → ex.res.closed = false
  answered : ex.res.head ≠ some .internal

/-- Whether an event makes the exchange call `session.open`. -/
def asks (ex : Exchange) (env : Env) : Op → Bool
  | .route .passes | .verified (some _) => !env.holds ex.shape.method ex.shape.path .request
  | .decided (.continueRequest _) =>
    match ex.phase with
    | .holding _ => true
    | _ => false
  | .found (.ok _) | .routeUpgrade .passes => true
  | _ => false

/-- Whether `http.request` takes what the exchange asks for. -/
def accepted (P : Platform) (ex : Exchange) (env : Env) : Op → Bool
  | .route _ | .verified _ =>
    P.acceptsRequest ex.shape.method ex.shape.path (upstreamHeaders env ex)
  | .decided (.continueRequest message) =>
    P.acceptsRequest message.method message.path (upstreamHeaders env { ex with
      incoming := headersFromPairs message.headers, body := some message.body })
  | .found (.ok message) => P.acceptsRequest message.method message.path
      (replayHeaders env ex.request.info.host message)
  | _ => true

/-- Behind an `await` the tunnel has a session and the visitor of a request is there, and a
request that goes over a session is one that `http.request` takes. -/
def ready (P : Platform) (ex : Exchange) (env : Env) (op : Op) : Bool :=
  !asks ex env op || ((env.session.isSome || ex.phase = .routed) &&
    (ex.phase = .looking || !ex.res.closed) && (env.session.isNone || accepted P ex env op))

def Ready (P : Platform) (s : Server) (e : Event) : Prop :=
  ∀ move ∈ moveOf s e, ready P move.ex (s.env move.ex.tunnel) move.op

instance (P : Platform) (s : Server) (e : Event) : Decidable (Ready P s e) :=
  inferInstanceAs (Decidable (∀ move ∈ moveOf s e, ready P move.ex (s.env move.ex.tunnel) move.op))

/-- A step opens streams only on the current session of the tunnel, which is not closed. -/
def Opens (s s' : Server) : Prop :=
  ∀ i ex' x, s'.exchanges i = some ex' → ex'.stream = .opened x →
    (∃ ex, s.exchanges i = some ex ∧ ex.stream = .opened x) ∨
      (s.hub.heap ex'.tunnel).session = some x ∧ (s.hub.sessions x).closed = false

/-- Who asks for a session where there is none gets the answer that the tunnel is offline. -/
def Offline (s : Server) (e : Event) (s' : Server) : Prop :=
  ∀ move ∈ moveOf s e, asks move.ex (s.env move.ex.tunnel) move.op →
    (s.env move.ex.tunnel).session = none →
      ∃ ex', s'.exchanges move.i = some ex' ∧ ex'.res.head = some .offline

variable {P : Platform} {ex ex' : Exchange} {env : Env} {op : Op} {s s' : Server}
  {x : SessionRef}

/-! ## Where streams are opened -/

theorem threw_stream : ex.threw.stream = ex.stream := by
  unfold Exchange.threw
  split <;> rfl

theorem forward_stream (h : (ex.forward P env).stream = .opened x) :
    ex.stream = .opened x ∨ env.session = some x := by
  rcases forward_cases P ex env with ⟨-, hf⟩ | ⟨y, hy, -, hf⟩ | ⟨y, hy, -, hf⟩ <;> rw [hf] at h
  · exact .inl (threw_stream ▸ h)
  · cases h
    exact .inr hy
  · rw [threw_stream] at h
    cases h
    exact .inr hy

theorem call_stream (h : (ex.call P env).stream = .opened x) :
    ex.stream = .opened x ∨ env.session = some x := by
  rcases call_cases P ex env with hf | ⟨-, hf⟩ <;> rw [hf] at h
  · exact .inl h
  · have hopened := forward_stream h
    exact hopened

theorem decide_stream {decision : Decision} (h : (ex.decide P env decision).stream = .opened x) :
    ex.stream = .opened x ∨ env.session = some x := by
  unfold Exchange.decide at h
  dsimp only at h
  split at h
  · exact .inl h
  · have hopened := forward_stream h
    exact hopened
  · exact .inl h
  · split at h <;> exact .inl h
  · exact .inl h

theorem destroy_stream (ex : Exchange) : ex.destroy.stream = ex.stream ∨ ex.destroy.stream = .none := by
  unfold Exchange.destroy
  split
  · exact .inl rfl
  · exact (close_eq ex).2.2.2

theorem writeHead_stream {accepted : Bool} {head : Head} :
    (ex.writeHead accepted head).stream = ex.stream := by
  unfold Exchange.writeHead
  split <;> rfl

theorem endStream_open (ex : Exchange) : ex.endStream.stream.isOpen = false := by
  rw [endStream_eq]
  cases h : ex.stream <;> rfl

theorem fail_stream : ex.fail.stream = ex.stream := by
  unfold Exchange.fail Exchange.finish
  split <;> rfl

theorem destroy_cut_stream : ex.cut.destroy.stream = .none := by
  rcases destroy_stream ex.cut with h | h
  · exact h
  · exact h

theorem endStream_ne : ex.endStream.stream ≠ .opened x := by
  intro h
  have hopen := endStream_open ex
  rw [h] at hopen
  cases hopen

theorem step_stream (hs : step P ex env op = some ex') (h : ex'.stream = .opened x) :
    ex.stream = .opened x ∨ env.session = some x := by
  cases takes hs with
  | offline _ _ | denied _ _ _ | tooLarge _ _ | waits _ _ _ | held _ _ => exact .inl h
  | replayFails _ | relayEnds _ | cuts _ => cases h
  | fails _ =>
    rw [fail_stream] at h
    cases h
  | replayed _ | streamed _ _ | replyHeld _ _ => exact absurd h endStream_ne
  | lost _ =>
    rcases destroy_stream ex with hd | hd
    · exact .inl (hd.symm.trans h)
    · cases hd.symm.trans h
  | replyLost _ | streamLost _ | breaks _ => cases destroy_cut_stream.symm.trans h
  | decided _ => exact decide_stream h
  | @responded answer _ _ =>
    rcases respond_cases P ex env answer with hf | ⟨-, hf⟩ <;> rw [hf] at h
    · exact .inl h
    · rw [writeHead_stream] at h
      exact .inl h
  | overflows _ _ => exact .inl (writeHead_stream.symm.trans h)
  | closes _ =>
    rcases (close_eq ex).2.2.2 with hc | hc
    · exact .inl (hc.symm.trans h)
    · cases hc.symm.trans h
  | foundOffline _ _ => exact .inl (threw_stream.symm.trans h)
  | refused _ hx _ =>
    rw [threw_stream] at h
    cases h
    exact .inr hx
  | calls _ _ _ =>
    have hopened := call_stream h
    exact hopened
  | replays _ hx _ | upgrades _ hx =>
    cases h
    exact .inr hx

/-! ## What happens to open streams -/

theorem tidy_closed (hs : ex.stream.isOpen = false) (ha : ex.res.head ≠ some .internal) : Tidy ex :=
  ⟨fun h => (by rw [hs] at h; cases h), fun h => (by rw [hs] at h; cases h), ha⟩

theorem tidy_start (r : TunnelRef) (request : Exchanges.Request) : Tidy (start r request) :=
  tidy_closed rfl (by simp [start])

theorem Tidy.cut (h : Tidy ex) : Tidy ex.cut := tidy_closed rfl h.answered

/-- A stream that is open is opened for a request that `http.request` takes. -/
theorem tidy_forward (hs : env.session.isSome = true) (hc : ex.res.closed = false)
    (ha : P.acceptsRequest ex.shape.method ex.shape.path (upstreamHeaders env ex) = true)
    (h : ex.res.head ≠ some .internal) : Tidy (ex.forward P env) := by
  rcases forward_cases P ex env with ⟨hn, hf⟩ | ⟨x, -, -, hf⟩ | ⟨x, -, hr, hf⟩
  · rw [hn] at hs
    cases hs
  · rw [hf]
    exact ⟨fun _ => rfl, fun _ _ => hc, h⟩
  · rw [ha] at hr
    cases hr

theorem Tidy.destroy (h : Tidy ex) (hs : ex.destroy.stream.isOpen = false) : Tidy ex.destroy := by
  refine tidy_closed hs ?_
  unfold Exchange.destroy
  split
  · exact h.answered
  · dsimp only
    rw [(close_eq ex).1]
    exact h.answered

theorem Tidy.close (hcourse : Course ex) (h : Tidy ex) : Tidy ex.close := by
  have hhead : ex.close.res.head ≠ some .internal := by
    rw [(close_eq ex).1]
    exact h.answered
  by_cases hopen : ex.close.stream.isOpen = true
  · have hbefore : ex.stream.isOpen = true := by
      rcases (close_eq ex).2.2.2 with hs | hs <;> rw [hs] at hopen
      · exact hopen
      · cases hopen
    have huse := h.inUse hbefore
    rcases close_cases ex with ⟨hp, hc⟩ | ⟨hold, hp, -⟩ | ⟨hold, hp, -⟩ | ⟨hp, hc⟩
    · -- the request of a visitor who leaves is cut
      have hne : ex.phase ≠ .over := by
        intro ho
        rw [ho] at huse
        cases huse
      have hcalled : ex.called = true := by
        rw [hcourse.called.resolve_left hne]
        cases hphase : ex.phase <;> simp_all [proxying, listening]
      rw [hc, heardClose_cut (hcourse.ended.resolve_left hne) hcalled] at hopen
      cases hopen
    · rw [hp] at huse
      cases huse
    · rw [hp] at huse
      cases huse
    · have hne : ex.phase ≠ .over := by
        intro ho
        simp [ho] at hp
      have hcalled : ex.called = false := by
        rw [hcourse.called.resolve_left hne]
        cases hphase : ex.phase <;> simp_all [proxying, Streams.inUse]
      rw [hc] at hhead ⊢
      exact ⟨fun _ => huse, fun _ hc => absurd (hcalled.symm.trans hc) Bool.false_ne_true, hhead⟩
  · exact tidy_closed (by simpa using hopen) hhead

theorem tidy_answer {head : Head} (hs : ex.stream.isOpen = false) (hh : head ≠ .internal) :
    Tidy (ex.answer head) := tidy_closed hs fun h => hh (Option.some.inj h)

theorem Tidy.writeHead {accepted : Bool} {head : Head} (h : Tidy ex) (hh : head ≠ .internal) :
    Tidy (ex.writeHead accepted head) := by
  unfold Exchange.writeHead
  split
  · exact ⟨fun _ => rfl, h.visited, fun hi => hh (Option.some.inj hi)⟩
  · exact ⟨fun _ => rfl, h.visited, h.answered⟩

/-- Where the exchange asks for a stream it gets one that is used. -/
theorem ready_asks (hr : ready P ex env op) (ha : asks ex env op = true) :
    (env.session.isSome = true ∨ ex.phase = .routed) ∧
      (ex.phase = .looking ∨ ex.res.closed = false) ∧
      (env.session.isNone = true ∨ accepted P ex env op = true) := by
  simpa [ready, ha, and_assoc] using hr

theorem tidy_call {cookie : Option String} (h : Tidy ex) (hn : ex.stream.isOpen = false)
    (hp : ex.phase ∈ [.routed, .verifying])
    (hsession : ex.phase = .routed → env.session ≠ none)
    (hop : op = .route .passes ∨ ∃ c, op = .verified (some c)) (hr : ready P ex env op) :
    Tidy ({ ex with setCookie := cookie }.call P env) := by
  rcases call_cases P { ex with setCookie := cookie } env with hf | ⟨hheld, hf⟩ <;> rw [hf]
  · exact tidy_closed hn h.answered
  · have ha : asks ex env op = true := by
      rcases hop with rfl | ⟨c, rfl⟩ <;> simpa [asks] using hheld
    obtain ⟨hs, hc, hacc⟩ := ready_asks hr ha
    have hs : env.session.isSome = true := by
      rcases hs with hs | hs
      · exact hs
      · exact Option.isSome_iff_ne_none.mpr (hsession hs)
    have hc : ex.res.closed = false := by
      rcases hc with hc | hc
      · simp [hc] at hp
      · exact hc
    have hacc : accepted P ex env op = true := by
      rcases hacc with hn | hacc
      · rw [Option.isNone_iff_eq_none.mp hn] at hs
        cases hs
      · exact hacc
    refine tidy_forward hs hc ?_ h.answered
    rcases hop with rfl | ⟨c, rfl⟩
    · exact hacc
    · exact hacc

theorem tidy_decide {hold : HoldId} {decision : Decision} (h : Tidy ex)
    (hp : ex.phase = .holding hold ∨ ex.phase = .holdingReply hold)
    (hr : ready P ex env (.decided decision)) : Tidy (ex.decide P env decision) := by
  have hn : ex.stream.isOpen = false := by
    cases hopen : ex.stream.isOpen with
    | false => rfl
    | true =>
      have huse := h.inUse hopen
      rcases hp with hp | hp <;> rw [hp] at huse <;> cases huse
  rcases hp with hp | hp
  · rw [decide_holding hp]
    cases decision with
    | drop => exact tidy_answer hn (by simp)
    | cancel | continueResponse _ => exact tidy_closed hn h.answered
    | continueRequest message =>
      have ha : asks ex env (.decided (.continueRequest message)) = true := by
        simp only [asks, hp]
      obtain ⟨hs, hc, hacc⟩ := ready_asks hr ha
      have hs : env.session.isSome = true := hs.resolve_right (by simp [hp])
      have hc : ex.res.closed = false := hc.resolve_left (by simp [hp])
      have hacc := hacc.resolve_left (by simp [Option.isSome_iff_ne_none.mp hs])
      exact tidy_forward hs hc hacc h.answered
  · rw [decide_holdingReply hp]
    cases decision with
    | drop => exact tidy_answer hn (by simp)
    | cancel | continueRequest _ => exact tidy_closed hn h.answered
    | continueResponse reply =>
      dsimp only
      split
      · exact tidy_answer hn (by simp)
      · exact tidy_closed hn h.answered

theorem tidy_step (hcourse : Course ex) (h : Tidy ex) (hr : ready P ex env op)
    (hs : step P ex env op = some ex') : Tidy ex' := by
  have hnone : ∀ p, ex.phase = p → inUse p = false → ex.stream.isOpen = false := by
    rintro _ rfl hp
    by_contra hopen
    rw [h.inUse (by simpa using hopen)] at hp
    cases hp
  cases takes hs with
  | offline hp _ => exact tidy_answer (hnone _ hp rfl) (by simp)
  | denied hp hh _ =>
    simp only [List.mem_cons, List.not_mem_nil, or_false] at hp
    rcases hp with hp | hp | hp
    · exact tidy_answer (hnone _ hp rfl) hh
    · exact tidy_answer (hnone _ hp rfl) hh
    · exact tidy_answer (hnone _ hp rfl) hh
  | tooLarge hp _ => exact tidy_answer (hnone _ hp rfl) (by simp)
  | waits hp _ _ => exact tidy_closed (hnone _ hp rfl) h.answered
  | held hp _ => exact tidy_closed (hnone _ hp rfl) h.answered
  | replayFails _ => exact tidy_answer rfl (by simp)
  | relayEnds _ | cuts _ => exact tidy_closed rfl h.answered
  | fails _ => exact tidy_closed (by rw [fail_stream]; rfl) (by simp [Exchange.fail, Exchange.answer])
  | replayed _ => exact tidy_answer (endStream_open ex) (by simp)
  | streamed _ _ => exact tidy_closed (endStream_open ex) h.answered
  | replyHeld _ _ =>
    refine tidy_closed (endStream_open ex) ?_
    rw [endStream_eq]
    exact h.answered
  | lost hp =>
    have hd : ex.destroy.stream.isOpen = false := by
      rcases destroy_stream ex with hd | hd <;> rw [hd]
      · exact hnone _ hp rfl
      · rfl
    exact tidy_closed hd (h.destroy hd).answered
  | replyLost _ | streamLost _ =>
    have hd : ex.cut.destroy.stream.isOpen = false := by rw [destroy_cut_stream]; rfl
    exact tidy_closed hd (h.cut.destroy hd).answered
  | breaks _ => exact h.cut.destroy (by rw [destroy_cut_stream]; rfl)
  | decided hp => exact tidy_decide h hp hr
  | @responded answer hp _ =>
    rcases respond_cases P ex env answer with hf | ⟨-, hf⟩ <;> rw [hf]
    · exact ⟨fun _ => rfl, h.visited, h.answered⟩
    · have hlistens : Tidy { ex with outcome := some answer.status } :=
        ⟨h.inUse, h.visited, h.answered⟩
      exact hlistens.writeHead (by simp)
  | overflows hp _ => exact h.writeHead (by simp)
  | closes _ => exact h.close hcourse
  | foundOffline hp hn =>
    obtain ⟨hs, -, -⟩ := ready_asks hr rfl
    simp [hn, hp] at hs
  | refused hp hx hacc =>
    obtain ⟨-, -, ha⟩ := ready_asks hr rfl
    simp [hx, accepted, hacc] at ha
  | calls hp hsession hop =>
    refine tidy_call h ?_ hp hsession (hop.imp And.left id) hr
    simp only [List.mem_cons, List.not_mem_nil, or_false] at hp
    rcases hp with hp | hp
    · exact hnone _ hp rfl
    · exact hnone _ hp rfl
  | replays hp hx _ =>
    have hc : ex.called = false := by
      rw [hcourse.called.resolve_left (by simp [hp]), hp]
      rfl
    exact ⟨fun _ => rfl, fun _ h => absurd (hc.symm.trans h) Bool.false_ne_true, h.answered⟩
  | upgrades hp hx =>
    have hc : ex.called = false := by
      rw [hcourse.called.resolve_left (by simp [hp]), hp]
      rfl
    exact ⟨fun _ => rfl, fun _ h => absurd (hc.symm.trans h) Bool.false_ne_true, h.answered⟩

/-! ## Runs -/

/-- Who asks in vain has just been routed. -/
theorem offline_step (hr : ready P ex env op) (ha : asks ex env op = true)
    (hn : env.session = none) (hs : step P ex env op = some ex') :
    ex.phase = .routed ∧ ex'.res.head = some .offline := by
  obtain ⟨hsession, -, -⟩ := ready_asks hr ha
  have hp : ex.phase = .routed := hsession.resolve_left (by simp [hn])
  refine ⟨hp, ?_⟩
  cases takes hs with
  | offline _ _ => rfl
  | denied _ _ hsome => exact absurd hn (hsome hp)
  | waits _ _ hsome => exact absurd hn hsome
  | calls _ hsome _ => exact absurd hn (hsome hp)
  | cuts hop => rcases hop with rfl | rfl <;> cases ha
  | closes _ => cases ha
  | upgrades _ hx =>
    rw [hn] at hx
    cases hx
  | breaks hanswered =>
    rw [hp] at hanswered
    cases hanswered
  | _ => simp_all

theorem env_session {r : TunnelRef} (h : (s.env r).session = some x) :
    (s.hub.heap r).session = some x ∧ (s.hub.sessions x).closed = false := by
  obtain ⟨hs, hc⟩ := Option.filter_eq_some_iff.mp h
  exact ⟨hs, by simpa using hc⟩

/-- Of the exchanges of a server, every one is on its course and tidy. -/
def TidyAll (s : Server) : Prop := Each (fun _ ex => Course ex ∧ Tidy ex) s

theorem cancel_ready : ready P ex env (.decided .cancel) = true := rfl

theorem tidyAll_step {e : Event} (h : TidyAll s) (hok : Ready P s e) (hs : step P s e = some s') :
    TidyAll s' := by
  refine each_step (fun _ ex hex => ⟨course_cut hex.1, hex.2.cut⟩)
    (fun _ ex env ex' hex hstep => ?_) (fun move hmove hfrom ex' hstep => ?_) h hs
  · exact ⟨course_step hex.1 hstep, tidy_step hex.1 hex.2 cancel_ready hstep⟩
  · have hbefore : Course move.ex ∧ Tidy move.ex := by
      rcases hfrom with hfrom | ⟨r, request, hfrom⟩
      · exact h move.i move.ex hfrom
      · rw [hfrom]
        exact ⟨course_start r request, tidy_start r request⟩
    exact ⟨course_step hbefore.1 hstep, tidy_step hbefore.1 hbefore.2 (hok move hmove) hstep⟩

theorem opens_step {e : Event} (hs : step P s e = some s') : Opens s s' := by
  have hkeep : ∀ ex env ex' x, Exchanges.step P ex env (.decided .cancel) = some ex' →
      ex'.stream = .opened x → ex.stream = .opened x ∧ ex'.tunnel = ex.tunnel := by
    intro ex env ex' x hstep hx
    refine ⟨?_, step_tunnel hstep⟩
    rw [step_cancel hstep] at hx
    exact hx
  let I : ExchangeRef → Exchange → Prop := fun i ex' => ∀ x, ex'.stream = .opened x →
    (∃ ex, s.exchanges i = some ex ∧ ex.stream = .opened x) ∨
      (s.hub.heap ex'.tunnel).session = some x ∧ (s.hub.sessions x).closed = false
  have hall : Each I s' := by
    refine each_step (fun i ex _ x hx => by cases hx) (fun i ex env ex' hex hstep x hx => ?_)
      (fun move hmove hfrom ex' hstep x hx => ?_) (fun i ex hex x hx => .inl ⟨ex, hex, hx⟩) hs
    · obtain ⟨hx, ht⟩ := hkeep ex env ex' x hstep hx
      rw [ht]
      exact hex x hx
    · rcases step_stream hstep hx with hbefore | hnow
      · rcases hfrom with hfrom | ⟨r, request, hfrom⟩
        · exact .inl ⟨_, hfrom, hbefore⟩
        · rw [hfrom] at hbefore
          cases hbefore
      · rw [step_tunnel hstep]
        exact .inr (env_session hnow)
  exact fun i ex' x hex' hx => hall i ex' hex' x hx

theorem offline_begin {id : String} {request : Exchanges.Request}
    (hr : ∀ r ∈ s.hub.tunnels.get id, ready P (start r request) (s.env r) op)
    (hs : s.begin P id request op = some s') :
    ∀ r ∈ s.hub.tunnels.get id, asks (start r request) (s.env r) op → (s.env r).session = none →
      ∃ ex', s'.exchanges s.nextExchange = some ex' ∧ ex'.res.head = some .offline := by
  intro r hget ha hn
  obtain ⟨r', ex, hget', hstep, rfl⟩ := begin_eq hs
  cases hget.symm.trans hget'
  refine ⟨ex, ?_, (offline_step (hr r hget) ha hn hstep).2⟩
  simp [Server.setExchange]

theorem decided_asks {decision : Decision} (hp : ex.phase = .routed) :
    asks ex env (.decided decision) = false := by
  cases decision <;> simp [asks, hp]

theorem verified_routed {cookie : Option String} (hp : ex.phase = .routed) :
    Exchanges.step P ex env (.verified cookie) = none := by
  simp [Exchanges.step, hp]

theorem found_routed {message : Except Nat Message} (hp : ex.phase = .routed) :
    Exchanges.step P ex env (.found message) = none := by
  simp [Exchanges.step, hp]

theorem offline_server {e : Event} (hok : Ready P s e) (hs : step P s e = some s') :
    Offline s e s' := by
  intro move hmove ha hn
  have hready := hok move hmove
  obtain ⟨hsession, -, -⟩ := ready_asks hready ha
  have hp : move.ex.phase = .routed := hsession.resolve_left (by simp [hn])
  cases e with
  | registry e | setRules id input => cases hmove
  | resolve id hold edits =>
    rw [Option.mem_def, moveOf] at hmove
    split at hmove
    · obtain ⟨entry, -, hmove⟩ := Option.bind_eq_some_iff.mp hmove
      obtain ⟨decision, -, hmove⟩ := Option.bind_eq_some_iff.mp hmove
      obtain ⟨ex, -, rfl⟩ := Option.map_eq_some_iff.mp hmove
      cases (decided_asks hp).symm.trans ha
    · cases hmove
  | request id request gate =>
    obtain ⟨r, hget, rfl⟩ := Option.map_eq_some_iff.mp hmove
    refine offline_begin (fun r' hget' => ?_) hs r hget ha hn
    exact hok ⟨_, start r' request, .route gate⟩ (Option.map_eq_some_iff.mpr ⟨r', hget', rfl⟩)
  | upgrade id request gate =>
    obtain ⟨r, hget, rfl⟩ := Option.map_eq_some_iff.mp hmove
    refine offline_begin (fun r' hget' => ?_) hs r hget ha hn
    exact hok ⟨_, start r' request, .routeUpgrade gate⟩
      (Option.map_eq_some_iff.mpr ⟨r', hget', rfl⟩)
  | replay id request =>
    obtain ⟨r, hget, rfl⟩ := Option.map_eq_some_iff.mp hmove
    cases ha
  | exchange i op =>
    obtain ⟨ex, hex, rfl⟩ := Option.map_eq_some_iff.mp hmove
    obtain ⟨hown, hs⟩ := Option.ite_none_right_eq_some.mp hs
    obtain ⟨ex', hex', hs⟩ := Option.bind_eq_some_iff.mp hs
    cases hex.symm.trans hex'
    obtain ⟨_, hstep, -⟩ := Option.map_eq_some_iff.mp hs
    -- nothing that waits behind an `await` has just been routed
    cases op with
    | verified cookie => cases (verified_routed hp).symm.trans hstep
    | found message => cases (found_routed hp).symm.trans hstep
    | route _ | decided _ | routeUpgrade _ => cases hown
    | _ => cases ha

/-- While the condition holds, streams are opened on current sessions, who finds none is
answered `offline`, and no stream is left without a request that uses it. -/
theorem streams_of_ready (P : Platform) (s : Server)
    (h : (Serving.machine P).Reaches (Ready P) s) :
    (∀ i ex, s.exchanges i = some ex → Tidy ex) ∧
      ∀ e s', Ready P s e → step P s e = some s' → Opens s s' ∧ Offline s e s' := by
  have hinv : TidyAll s := by
    refine h.invariant ?_ fun s t e hs hok hst => tidyAll_step hs hok hst
    rintro _ ⟨config, rfl⟩ i ex hi
    cases hi
  exact ⟨fun i ex hex => (hinv i ex hex).2,
    fun e s' hok hs => ⟨opens_step hs, offline_server hok hs⟩⟩

/-- A request over a session that then closes, and one that finds it closed. -/
def offlineRequest : Event := .request "web" visit .passes

def served : List Event :=
  online ++ [.request "web" visit .passes, .exchange 0 (.responded page),
    .exchange 0 (.streamed true), .registry (.socketClose 0)]

theorem streams_served : ∃ s s', (Serving.machine plain).exec {} served = some s ∧
    step plain s offlineRequest = some s' ∧ Offline s offlineRequest s' ∧
      (s'.exchanges 1).map (·.res.head) = some (some .offline) := by
  have hrun : ((Serving.machine plain).exec {} served).bind (fun s =>
      (step plain s offlineRequest).map fun s' =>
        (decide (Ready plain s offlineRequest), (s'.exchanges 1).map (·.res.head))) =
      some (true, some (some .offline)) := by decide
  obtain ⟨s, he, hx⟩ := Option.bind_eq_some_iff.mp hrun
  obtain ⟨s', hs, hx⟩ := Option.map_eq_some_iff.mp hx
  rw [Prod.mk.injEq, decide_eq_true_eq] at hx
  have hreach : (Serving.machine plain).Reaches (Ready plain) s :=
    Machine.Reaches.exec (.init ⟨{}, rfl⟩) served (by decide) he
  exact ⟨s, s', he, hs, ((streams_of_ready plain s hreach).2 _ s' hx.1 hs).2, hx.2⟩

/-- The session closes while a password is verified. -/
def lostSession : List Event :=
  online ++ [.request "web" visit .verifies, .registry (.socketClose 0),
    .exchange 0 (.verified (some "gate"))]

theorem not_always_tidy : ¬ ∀ P s, (Serving.machine P).Reachable s →
    ∀ i ex, s.exchanges i = some ex → Tidy ex := by
  intro h
  have hrun : ((Serving.machine plain).exec {} lostSession).bind (fun s =>
      (s.exchanges 0).map (·.res.head)) = some (some .internal) := by decide
  obtain ⟨s, he, hx⟩ := Option.bind_eq_some_iff.mp hrun
  obtain ⟨ex, hex, hx⟩ := Option.map_eq_some_iff.mp hx
  have hreach : (Serving.machine plain).Reachable s :=
    Machine.Reachable.exec (.init ⟨{}, rfl⟩) lostSession he
  exact (h plain s hreach 0 ex hex).answered hx

end Tunlit.Proxy.Streams
