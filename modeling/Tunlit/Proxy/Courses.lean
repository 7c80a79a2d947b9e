import Tunlit.Proxy.Exchanges

/-! # The course of an exchange

What the functions of an exchange make of it, and what its phase says of the call of
`proxyRequest`, of the response and of the stream. -/
namespace Tunlit.Proxy.Courses
open Tunlit.Lib.Runs Tunlit.Proxy.Headers Tunlit.Proxy.Holds Tunlit.Proxy.Exchanges

variable {P : Platform} {ex ex' : Exchange} {env : Env} {op : Op}

/-! ## What the functions do -/

theorem heardClose_eq : ex.heardClose = { ex with
    stream := if ex.res.ended || !ex.called then ex.stream else .none
    finished := ex.finished || ex.outcome.isSome
    logged := if ex.finished then ex.logged else ex.logged ++ ex.outcome.toList } := by
  obtain ⟨_, _, _, ⟨_, ended, _⟩, _, called, _, _, _, outcome, finished, _, _, _⟩ := ex
  cases ended <;> cases called <;> cases outcome <;> cases finished <;>
    simp [Exchange.heardClose, Exchange.cut, Exchange.finish]

/-- The response is closed, and no listener has heard of it. -/
def shut (ex : Exchange) : Exchange := { ex with res := { ex.res with closed := true } }

/-- `proxyRequest` has asked the app, and a listener waits for the end of the response. -/
def listening : Exchanges.Phase → Bool
  | .requested | .collectingReply _ | .streaming | .abandoned | .over => true
  | _ => false

theorem close_cases (ex : Exchange) :
    (listening ex.phase = true ∧ ex.close = (shut ex).heardClose) ∨
    (∃ hold, ex.phase = .holding hold ∧
      ex.close = { shut ex with phase := .over, settled := ex.settled + 1 }) ∨
    (∃ hold, ex.phase = .holdingReply hold ∧
      ex.close = { (shut ex).heardClose with phase := .over, settled := ex.settled + 1 }) ∨
    ex.phase ∈ [.routed, .verifying, .collecting, .looking, .replaying, .relaying] ∧
      ex.close = shut ex := by
  obtain ⟨_, _, phase, _, _, _, _, _, _, _, _, _, _, _⟩ := ex
  cases phase with
  | requested | collectingReply _ | streaming | abandoned | «over» => exact .inl ⟨rfl, rfl⟩
  | holding hold => exact .inr (.inl ⟨hold, rfl, rfl⟩)
  | holdingReply hold => exact .inr (.inr (.inl ⟨hold, rfl, rfl⟩))
  | routed | verifying | collecting | looking | replaying | relaying =>
    exact .inr (.inr (.inr ⟨by simp, rfl⟩))

/-- A response whose request is under way takes the stream with it. -/
theorem heardClose_cut (he : ex.res.ended = false) (hc : ex.called = true) :
    (shut ex).heardClose.stream = .none := by
  simp [heardClose_eq, shut, he, hc]

theorem heardClose_phase : (shut ex).heardClose.phase = ex.phase := by rw [heardClose_eq]; rfl

theorem heardClose_head : (shut ex).heardClose.res.head = ex.res.head := by rw [heardClose_eq]; rfl

theorem forward_cases (P : Platform) (ex : Exchange) (env : Env) :
    env.session = none ∧ ex.forward P env = ex.threw ∨
    (∃ x, env.session = some x ∧
      P.acceptsRequest ex.shape.method ex.shape.path (upstreamHeaders env ex) = true ∧
      ex.forward P env = { ex with stream := .opened x, phase := .requested }) ∨
    ∃ x, env.session = some x ∧
      P.acceptsRequest ex.shape.method ex.shape.path (upstreamHeaders env ex) = false ∧
      ex.forward P env = { ex with stream := .opened x }.threw := by
  unfold Exchange.forward
  split
  · next h => exact .inl ⟨h, rfl⟩
  · next x h =>
    have hu : upstreamHeaders env { ex with stream := .opened x } = upstreamHeaders env ex := rfl
    simp only [hu]
    split
    · next ha => exact .inr (.inl ⟨x, h, ha, rfl⟩)
    · next ha => exact .inr (.inr ⟨x, h, by simpa using ha, rfl⟩)

theorem call_cases (P : Platform) (ex : Exchange) (env : Env) :
    ex.call P env = { ex with called := true, phase := .collecting } ∨
    env.holds ex.shape.method ex.shape.path .request = false ∧
      ex.call P env = { ex with called := true }.forward P env := by
  simp only [Exchange.call]
  split
  · exact .inl rfl
  · next h => exact .inr ⟨by simpa using h, rfl⟩

theorem respond_cases (P : Platform) (ex : Exchange) (env : Env) (answer : Answer) :
    ex.respond P env answer =
      { ex with outcome := some answer.status, phase := .collectingReply answer } ∨
    env.holds ex.shape.method ex.shape.path .response = false ∧
      ex.respond P env answer = { ex with outcome := some answer.status }.writeHead
        (P.acceptsHead answer.status (some answer.statusMessage)
          (streamedHeaders P env ex.request ex.setCookie answer)) (.relayed answer.status) := by
  simp only [Exchange.respond]
  split
  · exact .inl rfl
  · next h => exact .inr ⟨by simpa using h, rfl⟩

/-! ## Phases -/

/-- `proxyRequest` is at work. -/
def proxying : Exchanges.Phase → Bool
  | .collecting | .holding _ | .requested | .collectingReply _ | .holdingReply _ | .streaming
  | .abandoned => true
  | _ => false

/-- No session has been asked for a stream. -/
def unopened : Exchanges.Phase → Bool
  | .routed | .verifying | .collecting | .holding _ | .looking => true
  | _ => false

/-- The app has answered, and `proxyRequest` has not done with the answer. -/
def answered : Exchanges.Phase → Bool
  | .collectingReply _ | .holdingReply _ | .streaming | .abandoned => true
  | _ => false

theorem decide_holding {hold : HoldId} (hp : ex.phase = .holding hold) (decision : Decision) :
    ex.decide P env decision = match decision with
      | .drop => { ex with settled := ex.settled + 1, logged := ex.logged ++ [503] }.answer .dropped
      | .continueRequest message =>
        { ex with
          settled := ex.settled + 1
          shape := { message with body := [] }
          incoming := headersFromPairs message.headers
          body := some message.body }.forward P env
      | _ => { ex with settled := ex.settled + 1, phase := .over } := by
  unfold Exchange.decide
  dsimp only
  split <;> simp_all

theorem decide_holdingReply {hold : HoldId} (hp : ex.phase = .holdingReply hold)
    (decision : Decision) :
    ex.decide P env decision = match decision with
      | .drop => { ex with settled := ex.settled + 1, outcome := some 503 }.answer .dropped
      | .continueResponse reply =>
        let ex := { ex with settled := ex.settled + 1, outcome := some reply.status }
        if P.acceptsHead reply.status none
            (continuedHeaders P env ex.request ex.setCookie reply) then
          ex.answer (.continued reply.status)
        else { ex with phase := .abandoned }
      | _ => { ex with settled := ex.settled + 1, phase := .over } := by
  unfold Exchange.decide
  dsimp only
  split <;> simp_all

theorem step_cancel (hs : step P ex env (.decided .cancel) = some ex') :
    ex' = { ex with settled := ex.settled + 1, phase := .over } := by
  simp only [step] at hs
  split at hs
  · next hp =>
    cases hs
    exact decide_holding hp .cancel
  · next hp =>
    cases hs
    exact decide_holdingReply hp .cancel
  · cases hs

/-! ## What a step does -/

/-- The steps of an exchange, by what they make of it. -/
inductive Takes (P : Platform) (ex : Exchange) (env : Env) : Op → Exchange → Prop
  | offline {op : Op} : ex.phase = .routed → env.session = none → Takes P ex env op
      (ex.answer .offline)
  | denied {op : Op} {head : Head} : ex.phase ∈ [.routed, .verifying, .looking] →
      head ≠ .internal → (ex.phase = .routed → env.session ≠ none) →
      Takes P ex env op (ex.answer head)
  | waits {op : Op} {phase : Exchanges.Phase} : ex.phase = .routed → phase ∈ [.verifying, .looking] →
      env.session ≠ none → Takes P ex env op { ex with phase := phase }
  | calls {op : Op} {cookie : Option String} : ex.phase ∈ [.routed, .verifying] →
      (ex.phase = .routed → env.session ≠ none) →
      (op = .route .passes ∧ cookie = ex.setCookie ∨ ∃ c, op = .verified (some c)) →
      Takes P ex env op ({ ex with setCookie := cookie }.call P env)
  | held {body : Mux.Frames.Bytes} {hold : HoldId} : ex.phase = .collecting →
      ex.res.closed = false → Takes P ex env (.collected (.complete body) hold)
        { ex with body := some body, phase := .holding hold }
  | tooLarge {hold : HoldId} : ex.phase = .collecting → ex.res.closed = false →
      Takes P ex env (.collected .overflow hold) (ex.answer .tooLarge)
  | lost {hold : HoldId} : ex.phase = .collecting →
      Takes P ex env (.collected .error hold) { ex.destroy with phase := .over }
  | decided {decision : Decision} {hold : HoldId} :
      ex.phase = .holding hold ∨ ex.phase = .holdingReply hold →
      Takes P ex env (.decided decision) (ex.decide P env decision)
  | responded {answer : Answer} : ex.phase = .requested → ex.stream.isOpen = true →
      Takes P ex env (.responded answer) (ex.respond P env answer)
  | replyHeld {answer : Answer} {body : Mux.Frames.Bytes} {hold : HoldId} :
      ex.phase = .collectingReply answer → ex.stream.isOpen = true →
      Takes P ex env (.replied (.complete body) hold) { ex.endStream with phase := .holdingReply hold }
  | overflows {answer : Answer} {hold : HoldId} : ex.phase = .collectingReply answer →
      ex.stream.isOpen = true → Takes P ex env (.replied .overflow hold) (ex.overflow P env answer)
  | replyLost {answer : Answer} {hold : HoldId} : ex.phase = .collectingReply answer →
      Takes P ex env (.replied .error hold) { ex.cut.destroy with phase := .over }
  | streamed : ex.phase = .streaming → ex.res.closed = false →
      Takes P ex env (.streamed true)
        { ex.endStream with res := { ex.res with ended := true }, phase := .over }
  | streamLost : ex.phase = .streaming →
      Takes P ex env (.streamed false) { ex.cut.destroy with phase := .over }
  | fails : ex.phase = .requested → Takes P ex env .upstreamError ex.cut.fail
  | breaks : answered ex.phase = true → Takes P ex env .upstreamError ex.cut.destroy
  | replayFails : ex.phase = .replaying →
      Takes P ex env .upstreamError ({ ex.cut with logged := ex.logged ++ [502] }.answer .replayed)
  | cuts {op : Op} : op = .peerCloses ∨ op = .sessionCloses → Takes P ex env op ex.cut
  | closes : ex.res.closed = false → Takes P ex env .closes ex.close
  | foundOffline {message : Message} : ex.phase = .looking → env.session = none →
      Takes P ex env (.found (.ok message)) ex.threw
  | replays {message : Message} {x : Registry.State.SessionRef} : ex.phase = .looking →
      env.session = some x → P.acceptsRequest message.method message.path
        (replayHeaders env ex.request.info.host message) = true →
      Takes P ex env (.found (.ok message))
        { ex with stream := .opened x, shape := message, phase := .replaying }
  | refused {message : Message} {x : Registry.State.SessionRef} : ex.phase = .looking →
      env.session = some x → P.acceptsRequest message.method message.path
        (replayHeaders env ex.request.info.host message) = false →
      Takes P ex env (.found (.ok message)) { ex with stream := .opened x, shape := message }.threw
  | replayed {status : Nat} : ex.phase = .replaying →
      Takes P ex env (.replayed status)
        ({ ex.endStream with logged := ex.logged ++ [status] }.answer .replayed)
  | upgrades {x : Registry.State.SessionRef} {gate : Gate} : ex.phase = .routed →
      env.session = some x → Takes P ex env (.routeUpgrade gate)
        { ex with stream := .opened x, phase := .relaying }
  | relayEnds : ex.phase = .relaying → Takes P ex env .relayEnds { ex.cut with phase := .over }

theorem takes (hs : step P ex env op = some ex') : Takes P ex env op ex' := by
  cases op with
  | route gate =>
    simp only [step] at hs
    split at hs
    · cases hs
    · next hp =>
      have hp := not_not.mp hp
      split at hs
      · next hn => cases hs; exact .offline hp (by simpa using hn)
      · next hn =>
        have hn : env.session ≠ none := by simpa using hn
        cases gate <;> cases hs
        · exact .calls (by simp [hp]) (fun _ => hn) (.inl ⟨rfl, rfl⟩)
        · exact .denied (by simp [hp]) (by simp) fun _ => hn
        · exact .waits hp (by simp) hn
  | verified cookie =>
    simp only [step] at hs
    split at hs
    · cases hs
    · next hp =>
      have hp := not_not.mp hp
      have hr : ex.phase = .routed → env.session ≠ none := fun h => by simp [hp] at h
      cases cookie <;> cases hs
      · exact .denied (by simp [hp]) (by simp) hr
      · exact .calls (by simp [hp]) hr (.inr ⟨_, rfl⟩)
  | collected body hold =>
    simp only [step] at hs
    split at hs
    · cases hs
    · next hp =>
      have hp := not_not.mp hp
      cases body with
      | complete body =>
        simp only [Option.ite_none_left_eq_some] at hs
        obtain ⟨hc, hs⟩ := hs
        cases hs
        exact .held hp (by simp at hc; exact hc.1)
      | overflow =>
        simp only [Option.ite_none_left_eq_some] at hs
        obtain ⟨hc, hs⟩ := hs
        cases hs
        exact .tooLarge hp (by simpa using hc)
      | error => cases hs; exact .lost hp
  | decided decision =>
    simp only [step] at hs
    split at hs
    · next hp => cases hs; exact .decided (.inl hp)
    · next hp => cases hs; exact .decided (.inr hp)
    · cases hs
  | responded answer =>
    simp only [step, Option.ite_none_left_eq_some] at hs
    obtain ⟨hp, hs⟩ := hs
    cases hs
    simp only [ne_eq, Bool.or_eq_true, decide_eq_true_eq, Bool.not_eq_true', not_or,
      not_not, Bool.not_eq_false] at hp
    exact .responded hp.1 hp.2
  | replied body hold =>
    simp only [step] at hs
    split at hs
    · next hp =>
      cases body with
      | complete body =>
        simp only [Option.ite_none_left_eq_some] at hs
        obtain ⟨hc, hs⟩ := hs
        cases hs
        exact .replyHeld hp (by simp at hc; exact hc.1)
      | overflow =>
        simp only [Option.ite_none_left_eq_some] at hs
        obtain ⟨hc, hs⟩ := hs
        cases hs
        exact .overflows hp (by simpa using hc)
      | error => cases hs; exact .replyLost hp
    · cases hs
  | streamed complete =>
    simp only [step] at hs
    split at hs
    · cases hs
    · next hp =>
      have hp := not_not.mp hp
      cases complete with
      | true =>
        simp only [if_true, Option.ite_none_left_eq_some] at hs
        obtain ⟨hc, hs⟩ := hs
        cases hs
        exact .streamed hp (by simpa using hc)
      | false => cases hs; exact .streamLost hp
  | upstreamError =>
    simp only [step] at hs
    split at hs
    · next hp => cases hs; exact .fails hp
    · next hp => cases hs; exact .breaks (by rw [hp]; rfl)
    · next hp => cases hs; exact .breaks (by rw [hp]; rfl)
    · next hp => cases hs; exact .breaks (by rw [hp]; rfl)
    · next hp => cases hs; exact .breaks (by rw [hp]; rfl)
    · next hp => cases hs; exact .replayFails hp
    · cases hs
  | peerCloses =>
    simp only [step] at hs
    split at hs
    · cases hs; exact .cuts (.inl rfl)
    · cases hs
  | sessionCloses => cases hs; exact .cuts (.inr rfl)
  | closes =>
    simp only [step, Option.ite_none_left_eq_some] at hs
    obtain ⟨hc, hs⟩ := hs
    cases hs
    exact .closes (by simpa using hc)
  | routeReplay =>
    simp only [step] at hs
    split at hs
    · cases hs
    · next hp =>
      have hp := not_not.mp hp
      split at hs
      · next hn => cases hs; exact .offline hp (by simpa using hn)
      · next hn => cases hs; exact .waits hp (by simp) (by simpa using hn)
  | found message =>
    simp only [step] at hs
    split at hs
    · cases hs
    · next hp =>
      have hp := not_not.mp hp
      cases message with
      | error status =>
        cases hs
        exact .denied (by simp [hp]) (by simp) fun h => by simp [hp] at h
      | ok message =>
        simp only at hs
        split at hs
        · next hn => cases hs; exact .foundOffline hp hn
        · next x hx =>
          split at hs
          · next ha => cases hs; exact .replays hp hx ha
          · next ha => cases hs; exact .refused hp hx (by simpa using ha)
  | replayed status =>
    simp only [step, Option.ite_none_left_eq_some] at hs
    obtain ⟨hp, hs⟩ := hs
    cases hs
    exact .replayed (by simp at hp; exact hp.1)
  | routeUpgrade gate =>
    simp only [step] at hs
    split at hs
    · cases hs
    · next hp =>
      have hp := not_not.mp hp
      split at hs
      · next hn => cases hs; exact .offline hp hn
      · next x hx => cases hs; exact .upgrades hp hx
      · next x status hx => cases hs; exact .denied (by simp [hp]) (by simp) fun _ => by simp [hx]
      · cases hs
  | relayEnds =>
    simp only [step, Option.ite_none_left_eq_some, not_not] at hs
    obtain ⟨hp, hs⟩ := hs
    cases hs
    exact .relayEnds hp

/-! ## The invariant of the phases -/

structure Course (ex : Exchange) : Prop where
  called : ex.phase = .over ∨ ex.called = proxying ex.phase
  ended : ex.phase = .over ∨ ex.res.ended = false
  unopened : unopened ex.phase = true → ex.stream = .none
  holding : ∀ hold, ex.phase = .holding hold → ex.res.closed = false

theorem course_over (h : ex.phase = .over) : Course ex :=
  ⟨.inl h, .inl h, fun hu => (by rw [h] at hu; cases hu),
    fun _ hp => (by rw [h] at hp; cases hp)⟩

theorem course_start (tunnel : Registry.State.TunnelRef) (request : Request) :
    Course (start tunnel request) := ⟨.inr rfl, .inr rfl, fun _ => rfl, fun _ h => by cases h⟩

/-- A phase behind `session.open`. -/
theorem course_opened (hc : ex.called = proxying ex.phase) (he : ex.res.ended = false)
    (hu : Courses.unopened ex.phase = false) : Course ex :=
  ⟨.inr hc, .inr he, fun h => (by rw [hu] at h; cases h),
    fun hold hp => (by rw [hp] at hu; cases hu)⟩

theorem threw_phase : ex.threw.phase = .over := by
  unfold Exchange.threw
  split <;> rfl

theorem course_forward (hc : ex.called = true) (he : ex.res.ended = false) :
    Course (ex.forward P env) := by
  rcases forward_cases P ex env with ⟨-, hf⟩ | ⟨x, -, -, hf⟩ | ⟨x, -, -, hf⟩
  · rw [hf]
    exact course_over threw_phase
  · rw [hf]
    exact course_opened hc he rfl
  · rw [hf]
    exact course_over threw_phase

theorem course_call (he : ex.res.ended = false) (hs : ex.stream = .none) :
    Course (ex.call P env) := by
  rcases call_cases P ex env with hf | ⟨-, hf⟩
  · rw [hf]
    exact ⟨.inr rfl, .inr he, fun _ => hs, fun _ h => by cases h⟩
  · rw [hf]
    exact course_forward rfl he

theorem course_cut (h : Course ex) : Course ex.cut := ⟨h.called, h.ended, fun _ => rfl, h.holding⟩

theorem endStream_eq : ex.endStream = { ex with
    stream := match ex.stream with | .opened x => .ended x | stream => stream } := by
  unfold Exchange.endStream
  split <;> rename_i h <;> simp [h]

theorem close_eq (ex : Exchange) : ex.close.res = { ex.res with closed := true } ∧ ex.close.called = ex.called ∧
    (ex.close.phase = .over ∨ ex.close.phase = ex.phase ∧ ∀ hold, ex.phase ≠ .holding hold) ∧
    (ex.close.stream = ex.stream ∨ ex.close.stream = .none) := by
  rcases close_cases ex with
    ⟨hp, h⟩ | ⟨hold, hp, h⟩ | ⟨hold, hp, h⟩ | ⟨hp, h⟩ <;> rw [h]
  · rw [heardClose_eq]
    refine ⟨rfl, rfl, .inr ⟨rfl, fun hold hh => by rw [hh] at hp; cases hp⟩, ?_⟩
    dsimp only
    split
    · exact .inl rfl
    · exact .inr rfl
  · exact ⟨rfl, rfl, .inl rfl, .inl rfl⟩
  · rw [heardClose_eq]
    refine ⟨rfl, rfl, .inl rfl, ?_⟩
    dsimp only
    split
    · exact .inl rfl
    · exact .inr rfl
  · exact ⟨rfl, rfl, .inr ⟨rfl, fun hold hh => by simp [hh] at hp⟩, .inl rfl⟩

theorem course_close (h : Course ex) : Course ex.close := by
  obtain ⟨hr, hc, hp, hs⟩ := close_eq ex
  rcases hp with hp | ⟨hp, hh⟩
  · exact course_over hp
  · refine ⟨?_, ?_, fun hu => ?_, fun hold hold' => ?_⟩
    · rw [hp, hc]
      exact h.called
    · rw [hp, hr]
      exact h.ended
    · rw [hp] at hu
      rcases hs with hs | hs
      · exact hs.trans (h.unopened hu)
      · exact hs
    · rw [hp] at hold'
      exact absurd hold' (hh hold)

theorem course_destroy (h : Course ex) : Course ex.destroy := by
  unfold Exchange.destroy
  split
  · exact h
  · exact course_over rfl

theorem course_writeHead {accepted : Bool} {head : Head} (hc : ex.called = true)
    (he : ex.res.ended = false) : Course (ex.writeHead accepted head) := by
  unfold Exchange.writeHead
  split
  · exact course_opened hc he rfl
  · exact course_opened hc he rfl

theorem course_decide {decision : Decision} (hc : ex.called = true) (he : ex.res.ended = false) :
    Course (ex.decide P env decision) := by
  unfold Exchange.decide
  dsimp only
  split
  · exact course_over rfl
  · exact course_forward hc he
  · exact course_over rfl
  · split
    · exact course_over rfl
    · exact course_opened hc he rfl
  · exact course_over rfl

/-- Every step keeps an exchange on its course. -/
theorem course_step (h : Course ex) (hs : step P ex env op = some ex') : Course ex' := by
  have hwaits : ∀ p, ex.phase = p → unopened p = true → ex.stream = .none :=
    fun p hp hu => h.unopened (hp ▸ hu)
  have hcalled : ∀ p, ex.phase = p → p ≠ .over → ex.called = proxying p := fun p hp hne =>
    hp ▸ h.called.resolve_left (hp ▸ hne)
  have hended : ∀ p, ex.phase = p → p ≠ .over → ex.res.ended = false := fun p hp hne =>
    h.ended.resolve_left (hp ▸ hne)
  cases takes hs with
  | offline _ _ | denied _ _ _ | tooLarge _ _ | replayFails _ | replayed _ | fails _ =>
    exact course_over rfl
  | lost _ | replyLost _ | streamLost _ | streamed _ _ | relayEnds _ => exact course_over rfl
  | foundOffline _ _ | refused _ _ _ => exact course_over threw_phase
  | @waits _ phase hp hw _ =>
    have hc : ex.called = false := hcalled _ hp (by simp)
    have he := hended _ hp (by simp)
    simp only [List.mem_cons, List.not_mem_nil, or_false] at hw
    rcases hw with rfl | rfl
    · exact ⟨.inr hc, .inr he, fun _ => hwaits _ hp rfl, fun _ h => by cases h⟩
    · exact ⟨.inr hc, .inr he, fun _ => hwaits _ hp rfl, fun _ h => by cases h⟩
  | calls hp _ _ =>
    simp only [List.mem_cons, List.not_mem_nil, or_false] at hp
    rcases hp with hp | hp
    · exact course_call (hended _ hp (by simp)) (hwaits _ hp rfl)
    · exact course_call (hended _ hp (by simp)) (hwaits _ hp rfl)
  | held hp hc =>
    have hcalled : ex.called = true := hcalled _ hp (by simp)
    exact ⟨.inr hcalled, .inr (hended _ hp (by simp)), fun _ => hwaits _ hp rfl, fun _ _ => hc⟩
  | decided hp =>
    rcases hp with hp | hp
    · exact course_decide (hcalled _ hp (by simp)) (hended _ hp (by simp))
    · exact course_decide (hcalled _ hp (by simp)) (hended _ hp (by simp))
  | @responded answer hp _ =>
    have hc : ex.called = true := hcalled _ hp (by simp)
    have he := hended _ hp (by simp)
    rcases respond_cases P ex env answer with hf | ⟨-, hf⟩
    · rw [hf]
      exact course_opened hc he rfl
    · rw [hf]
      exact course_writeHead hc he
  | replyHeld hp _ =>
    have hc : ex.called = true := hcalled _ hp (by simp)
    rw [endStream_eq]
    exact course_opened hc (hended _ hp (by simp)) rfl
  | overflows hp _ => exact course_writeHead (hcalled _ hp (by simp)) (hended _ hp (by simp))
  | breaks hp => exact course_destroy (course_cut h)
  | cuts _ => exact course_cut h
  | closes _ => exact course_close h
  | replays hp _ _ =>
    have hc : ex.called = false := hcalled _ hp (by simp)
    exact course_opened hc (hended _ hp (by simp)) rfl
  | upgrades hp _ =>
    have hc : ex.called = false := hcalled _ hp (by simp)
    exact course_opened hc (hended _ hp (by simp)) rfl

/-! ## The tunnel of an exchange -/

@[simp] theorem answer_tunnel {head : Head} : (ex.answer head).tunnel = ex.tunnel := rfl

@[simp] theorem cut_tunnel : ex.cut.tunnel = ex.tunnel := rfl

@[simp] theorem threw_tunnel : ex.threw.tunnel = ex.tunnel := by
  unfold Exchange.threw
  split <;> rfl

@[simp] theorem endStream_tunnel : ex.endStream.tunnel = ex.tunnel := by rw [endStream_eq]

@[simp] theorem close_tunnel : ex.close.tunnel = ex.tunnel := by
  rcases close_cases ex with ⟨-, h⟩ | ⟨-, -, h⟩ | ⟨-, -, h⟩ | ⟨-, h⟩ <;> rw [h]
  · rw [heardClose_eq]; rfl
  · rfl
  · rw [heardClose_eq]; rfl
  · rfl

@[simp] theorem destroy_tunnel : ex.destroy.tunnel = ex.tunnel := by
  unfold Exchange.destroy
  split
  · rfl
  · exact close_tunnel

@[simp] theorem fail_tunnel : ex.fail.tunnel = ex.tunnel := by
  unfold Exchange.fail Exchange.finish
  split <;> rfl

@[simp] theorem forward_tunnel : (ex.forward P env).tunnel = ex.tunnel := by
  rcases forward_cases P ex env with ⟨-, hf⟩ | ⟨x, -, -, hf⟩ | ⟨x, -, -, hf⟩ <;> rw [hf]
  · exact threw_tunnel
  · exact threw_tunnel

@[simp] theorem call_tunnel : (ex.call P env).tunnel = ex.tunnel := by
  rcases call_cases P ex env with hf | ⟨-, hf⟩ <;> rw [hf]
  exact forward_tunnel

@[simp] theorem writeHead_tunnel {accepted : Bool} {head : Head} :
    (ex.writeHead accepted head).tunnel = ex.tunnel := by
  unfold Exchange.writeHead
  split <;> rfl

@[simp] theorem decide_tunnel {decision : Decision} :
    (ex.decide P env decision).tunnel = ex.tunnel := by
  unfold Exchange.decide
  dsimp only
  split
  · rfl
  · exact forward_tunnel
  · rfl
  · split <;> rfl
  · rfl

theorem step_tunnel (hs : step P ex env op = some ex') : ex'.tunnel = ex.tunnel := by
  cases takes hs with
  | @responded answer _ _ =>
    rcases respond_cases P ex env answer with hf | ⟨-, hf⟩ <;> rw [hf]
    exact writeHead_tunnel
  | overflows _ _ => exact writeHead_tunnel
  | _ => simp

end Tunlit.Proxy.Courses
