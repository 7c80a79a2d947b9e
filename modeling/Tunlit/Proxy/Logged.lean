import Tunlit.Proxy.Courses

/-! # The log of requests

`onRequest` is called by an observer, which `proxyRequest` makes in the request phase of a
hold, for a drop, and again for the request to the app. The `close` event of the response
calls it with the status of the outcome. -/
namespace Tunlit.Proxy.Logged
open Tunlit.Lib.Runs Tunlit.Proxy.Headers Tunlit.Proxy.Holds Tunlit.Proxy.Exchanges
  Tunlit.Proxy.Courses

/-- What is logged of an exchange: one status at most, and the one of the head that
`proxyRequest` wrote as soon as the response has closed. A head `internal` is the router's. -/
structure LoggedOnce (ex : Exchange) : Prop where
  atMost : ex.logged.length ≤ 1
  answered : ∀ head, ex.called = true → ex.res.head = some head → head ≠ .internal →
    ex.res.closed = true → ex.logged = [head.status]

/-- No request is above the limit of a hold, and the app answers only while the visitor is
there. -/
def heard (ex : Exchange) (event : Env × Op) : Bool :=
  match event.2 with
  | .collected .overflow _ => false
  | .responded _ => !ex.res.closed
  | _ => true

/-! ## The states of the log -/

/-- Nothing is answered, and nothing is there that logs. -/
structure Silent (ex : Exchange) : Prop where
  head : ex.res.head = none
  outcome : ex.outcome = none
  logged : ex.logged = []
  finished : ex.finished = false

/-- The listener of the `close` event is there; it has logged its outcome if the response
has closed. -/
structure Listens (ex : Exchange) (status : Nat) : Prop where
  outcome : ex.outcome = some status
  logged : ex.logged = if ex.res.closed then [status] else []
  finished : ex.finished = ex.res.closed
  head : ∀ head, ex.res.head = some head → head.status = status

/-- There is no listener, and what `proxyRequest` has answered is logged. -/
structure Noted (ex : Exchange) : Prop where
  outcome : ex.outcome = none
  atMost : ex.logged.length ≤ 1
  answered : ∀ head, ex.called = true → ex.res.head = some head → head ≠ .internal →
    ex.logged = [head.status]

/-- What the log is in each phase. -/
def Accounted (ex : Exchange) : Prop :=
  match ex.phase with
  | .collectingReply answer => Listens ex answer.status ∧ ex.res.head = none ∧
      (ex.stream.isOpen = true → ex.res.closed = false)
  | .holdingReply _ => ∃ status, Listens ex status ∧ ex.res.head = none ∧ ex.res.closed = false
  | .streaming | .abandoned => ∃ status, Listens ex status
  | .over => (∃ status, Listens ex status) ∨ Noted ex
  | _ => Silent ex

variable {P : Platform} {ex ex' : Exchange} {env : Env} {op : Op} {status : Nat}

theorem Listens.loggedOnce (h : Listens ex status) : LoggedOnce ex := by
  refine ⟨?_, fun head _ hh _ hc => ?_⟩
  · rw [h.logged]
    split <;> simp
  · rw [h.logged, if_pos hc, h.head head hh]

theorem Noted.loggedOnce (h : Noted ex) : LoggedOnce ex :=
  ⟨h.atMost, fun head hcalled hh hi _ => h.answered head hcalled hh hi⟩

theorem Silent.noted (h : Silent ex) : Noted ex := by
  refine ⟨h.outcome, by simp [h.logged], fun head _ hh => ?_⟩
  rw [h.head] at hh
  cases hh

theorem Accounted.observed (h : Accounted ex) : (∃ status, Listens ex status) ∨ Noted ex := by
  unfold Accounted at h
  split at h
  · exact .inl ⟨_, h.1⟩
  · exact .inl ⟨_, h.choose_spec.1⟩
  · exact .inl h
  · exact .inl h
  · exact h
  · exact .inr h.noted

theorem Accounted.loggedOnce (h : Accounted ex) : LoggedOnce ex := by
  obtain ⟨status, h⟩ | h := h.observed
  · exact h.loggedOnce
  · exact h.loggedOnce

theorem accounted_over (hp : ex.phase = .over) (h : (∃ status, Listens ex status) ∨ Noted ex) :
    Accounted ex := by
  simpa only [Accounted, hp] using h

theorem Accounted.silent (h : Accounted ex) (ha : answered ex.phase = false)
    (ho : ex.phase ≠ .over) : Silent ex := by
  unfold Accounted at h
  cases hp : ex.phase <;> simp_all [answered]

/-! ## What the steps do to the log -/

theorem accounted_start (tunnel : Registry.State.TunnelRef) (request : Request) :
    Accounted (start tunnel request) := Silent.mk rfl rfl rfl rfl

theorem Listens.cut (h : Listens ex status) : Listens ex.cut status :=
  ⟨h.outcome, h.logged, h.finished, h.head⟩

theorem accounted_cut (h : Accounted ex) : Accounted ex.cut := by
  have hp : ex.cut.phase = ex.phase := rfl
  unfold Accounted at h ⊢
  rw [hp]
  split at h
  · exact ⟨h.1.cut, h.2.1, fun hopen => by cases hopen⟩
  · obtain ⟨status, hl, hh, hc⟩ := h
    exact ⟨status, hl.cut, hh, hc⟩
  · obtain ⟨status, hl⟩ := h
    exact ⟨status, hl.cut⟩
  · obtain ⟨status, hl⟩ := h
    exact ⟨status, hl.cut⟩
  · obtain ⟨status, hl⟩ | hn := h
    · exact .inl ⟨status, hl.cut⟩
    · exact .inr ⟨hn.outcome, hn.atMost, hn.answered⟩
  · exact ⟨h.head, h.outcome, h.logged, h.finished⟩

/-- A head that is not one of `proxyRequest`. -/
theorem Silent.answer {head : Head} (h : Silent ex) (hc : ex.called = false ∨ head = .internal) :
    Accounted (ex.answer head) := by
  refine accounted_over rfl (.inr ⟨h.outcome, by simp [Exchange.answer, h.logged], ?_⟩)
  intro head' hcalled hh hi
  cases hh
  rcases hc with hc | rfl
  · exact absurd (hc.symm.trans hcalled) Bool.false_ne_true
  · exact absurd rfl hi

theorem Silent.threw (h : Silent ex) : Accounted ex.threw := by
  unfold Exchange.threw
  split
  · exact accounted_over rfl (.inr (Silent.noted ⟨h.head, h.outcome, h.logged, h.finished⟩))
  · rw [h.head]
    exact h.answer (.inr rfl)

theorem Silent.forward (h : Silent ex) : Accounted (ex.forward P env) := by
  have hopen : ∀ x phase, Silent { ex with stream := .opened x, phase := phase } :=
    fun _ _ => ⟨h.head, h.outcome, h.logged, h.finished⟩
  rcases forward_cases P ex env with
    ⟨-, hf⟩ | ⟨x, -, -, hf⟩ | ⟨x, -, -, hf⟩
  · rw [hf]
    exact h.threw
  · rw [hf]
    exact hopen x .requested
  · rw [hf]
    exact (hopen x ex.phase).threw

theorem Silent.call (h : Silent ex) : Accounted (ex.call P env) := by
  have hcalled : ∀ phase, Silent { ex with called := true, phase := phase } :=
    fun _ => ⟨h.head, h.outcome, h.logged, h.finished⟩
  rcases call_cases P ex env with hf | ⟨-, hf⟩
  · rw [hf]
    exact hcalled .collecting
  · rw [hf]
    exact (hcalled ex.phase).forward

theorem Silent.fail (h : Silent ex) : Accounted ex.fail := by
  have hf : ex.fail = { ex with finished := true, logged := [502] }.answer .offline := by
    simp [Exchange.fail, Exchange.finish, h.finished, h.logged]
  rw [hf]
  refine accounted_over rfl (.inr ⟨h.outcome, Nat.le_refl 1, ?_⟩)
  intro head _ hh _
  cases hh
  rfl

/-- The listener logs its outcome when the response closes. -/
theorem Listens.heardClose (h : Listens ex status) (hc : ex.res.closed = false) :
    Listens (shut ex).heardClose status := by
  have hf : ex.finished = false := h.finished.trans hc
  have hl : ex.logged = [] := by simpa [hc] using h.logged
  rw [heardClose_eq]
  refine ⟨h.outcome, ?_, ?_, h.head⟩
  · simp [shut, hf, hl, h.outcome]
  · simp [shut, h.outcome]

theorem Noted.heardClose (h : Noted ex) : Noted (shut ex).heardClose := by
  have hl : (shut ex).heardClose.logged = ex.logged := by
    simp [heardClose_eq, shut, h.outcome]
  have hh : (shut ex).heardClose.res.head = ex.res.head := by rw [heardClose_eq]; rfl
  have hcalled : (shut ex).heardClose.called = ex.called := by rw [heardClose_eq]; rfl
  refine ⟨by rw [heardClose_eq]; exact h.outcome, by rw [hl]; exact h.atMost, ?_⟩
  rw [hl, hh, hcalled]
  exact h.answered

theorem Silent.heardClose (h : Silent ex) : Silent (shut ex).heardClose := by
  rw [heardClose_eq]
  exact ⟨h.head, h.outcome, by simp [shut, h.logged, h.outcome], by simp [shut, h.finished, h.outcome]⟩

theorem accounted_close (hcourse : Course ex) (h : Accounted ex) (hc : ex.res.closed = false) :
    Accounted ex.close := by
  have hobserved : (∃ status, Listens (shut ex).heardClose status) ∨ Noted (shut ex).heardClose := by
    rcases h.observed with ⟨status, h⟩ | h
    · exact .inl ⟨status, h.heardClose hc⟩
    · exact .inr h.heardClose
  unfold Accounted at h
  rcases close_cases ex with
    ⟨hp, hclose⟩ | ⟨hold, hp, hclose⟩ | ⟨hold, hp, hclose⟩ | ⟨hp, hclose⟩ <;> rw [hclose]
  · rw [Accounted, heardClose_phase, heardClose_head]
    cases hphase : ex.phase with
    | requested =>
      simp only [hphase] at h
      exact h.heardClose
    | collectingReply answer =>
      simp only [hphase] at h
      have hcut := heardClose_cut (hcourse.ended.resolve_left (by simp [hphase]))
        (by simpa [hphase, proxying] using hcourse.called.resolve_left (by simp [hphase]))
      refine ⟨h.1.heardClose hc, h.2.1, fun hopen => ?_⟩
      rw [hcut] at hopen
      cases hopen
    | streaming | abandoned =>
      simp only [hphase] at h
      exact ⟨h.choose, h.choose_spec.heardClose hc⟩
    | «over» => exact hobserved
    | _ => simp [hphase, listening] at hp
  · simp only [hp] at h
    exact accounted_over rfl (.inr (Silent.noted ⟨h.head, h.outcome, h.logged, h.finished⟩))
  · refine accounted_over rfl ?_
    rcases hobserved with ⟨status, h⟩ | h
    · exact .inl ⟨status, h.outcome, h.logged, h.finished, h.head⟩
    · exact .inr ⟨h.outcome, h.atMost, h.answered⟩
  · have hs : Silent ex := by
      simp only [List.mem_cons, List.not_mem_nil, or_false] at hp
      rcases hp with hp | hp | hp | hp | hp | hp <;> simpa only [hp] using h
    simp only [List.mem_cons, List.not_mem_nil, or_false] at hp
    rcases hp with hp | hp | hp | hp | hp | hp <;>
      simp only [Accounted, shut, hp] <;> exact ⟨hs.head, hs.outcome, hs.logged, hs.finished⟩

theorem accounted_ends (h : Accounted ex) : Accounted { ex with phase := .over } := by
  refine accounted_over rfl ?_
  rcases h.observed with ⟨status, h⟩ | h
  · exact .inl ⟨status, h.outcome, h.logged, h.finished, h.head⟩
  · exact .inr ⟨h.outcome, h.atMost, h.answered⟩

theorem accounted_destroy (hcourse : Course ex) (h : Accounted ex) : Accounted ex.destroy := by
  unfold Exchange.destroy
  split
  · exact h
  · next hc => exact accounted_ends (accounted_close hcourse h (by simpa using hc))

/-- The head of the app is written with the status of the outcome, if `writeHead` takes it. -/
theorem Listens.writeHead (accepted : Bool) (head : Head) (h : Listens ex head.status) :
    Accounted (ex.writeHead accepted head) := by
  unfold Exchange.writeHead
  split
  · refine ⟨head.status, h.outcome, h.logged, h.finished, fun other hh => ?_⟩
    cases hh
    rfl
  · exact ⟨head.status, h.outcome, h.logged, h.finished, h.head⟩

/-- The listener is made while the visitor is there, and has nothing to log yet. -/
theorem Silent.listens (h : Silent ex) (hc : ex.res.closed = false) (status : Nat) :
    Listens { ex with outcome := some status } status := by
  refine ⟨rfl, ?_, h.finished.trans hc.symm, fun head hh => ?_⟩
  · simp [hc, h.logged]
  · exact absurd (h.head.symm.trans hh) (by simp)

/-- The outcome is changed while the visitor is there. -/
theorem Listens.change (h : Listens ex status) (hh : ex.res.head = none)
    (hc : ex.res.closed = false) (status : Nat) :
    Listens { ex with outcome := some status } status := by
  refine ⟨rfl, ?_, h.finished, fun head hhead => ?_⟩
  · simpa [hc] using h.logged
  · exact absurd (hh.symm.trans hhead) (by simp)

theorem Listens.answer (head : Head) (h : Listens ex head.status) : Accounted (ex.answer head) := by
  refine accounted_over rfl (.inl ⟨head.status, h.outcome, h.logged, h.finished, ?_⟩)
  intro other hh
  cases hh
  rfl

theorem Silent.decide {hold : HoldId} {decision : Decision} (h : Silent ex)
    (hp : ex.phase = .holding hold) : Accounted (ex.decide P env decision) := by
  rw [decide_holding hp]
  cases decision with
  | drop =>
    refine accounted_over rfl (.inr ⟨h.outcome, by simp [Exchange.answer, h.logged], ?_⟩)
    intro head _ hh _
    cases hh
    simp [Exchange.answer, h.logged, Head.status]
  | continueRequest message => exact Silent.forward ⟨h.head, h.outcome, h.logged, h.finished⟩
  | cancel | continueResponse _ =>
    exact accounted_over rfl (.inr (Silent.noted ⟨h.head, h.outcome, h.logged, h.finished⟩))

theorem Listens.decide {hold : HoldId} {decision : Decision} (h : Listens ex status)
    (hh : ex.res.head = none) (hc : ex.res.closed = false) (hp : ex.phase = .holdingReply hold) :
    Accounted (ex.decide P env decision) := by
  rw [decide_holdingReply hp]
  cases decision with
  | drop =>
    have hl := h.change hh hc 503
    exact Listens.answer .dropped ⟨hl.outcome, hl.logged, hl.finished, hl.head⟩
  | continueResponse reply =>
    have hl := h.change hh hc reply.status
    dsimp only
    split
    · exact Listens.answer (.continued reply.status)
        ⟨hl.outcome, hl.logged, hl.finished, hl.head⟩
    · exact ⟨reply.status, hl.outcome, hl.logged, hl.finished, hl.head⟩
  | cancel | continueRequest _ =>
    exact accounted_over rfl (.inl ⟨status, h.outcome, h.logged, h.finished, h.head⟩)

/-! ## Runs -/

theorem accounted_step (hcourse : Course ex) (h : Accounted ex) (hheard : heard ex (env, op))
    (hs : step P ex env op = some ex') : Accounted ex' := by
  have hsilent : ∀ p, ex.phase = p → answered p = false → p ≠ .over → Silent ex :=
    fun p hp ha ho => h.silent (hp ▸ ha) (hp ▸ ho)
  have hcalled : ∀ p, ex.phase = p → p ≠ .over → ex.called = proxying p := fun p hp ho =>
    hp ▸ hcourse.called.resolve_left (hp ▸ ho)
  have hacc := h
  unfold Accounted at h
  cases takes hs with
  | offline hp _ => exact (hsilent _ hp rfl (by simp)).answer (.inl (hcalled _ hp (by simp)))
  | denied hp _ _ =>
    simp only [List.mem_cons, List.not_mem_nil, or_false] at hp
    rcases hp with hp | hp | hp
    · exact (hsilent _ hp rfl (by simp)).answer (.inl (hcalled _ hp (by simp)))
    · exact (hsilent _ hp rfl (by simp)).answer (.inl (hcalled _ hp (by simp)))
    · exact (hsilent _ hp rfl (by simp)).answer (.inl (hcalled _ hp (by simp)))
  | tooLarge _ _ => cases hheard
  | replayFails hp =>
    have hn := hsilent _ hp rfl (by simp)
    have hc : ex.called = false := hcalled _ hp (by simp)
    refine accounted_over rfl (.inr ⟨hn.outcome, ?_, fun head hcalled => ?_⟩)
    · simp [Exchange.answer, hn.logged]
    · exact absurd (hc.symm.trans hcalled) Bool.false_ne_true
  | replayed hp =>
    have hn := hsilent _ hp rfl (by simp)
    have hc : ex.called = false := hcalled _ hp (by simp)
    rw [endStream_eq]
    refine accounted_over rfl (.inr ⟨hn.outcome, ?_, fun head hcalled => ?_⟩)
    · simp [Exchange.answer, hn.logged]
    · exact absurd (hc.symm.trans hcalled) Bool.false_ne_true
  | fails hp =>
    have hn := hsilent _ hp rfl (by simp)
    exact Silent.fail ⟨hn.head, hn.outcome, hn.logged, hn.finished⟩
  | lost hp => exact accounted_ends (accounted_destroy hcourse hacc)
  | replyLost _ | streamLost _ =>
    exact accounted_ends (accounted_destroy (course_cut hcourse) (accounted_cut hacc))
  | streamed hp hc =>
    simp only [hp] at h
    obtain ⟨status, hl⟩ := h
    rw [endStream_eq]
    exact accounted_over rfl (.inl ⟨status, hl.outcome, hl.logged, hl.finished, hl.head⟩)
  | relayEnds hp => exact accounted_ends (accounted_cut hacc)
  | foundOffline hp _ => exact (hsilent _ hp rfl (by simp)).threw
  | refused hp _ _ =>
    have hn := hsilent _ hp rfl (by simp)
    exact Silent.threw ⟨hn.head, hn.outcome, hn.logged, hn.finished⟩
  | waits hp hw _ =>
    have hn := hsilent _ hp rfl (by simp)
    simp only [List.mem_cons, List.not_mem_nil, or_false] at hw
    rcases hw with rfl | rfl
    · exact Silent.mk hn.head hn.outcome hn.logged hn.finished
    · exact Silent.mk hn.head hn.outcome hn.logged hn.finished
  | calls hp _ _ =>
    have hn : Silent ex := by
      simp only [List.mem_cons, List.not_mem_nil, or_false] at hp
      rcases hp with hp | hp
      · exact hsilent _ hp rfl (by simp)
      · exact hsilent _ hp rfl (by simp)
    exact Silent.call ⟨hn.head, hn.outcome, hn.logged, hn.finished⟩
  | held hp hc =>
    have hn := hsilent _ hp rfl (by simp)
    exact Silent.mk hn.head hn.outcome hn.logged hn.finished
  | decided hp =>
    rcases hp with hp | hp
    · exact (hsilent _ hp rfl (by simp)).decide hp
    · simp only [hp] at h
      obtain ⟨status, hl, hh, hc⟩ := h
      exact hl.decide hh hc hp
  | @responded answer hp _ =>
    have hn := hsilent _ hp rfl (by simp)
    have hc : ex.res.closed = false := by simpa [heard] using hheard
    have hl := hn.listens hc answer.status
    rcases respond_cases P ex env answer with hf | ⟨-, hf⟩
    · rw [hf]
      exact ⟨⟨hl.outcome, hl.logged, hl.finished, hl.head⟩, hn.head, fun _ => hc⟩
    · rw [hf]
      exact hl.writeHead _ (.relayed answer.status)
  | replyHeld hp ho =>
    simp only [hp] at h
    obtain ⟨hl, hh, hc⟩ := h
    rw [endStream_eq]
    exact ⟨_, ⟨hl.outcome, hl.logged, hl.finished, hl.head⟩, hh, hc ho⟩
  | @overflows answer _ hp _ =>
    simp only [hp] at h
    exact h.1.writeHead _ (.relayed answer.status)
  | breaks hp => exact accounted_destroy (course_cut hcourse) (accounted_cut hacc)
  | cuts _ => exact accounted_cut hacc
  | closes hc => exact accounted_close hcourse hacc hc
  | replays hp _ _ =>
    have hn := hsilent _ hp rfl (by simp)
    exact Silent.mk hn.head hn.outcome hn.logged hn.finished
  | upgrades hp _ =>
    have hn := hsilent _ hp rfl (by simp)
    exact Silent.mk hn.head hn.outcome hn.logged hn.finished

/-- While the condition holds, every request is logged once. -/
theorem logged_of_heard (P : Platform) (ex : Exchange)
    (h : (machine P).Reaches (fun ex event => heard ex event) ex) : LoggedOnce ex := by
  have hinv : Course ex ∧ Accounted ex := by
    refine h.invariant (I := fun ex => Course ex ∧ Accounted ex) ?_ ?_
    · rintro _ ⟨tunnel, request, rfl⟩
      exact ⟨course_start .., accounted_start ..⟩
    · intro s t e hs hok hst
      exact ⟨course_step hs.1 hst, accounted_step hs.1 hs.2 hok hst⟩
  exact hinv.2.loggedOnce

/-- A request that is held and goes on, and a response that is held and dropped. -/
def droppedReply : List (Env × Op) :=
  [(serving true true, .route .passes), (serving true true, .collected (.complete []) 0),
    (serving true true, .decided (.continueRequest ⟨"GET", "/", [], []⟩)),
    (serving true true, .responded page), (serving true true, .replied (.complete [60]) 1),
    (serving true true, .decided .drop), (serving true true, .closes)]

theorem logged_dropped : ∃ ex, (machine plain).exec (start 0 visit) droppedReply = some ex ∧
    LoggedOnce ex ∧ ex.logged = [503] := by
  have h : ((machine plain).exec (start 0 visit) droppedReply).map (·.logged) = some [503] := by
    decide
  obtain ⟨ex, he, h⟩ := Option.map_eq_some_iff.mp h
  have hreach : (machine plain).Reaches (fun ex event => heard ex event) ex :=
    Machine.Reaches.exec (.init ⟨0, visit, rfl⟩) droppedReply (by decide) he
  exact ⟨ex, he, logged_of_heard plain ex hreach, h⟩

/-- A request above the limit of a hold, whose visitor then leaves. -/
def oversized : List (Env × Op) :=
  [(serving true false, .route .passes), (serving true false, .collected .overflow 0),
    (serving true false, .closes)]

theorem not_always_logged : ¬ ∀ P ex, (machine P).Reachable ex → LoggedOnce ex := by
  intro h
  have hrun : ((machine plain).exec (start 0 visit) oversized).map
      (fun ex => (ex.called, ex.res, ex.logged)) =
      some (true, ⟨some .tooLarge, true, true⟩, []) := by decide
  obtain ⟨ex, he, hx⟩ := Option.map_eq_some_iff.mp hrun
  have hreach : (machine plain).Reachable ex :=
    Machine.Reachable.exec (.init ⟨0, visit, rfl⟩) oversized he
  simp only [Prod.mk.injEq] at hx
  have hlog := (h plain ex hreach).answered .tooLarge hx.1 (by rw [hx.2.1]) (by simp)
    (by rw [hx.2.1])
  rw [hx.2.2] at hlog
  cases hlog

end Tunlit.Proxy.Logged
