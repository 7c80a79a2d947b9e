import Mathlib.Data.List.Infix
import Tunlit.Client.Flags
import Tunlit.Client.Outages
import Tunlit.Lib.Runs

/-! # The session of an owner

`run` of `tunnel.rs` in the CLI, cut at its `select!`s: what comes first is the event. The streams
that visitors open are served aside, and no part of this. -/
namespace Tunlit.Client.Owning
open Tunlit.Lib.Runs Tunlit.Client.Flags Tunlit.Client.Outages

/-! ## Messages -/

/-- A control message: the fields that are read of any, none where they are missing or of
another type. -/
structure Message where
  type : Option String := none
  message : Option String := none
  code : Option String := none
  reason : Option String := none
  access : Option String := none
  id : Option String := none
  url : Option String := none
  shareCode : Option String := none
  connectUrl : Option String := none
  customUrls : List String := []
  persistent : Option Bool := none
  resumeToken : Option String := none
  port : Option ℕ := none
  online : Option Bool := none
deriving DecidableEq

/-- `expect` of `mux.rs`, with what has come. -/
def expect (expected : String) : Option Message → Except String Message
  | none => .error "Connection closed by server"
  | some msg =>
    let kind := msg.type.getD ""
    if kind = "error" then
      .error (msg.message.getD "unknown error" ++ " (" ++ msg.code.getD "error" ++ ")")
    else if kind ≠ expected then .error ("Unexpected message from server: " ++ kind)
    else .ok msg

/-- What comes of a connection: to the server, of the hello, of the request and the answer to it. -/
structure Dialled where
  connected : Except String Unit := .ok ()
  hello : Option Message := some { type := some "hello" }
  sent : Except String Unit := .ok ()
  answer : Option Message := none

def Dialled.greet (dialled : Dialled) : Except String Unit := do
  dialled.connected
  let _ ← expect "hello" dialled.hello

structure Online where
  id : String
  url : Option String := none
  shareCode : Option String := none
  connectUrl : Option String := none
  customUrls : List String := []
  persistent : Bool := false
  access : Option String := none
deriving DecidableEq

structure Registration where
  online : Online
  resumeToken : String
deriving DecidableEq

def register (dialled : Dialled) : Except String Registration := do
  dialled.greet
  dialled.sent
  let msg ← expect "registered" dialled.answer
  let some id := msg.id | .error "registered without id"
  let some resumeToken := msg.resumeToken | .error "registered without resume token"
  return {
    online := {
      id, url := msg.url, shareCode := msg.shareCode, connectUrl := msg.connectUrl
      customUrls := msg.customUrls, persistent := msg.persistent.getD false, access := msg.access }
    resumeToken }

def contains (text part : String) : Bool := decide (part.toList <:+: text.toList)

def isFatal (text : String) : Bool :=
  ["(unauthorized)", "(invalid_name)", "(name_taken)", "(name_reserved)", "(quota_exceeded)"].any
    (contains text)

/-! ## The session -/

inductive TunnelEvent
  | connecting
  | online (online : Online)
  | resumed (online : Online)
  | replaced (online : Online)
  | request (msg : Message)
  | connection (msg : Message)
  | access (summary : String)
  | reconnecting (seconds : ℕ) (reason : Option String)
  | stopped
  | ended (reason : String)
deriving DecidableEq

inductive Phase
  /-- the first `register` -/
  | first
  | serving (reg : Registration) (backoff : ℕ)
  | sleeping (reg : Registration) (backoff : ℕ)
  | retrying (reg : Registration) (backoff : ℕ)
  | over (result : Except String Unit)

/-- A `register` that is over: what was asked for, if it came to that, and what came of it. -/
structure Attempt where
  asked : Option Registry.State.Request
  result : Except String Registration

structure Owner where
  phase : Phase := .first
  out : List TunnelEvent := [.connecting]
  attempts : List Attempt := []
  /-- a bye was sent -/
  bye : Bool := false

inductive Event
  | dialled (dialled : Dialled)
  /-- a control message, or the end of them -/
  | control (msg : Option Message)
  /-- the streams are over -/
  | closed
  /-- the seconds of the sleep are over -/
  | wake
  | stop

def Owner.tell (owner : Owner) (event : TunnelEvent) : Owner :=
  { owner with out := owner.out ++ [event] }

/-- The session is lost: what follows `Ended::Dropped`. -/
def Owner.lose (owner : Owner) (reg : Registration) (backoff : ℕ) : Owner :=
  { owner.tell (.reconnecting backoff none) with phase := .sleeping reg backoff }

/-- `serve_streams` on a control message, with what follows it. -/
def Owner.control (owner : Owner) (reg : Registration) (backoff : ℕ) : Option Message → Owner
  | none => owner.lose reg backoff
  | some msg =>
    match msg.type with
    | some "error" => { owner with
        phase := .over (.error ("Server error: " ++ msg.message.getD "unknown error")) }
    | some "bye" => { owner.tell (.ended (msg.reason.getD "closed by the server")) with
        phase := .over (.ok ()) }
    | some "request" => owner.tell (.request msg)
    | some "connection" => owner.tell (.connection msg)
    | some "access" => owner.tell (.access (msg.access.getD "open to anyone"))
    | _ => owner

section

variable (opts : Options) (target : Target)

/-- The `register` of a phase. -/
def Owner.dial (owner : Owner) (resume share : Option String) (dialled : Dialled) : Owner :=
  { owner with attempts := owner.attempts ++
      [⟨dialled.greet.toOption.map fun _ => opts.message target resume share, register dialled⟩] }

def step (owner : Owner) : Event → Option Owner
  | .dialled dialled =>
    match owner.phase with
    | .first =>
      let owner := owner.dial opts target none none dialled
      match register dialled with
      | .ok reg => some { owner.tell (.online reg.online) with phase := .serving reg 1 }
      | .error text => some { owner with phase := .over (.error text) }
    | .retrying reg backoff =>
      let owner := owner.dial opts target (some reg.resumeToken) reg.online.shareCode dialled
      match register dialled with
      | .ok new =>
        let event := if new.online.id = reg.online.id then TunnelEvent.resumed new.online
          else .replaced new.online
        some { owner.tell event with phase := .serving new 1 }
      | .error text =>
        if isFatal text then some { owner with phase := .over (.error text) }
        else
          let backoff := min (backoff * 2) 30
          some { owner.tell (.reconnecting backoff (some text)) with
            phase := .sleeping reg backoff }
    | _ => none
  | .control msg =>
    match owner.phase with
    | .serving reg backoff => some (owner.control reg backoff msg)
    | _ => none
  | .closed =>
    match owner.phase with
    | .serving reg backoff => some (owner.lose reg backoff)
    | _ => none
  | .wake =>
    match owner.phase with
    | .sleeping reg backoff => some { owner with phase := .retrying reg backoff }
    | _ => none
  | .stop =>
    match owner.phase with
    | .first => some { owner with phase := .over (.ok ()) }
    | .serving _ _ => some { owner.tell .stopped with phase := .over (.ok ()), bye := true }
    | .sleeping _ _ | .retrying _ _ => some { owner.tell .stopped with phase := .over (.ok ()) }
    | .over _ => none

def machine : Machine Owner Event := ⟨(· = {}), step opts target⟩

end

/-! ## What holds over a run -/

def TunnelEvent.note : TunnelEvent → Note String
  | .connecting => .connecting
  | .online o => .up o.id
  | .resumed o => .back o.id true
  | .replaced o => .back o.id false
  | .request _ | .connection _ | .access _ => .news
  | .reconnecting seconds reason => .waiting seconds reason
  | .stopped => .stopped
  | .ended _ => .ended

/-- The stage a phase is told to be, and for what a run is over. -/
def Phase.Fits : Phase → Stage String → Prop
  | .first, stage => stage = .connecting
  | .serving reg backoff, stage => stage = .up reg.online.id ∧ backoff = 1
  | .sleeping reg backoff, stage | .retrying reg backoff, stage =>
    ∃ errors, stage = .down reg.online.id errors ∧ backoff = pause errors.length ∧
      ∀ error ∈ errors, isFatal error = false
  | .over (.ok _), stage => stage = .over ∨ stage = .connecting
  | .over (.error text), stage => stage = .connecting ∨
    (∃ id message, stage = .up id ∧ text = "Server error: " ++ message) ∨
    ∃ id errors, stage = .down id errors ∧ isFatal text = true ∧
      ∀ error ∈ errors, isFatal error = false

/-- What the last `register` that went well came to. -/
def lastOf (attempts : List Attempt) : Option Registration :=
  (attempts.filterMap fun attempt => attempt.result.toOption).getLast?

/-- An owner asks for what the server gave it last. -/
def Asks (opts : Options) (target : Target) (attempts : List Attempt) : Prop :=
  ∀ before attempt after, attempts = before ++ attempt :: after → ∀ request ∈ attempt.asked,
    request = opts.message target ((lastOf before).map Registration.resumeToken)
      ((lastOf before).bind fun reg => reg.online.shareCode)

def Phase.reg : Phase → Option Registration
  | .serving reg _ | .sleeping reg _ | .retrying reg _ => some reg
  | .first | .over _ => none

structure Sound (opts : Options) (target : Target) (owner : Owner) : Prop where
  tells : ∃ stage, stageOf (owner.out.map TunnelEvent.note) = some stage ∧ owner.phase.Fits stage
  asks : Asks opts target owner.attempts
  knows : ∀ reg ∈ owner.phase.reg, lastOf owner.attempts = some reg
  new : owner.phase = .first → owner.attempts = []

variable {opts : Options} {target : Target} {owner owner' : Owner} {e : Event}

theorem Asks.concat {attempts : List Attempt} {attempt : Attempt}
    (h : Asks opts target attempts)
    (hasked : ∀ request ∈ attempt.asked, request =
      opts.message target ((lastOf attempts).map Registration.resumeToken)
        ((lastOf attempts).bind fun reg => reg.online.shareCode)) :
    Asks opts target (attempts ++ [attempt]) := by
  intro before a after heq request hrequest
  rcases List.eq_nil_or_concat after with rfl | ⟨after, last, rfl⟩
  · obtain ⟨rfl, ha⟩ := List.append_inj' heq rfl
    cases ha
    exact hasked request hrequest
  · rw [List.concat_eq_append, ← List.cons_append, ← List.append_assoc] at heq
    obtain ⟨rfl, -⟩ := List.append_inj' heq rfl
    exact h before a after rfl request hrequest

theorem lastOf_concat (attempts : List Attempt) (attempt : Attempt) :
    lastOf (attempts ++ [attempt]) = attempt.result.toOption.or (lastOf attempts) := by
  rw [lastOf, List.filterMap_append, List.getLast?_append, lastOf]
  cases hresult : attempt.result <;> simp [hresult, Except.toOption]

theorem tells_concat {stage stage' : Stage String} {event : TunnelEvent}
    (h : stageOf (owner.out.map TunnelEvent.note) = some stage)
    (hnext : stage.next event.note = some stage') :
    stageOf ((owner.out ++ [event]).map TunnelEvent.note) = some stage' := by
  rw [List.map_append, List.map_singleton, stageOf_concat, h]
  exact hnext

/-! ## Steps -/

/-- A step that tells of something and does not dial. -/
theorem Sound.tell (h : Sound opts target owner) {event : TunnelEvent} {phase : Phase}
    {bye : Bool} (hfits : ∀ stage, owner.phase.Fits stage →
      ∃ stage', stage.next event.note = some stage' ∧ phase.Fits stage')
    (hreg : ∀ reg ∈ phase.reg, owner.phase.reg = some reg) (hnew : phase ≠ .first) :
    Sound opts target { owner.tell event with phase := phase, bye := bye } where
  tells := by
    obtain ⟨stage, hstage, hphase⟩ := h.tells
    obtain ⟨stage', hnext, hphase'⟩ := hfits stage hphase
    exact ⟨stage', tells_concat hstage hnext, hphase'⟩
  asks := h.asks
  knows reg hmem := h.knows reg (hreg reg hmem)
  new hfirst := absurd hfirst hnew

/-- A step that tells nothing. -/
theorem Sound.silent (h : Sound opts target owner) {phase : Phase}
    (hfits : ∀ stage, owner.phase.Fits stage → phase.Fits stage)
    (hreg : ∀ reg ∈ phase.reg, owner.phase.reg = some reg) (hnew : phase ≠ .first) :
    Sound opts target { owner with phase := phase } where
  tells := h.tells.imp fun stage hstage => ⟨hstage.1, hfits stage hstage.2⟩
  asks := h.asks
  knows reg hmem := h.knows reg (hreg reg hmem)
  new hfirst := absurd hfirst hnew

theorem Sound.lose {reg : Registration} {backoff : ℕ} (h : Sound opts target owner)
    (hphase : owner.phase = .serving reg backoff) : Sound opts target (owner.lose reg backoff) := by
  refine h.tell (fun stage hfits => ?_) (fun r hr => by cases hr; rw [hphase]; rfl) (by simp)
  rw [hphase] at hfits
  obtain ⟨rfl, rfl⟩ := hfits
  exact ⟨.down reg.online.id [], rfl, [], rfl, rfl, by simp⟩

theorem Sound.control {reg : Registration} {backoff : ℕ} (h : Sound opts target owner)
    (hphase : owner.phase = .serving reg backoff) (msg : Option Message) :
    Sound opts target (owner.control reg backoff msg) := by
  have hnews (event : TunnelEvent) (hnote : event.note = .news) :
      Sound opts target (owner.tell event) := by
    suffices hsound : Sound opts target
        { owner.tell event with phase := owner.phase, bye := owner.bye } from hsound
    refine h.tell (fun stage hfits => ?_) (fun r hr => hr) (by simp [hphase])
    rw [hphase] at hfits ⊢
    obtain ⟨rfl, rfl⟩ := hfits
    exact ⟨.up reg.online.id, by rw [hnote]; rfl, rfl, rfl⟩
  cases msg with
  | none => exact h.lose hphase
  | some msg =>
    unfold Owner.control
    dsimp only
    split
    · refine h.silent (fun stage hfits => ?_) (fun r hr => by cases hr) (by simp)
      rw [hphase] at hfits
      obtain ⟨rfl, -⟩ := hfits
      exact .inr (.inl ⟨_, _, rfl, rfl⟩)
    · refine h.tell (fun stage hfits => ?_) (fun r hr => by cases hr) (by simp)
      rw [hphase] at hfits
      obtain ⟨rfl, -⟩ := hfits
      exact ⟨.over, rfl, .inl rfl⟩
    · exact hnews _ rfl
    · exact hnews _ rfl
    · exact hnews _ rfl
    · exact h

theorem Sound.dial {resume share : Option String} (h : Sound opts target owner)
    (hresume : resume = (lastOf owner.attempts).map Registration.resumeToken)
    (hshare : share = (lastOf owner.attempts).bind fun reg => reg.online.shareCode)
    (dialled : Dialled) :
    Asks opts target (owner.dial opts target resume share dialled).attempts := by
  refine h.asks.concat fun request hrequest => ?_
  obtain ⟨-, -, rfl⟩ := Option.map_eq_some_iff.mp hrequest
  rw [hresume, hshare]

theorem lastOf_dial {resume share : Option String} (dialled : Dialled) :
    lastOf (owner.dial opts target resume share dialled).attempts =
      (register dialled).toOption.or (lastOf owner.attempts) := lastOf_concat _ _

/-- A `register` that was answered well. -/
theorem Sound.answered {resume share : Option String} {dialled : Dialled} {reg : Registration}
    (h : Sound opts target owner)
    (hresume : resume = (lastOf owner.attempts).map Registration.resumeToken)
    (hshare : share = (lastOf owner.attempts).bind fun reg => reg.online.shareCode)
    (hreg : register dialled = .ok reg) {event : TunnelEvent}
    (hevent : ∀ stage, owner.phase.Fits stage → stage.next event.note = some (.up reg.online.id)) :
    Sound opts target { (owner.dial opts target resume share dialled).tell event with
      phase := .serving reg 1 } where
  tells := by
    obtain ⟨stage, hstage, hphase⟩ := h.tells
    exact ⟨.up reg.online.id, tells_concat hstage (hevent stage hphase), rfl, rfl⟩
  asks := h.dial hresume hshare dialled
  knows r hr := by
    cases hr
    exact (lastOf_dial dialled).trans (by rw [hreg]; rfl)
  new hfirst := by cases hfirst

/-- A `register` whose failure is the end. -/
theorem Sound.failed {resume share : Option String} {dialled : Dialled} {text : String}
    (h : Sound opts target owner)
    (hresume : resume = (lastOf owner.attempts).map Registration.resumeToken)
    (hshare : share = (lastOf owner.attempts).bind fun reg => reg.online.shareCode)
    (hfits : ∀ stage, owner.phase.Fits stage → (Phase.over (.error text)).Fits stage) :
    Sound opts target { owner.dial opts target resume share dialled with
      phase := .over (.error text) } where
  tells := h.tells.imp fun stage hstage => ⟨hstage.1, hfits stage hstage.2⟩
  asks := h.dial hresume hshare dialled
  knows r hr := by cases hr
  new hfirst := by cases hfirst

theorem Sound.dialled {dialled : Dialled} (h : Sound opts target owner)
    (hstep : step opts target owner (.dialled dialled) = some owner') :
    Sound opts target owner' := by
  simp only [step] at hstep
  split at hstep
  · next hphase =>
    have hnone : lastOf owner.attempts = none := by rw [h.new hphase]; rfl
    cases hreg : register dialled with
    | ok reg =>
      rw [hreg] at hstep
      cases hstep
      refine h.answered (by rw [hnone]; rfl) (by rw [hnone]; rfl) hreg fun stage hfits => ?_
      rw [hphase] at hfits
      rw [hfits]
      rfl
    | error text =>
      rw [hreg] at hstep
      cases hstep
      refine h.failed (by rw [hnone]; rfl) (by rw [hnone]; rfl) fun stage hfits => ?_
      rw [hphase] at hfits
      exact .inl hfits
  · next reg backoff hphase =>
    have hlast : lastOf owner.attempts = some reg := h.knows reg (by rw [hphase]; rfl)
    have hresume : some reg.resumeToken = (lastOf owner.attempts).map Registration.resumeToken := by
      rw [hlast]; rfl
    have hshare : reg.online.shareCode =
        (lastOf owner.attempts).bind fun reg => reg.online.shareCode := by rw [hlast]; rfl
    cases hnew : register dialled with
    | ok new =>
      rw [hnew] at hstep
      cases hstep
      refine h.answered hresume hshare hnew fun stage hfits => ?_
      rw [hphase] at hfits
      obtain ⟨errors, rfl, -⟩ := hfits
      by_cases hsame : new.online.id = reg.online.id
      · simp [hsame, TunnelEvent.note, Stage.next]
      · simp [hsame, TunnelEvent.note, Stage.next]
    | error text =>
      have hlast' : lastOf (owner.dial opts target (some reg.resumeToken) reg.online.shareCode
          dialled).attempts = (register dialled).toOption.or (lastOf owner.attempts) :=
        lastOf_dial dialled
      rw [hnew] at hstep hlast'
      dsimp only at hstep
      split at hstep
      · next hfatal =>
        cases hstep
        refine h.failed hresume hshare fun stage hfits => ?_
        rw [hphase] at hfits
        obtain ⟨errors, rfl, -, herrors⟩ := hfits
        exact .inr (.inr ⟨_, errors, rfl, hfatal, herrors⟩)
      · next hfatal =>
        cases hstep
        obtain ⟨stage, hstage, hfits⟩ := h.tells
        rw [hphase] at hfits
        obtain ⟨errors, rfl, rfl, herrors⟩ := hfits
        have hnext : Stage.next (.down reg.online.id errors)
            (.waiting (min (pause errors.length * 2) 30) (some text)) =
            some (.down reg.online.id (errors ++ [text])) := by
          simp [Stage.next, pause_succ]
        refine ⟨⟨_, tells_concat hstage hnext, errors ++ [text], rfl, ?_, ?_⟩,
          h.dial hresume hshare dialled, fun r hr => ?_, fun hfirst => (by cases hfirst)⟩
        · rw [List.length_append, List.length_singleton, pause_succ]
        · intro error hmem
          rcases List.mem_append.mp hmem with hmem | hmem
          · exact herrors error hmem
          · cases List.mem_singleton.mp hmem
            exact Bool.eq_false_of_not_eq_true hfatal
        · cases hr
          exact hlast'.trans hlast
  · cases hstep

theorem sound_step (h : Sound opts target owner) (hstep : step opts target owner e = some owner') :
    Sound opts target owner' := by
  cases e with
  | dialled dialled => exact h.dialled hstep
  | control msg =>
    simp only [step] at hstep
    split at hstep
    · next hphase =>
      cases hstep
      exact h.control hphase msg
    · cases hstep
  | closed =>
    simp only [step] at hstep
    split at hstep
    · next hphase =>
      cases hstep
      exact h.lose hphase
    · cases hstep
  | wake =>
    simp only [step] at hstep
    split at hstep
    · next hphase =>
      cases hstep
      refine h.silent (fun stage hfits => ?_) (fun r hr => ?_) (by simp)
      · rw [hphase] at hfits
        exact hfits
      · rw [hphase]
        exact hr
    · cases hstep
  | stop =>
    have hover (hdown : ∀ stage, owner.phase.Fits stage →
        stage.next (TunnelEvent.note .stopped) = some .over) (bye : Bool) :
        Sound opts target { owner.tell .stopped with phase := .over (.ok ()), bye := bye } :=
      h.tell (fun stage hfits => ⟨.over, hdown stage hfits, .inl rfl⟩) (fun r hr => by cases hr)
        (by simp)
    simp only [step] at hstep
    split at hstep
    · next hphase =>
      cases hstep
      refine h.silent (fun stage hfits => ?_) (fun r hr => by cases hr) (by simp)
      rw [hphase] at hfits
      exact .inr hfits
    · next hphase =>
      cases hstep
      refine hover (fun stage hfits => ?_) true
      rw [hphase] at hfits
      obtain ⟨rfl, -⟩ := hfits
      rfl
    · next hphase =>
      cases hstep
      refine hover (fun stage hfits => ?_) owner.bye
      rw [hphase] at hfits
      obtain ⟨errors, rfl, -⟩ := hfits
      rfl
    · next hphase =>
      cases hstep
      refine hover (fun stage hfits => ?_) owner.bye
      rw [hphase] at hfits
      obtain ⟨errors, rfl, -⟩ := hfits
      rfl
    · cases hstep

theorem sound_init : Sound opts target {} where
  tells := ⟨.connecting, rfl, rfl⟩
  asks before attempt after heq := by simp at heq
  knows reg hreg := by cases hreg
  new _ := rfl

/-- What an owner tells is the log of a session that reconnects, and what it asks for is what it
was given last. -/
theorem session_told (opts : Options) (target : Target) (h : (machine opts target).Reachable owner) :
    Sound opts target owner :=
  Machine.Reaches.invariant h (fun _ hinit => hinit ▸ sound_init)
    fun _ _ _ hsound _ hstep => sound_step hsound hstep

/-- An owner that is lost, fails to come back, and then comes back as another tunnel. -/
def outage : List Event :=
  [.dialled { answer := some { type := "registered", id := "a", resumeToken := "r" } }, .closed,
    .wake, .dialled { connected := .error "refused" }, .wake,
    .dialled { answer := some { type := "registered", id := "b", resumeToken := "q" } }, .stop]

def plain : Options := .http none false ⟨{}, none, false, by simp⟩

def replaced : Owner := ((machine plain ⟨"localhost", 80, false⟩).exec {} outage).getD {}

theorem replaced_reachable : (machine plain ⟨"localhost", 80, false⟩).Reachable replaced := by
  have hsome : ((machine plain ⟨"localhost", 80, false⟩).exec {} outage).isSome = true := by
    decide
  obtain ⟨owner, howner⟩ := Option.isSome_iff_exists.mp hsome
  have heq : replaced = owner := by
    rw [replaced, howner]
    rfl
  rw [heq]
  exact (Machine.Reachable.init rfl).exec outage howner

theorem session_told_replaced : replaced.out = [.connecting, .online { id := "a" }, .reconnecting 1 none,
      .reconnecting 2 (some "refused"), .replaced { id := "b" }, .stopped] ∧
    Sound plain ⟨"localhost", 80, false⟩ replaced :=
  ⟨by decide, session_told plain ⟨"localhost", 80, false⟩ replaced_reachable⟩

end Tunlit.Client.Owning
