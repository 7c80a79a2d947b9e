import Tunlit.Access.Attempts
import Tunlit.Access.Policy
import Tunlit.Access.Store
import Tunlit.Lib.Runs

/-! # Guesses of a password

The handlers that check credentials: `POST /gate/:id` of `routes/service.js`, `denial` of
`controllers/http.js` for Basic credentials, `POST /login` and `POST /passkey/verify` of
`routes/auth.js`. Each asks the limiter, waits for the verification and only then records
what came out. A request carries what it finds in the registry and about its address, so
these may change in any way between two requests. -/
namespace Tunlit.Access.Guesses
open Tunlit.Lib.Insertion Tunlit.Lib.Runs Tunlit.Access.Policy Tunlit.Access.Store
  Tunlit.Access.Attempts

/-! ## Keys -/

def gateKey (tunnelId ip : String) : String := "gate:" ++ tunnelId ++ ":" ++ ip
def loginKey (ip : String) : String := "login:" ++ ip
def passkeyKey (ip : String) : String := "passkey:" ++ ip
def deviceKey (ip : String) : String := "device:" ++ ip

/-! ## Requests and replies -/

/-- A registered tunnel, as a request finds it. -/
structure Found where
  id : String
  policy : AccessPolicy
deriving DecidableEq

inductive Request where
  | gate (tunnel : Option Found) (ip : String) (details : Intel)
  | basic (tunnel : Found) (ip : String) (details : Intel) (token : Option String)
      (credentials : Bool)
  | login (ip : String) (code : Option String)
  | passkey (ip : String)
deriving DecidableEq

inductive Reply where
  | notFound
  | notAllowed
  | noPassword
  | tooMany
  | wrongPassword
  | cookie (token : String)
  /-- `denial` returns null, so the request is served -/
  | served
  | blocked (reason : Reason)
  | gatePage
  | refused (code : Nat)
  | totpRequired
  | signedIn
  | created
  | internal
deriving DecidableEq

def Reply.status : Reply → Nat
  | .notFound => 404
  | .notAllowed | .blocked _ => 403
  | .noPassword => 400
  | .tooMany => 429
  | .wrongPassword | .gatePage => 401
  | .refused code => code
  | .totpRequired => 202
  | .internal => 500
  | .cookie _ | .served | .signedIn | .created => 200

/-- What a handler waits for. -/
inductive Await where
  | gate (tunnelId : String)
  | basic (tunnelId : String)
  | login (code : Option String)
  | passkey
deriving DecidableEq

/-- A request is answered at once, or the check of its credentials is started. -/
inductive Outcome where
  | reply (reply : Reply)
  | check (key : String) (await : Await)
deriving DecidableEq

structure Front where
  limiter : AttemptLimiter String := {}
  access : AccessStore := {}
  now : Nat := 0

namespace Front

def gate (front : Front) (tunnel : Option Found) (ip : String) (details : Intel) :
    Front × Outcome :=
  match tunnel with
  | none => (front, .reply .notFound)
  | some tunnel =>
    if (evaluate tunnel.policy ip details).isSome then (front, .reply .notAllowed)
    else if tunnel.policy.auth ≠ .password then (front, .reply .noPassword)
    else
      let key := gateKey tunnel.id ip
      let (limiter, blocked) := front.limiter.blocked key front.now
      let front := { front with limiter }
      if blocked then (front, .reply .tooMany) else (front, .check key (.gate tunnel.id))

def denial (front : Front) (tunnel : Found) (ip : String) (details : Intel)
    (token : Option String) (credentials : Bool) : Front × Outcome :=
  if !isRestricted tunnel.policy then (front, .reply .served)
  else match evaluate tunnel.policy ip details with
    | some reason => (front, .reply (.blocked reason))
    | none =>
      if tunnel.policy.auth = .none then (front, .reply .served)
      else
        let (access, allowed) := front.access.allows token tunnel.id front.now
        let front := { front with access }
        if allowed then (front, .reply .served)
        else
          let key := gateKey tunnel.id ip
          let (limiter, blocked) := front.limiter.blocked key front.now
          let front := { front with limiter }
          if blocked || !credentials then (front, .reply .gatePage)
          else (front, .check key (.basic tunnel.id))

def limited (front : Front) (key : String) (await : Await) : Front × Outcome :=
  let (limiter, blocked) := front.limiter.blocked key front.now
  let front := { front with limiter }
  if blocked then (front, .reply .tooMany) else (front, .check key await)

/-- A handler up to its first `await`. -/
def handle (front : Front) : Request → Front × Outcome
  | .gate tunnel ip details => front.gate tunnel ip details
  | .basic tunnel ip details token credentials =>
    front.denial tunnel ip details token credentials
  | .login ip code => front.limited (loginKey ip) (.login code)
  | .passkey ip => front.limited (passkeyKey ip) .passkey

/-- `POST /device/create`, which waits for nothing. -/
def deviceCreate (front : Front) (ip : String) : Front × Reply :=
  let key := deviceKey ip
  let (limiter, blocked) := front.limiter.blocked key front.now
  let front := { front with limiter }
  if blocked then (front, .tooMany)
  else ({ front with limiter := front.limiter.record key front.now }, .created)

end Front

/-! ## Answers -/

/-- The account of a user name, if the password is right. -/
structure LoginAccount where
  totpEnabled : Bool
deriving DecidableEq

/-- What the store and the verification answer. -/
inductive Answer where
  | verified (ok : Bool) (token : String)
  | account (count : Nat) (account : Option LoginAccount) (totpRight : Bool)
  | passkey (code : Option Nat)
  | threw
deriving DecidableEq

/-- `login` of `controllers/auth.js`: the code of a failure, or none for a session. -/
def login (count : Nat) (account : Option LoginAccount) (code : Option String)
    (totpRight : Bool) : Option Nat :=
  if count = 0 then some 409
  else match account with
    | none => some 401
    | some account =>
      if account.totpEnabled then
        if code.getD "" = "" then some 202
        else if totpRight then none else some 401
      else none

/-- How a check stands. -/
inductive Standing where
  | pending (await : Await)
  | failed
  | over
deriving DecidableEq

/-- What a handler does with the answer it waited for. -/
def Front.resume (front : Front) (key : String) : Await → Answer → Option (Front × Standing × Reply)
  | .gate tunnelId, .verified ok token | .basic tunnelId, .verified ok token =>
    some <|
      if ok then
        ({ front with
            limiter := front.limiter.forget key
            access := front.access.create tunnelId token front.now }, .over, .cookie token)
      else ({ front with limiter := front.limiter.record key front.now }, .failed, .wrongPassword)
  | .login code, .account count account totpRight =>
    some <| match login count account code totpRight with
      | some status =>
        let front := if status = 401 then
          { front with limiter := front.limiter.record key front.now } else front
        (front, if status = 401 then .failed else .over,
          if status = 202 then .totpRequired else .refused status)
      | none => ({ front with limiter := front.limiter.forget key }, .over, .signedIn)
  | .passkey, .passkey code =>
    some <| match code with
      | some status =>
        ({ front with limiter := front.limiter.record key front.now }, .failed, .refused status)
      | none => ({ front with limiter := front.limiter.forget key }, .over, .signedIn)
  | _, .threw => some (front, .over, .internal)
  | _, _ => none

/-! ## The machine -/

/-- A credential check that was started, in the period of its key at that time. -/
structure Check where
  key : String
  period : Nat
  standing : Standing
deriving DecidableEq

structure Server where
  front : Front := {}
  checks : List Check := []
  /-- how often the entry of a key was lost: to a success, to its window or to eviction -/
  period : String → Nat := fun _ => 0
  replies : List Reply := []

inductive Event where
  | request (request : Request)
  | answer (check : Nat) (answer : Answer)
  | deviceCreate (ip : String)
  | sweep
  | clock (now : Nat)
deriving DecidableEq

/-- A key whose entry is lost begins a new period. -/
def Server.onFront (server : Server) (front : Front) : Server :=
  { server with
    front
    period := fun key => if AttemptLimiter.lost server.front.limiter front.limiter key then
      server.period key + 1 else server.period key }

def Server.conclude (server : Server) : Outcome → Server
  | .reply reply => { server with replies := server.replies ++ [reply] }
  | .check key await =>
    { server with checks := server.checks ++ [⟨key, server.period key, .pending await⟩] }

def step (server : Server) : Event → Option Server
  | .request request =>
    let (front, outcome) := server.front.handle request
    some ((server.onFront front).conclude outcome)
  | .answer i answer =>
    match server.checks[i]? with
    | some ⟨key, period, .pending await⟩ =>
      (server.front.resume key await answer).map fun (front, standing, reply) =>
        let server := server.onFront front
        { server with
          checks := server.checks.set i ⟨key, period, standing⟩
          replies := server.replies ++ [reply] }
    | _ => none
  | .deviceCreate ip =>
    let (front, reply) := server.front.deviceCreate ip
    some ((server.onFront front).conclude (.reply reply))
  | .sweep =>
    some (server.onFront { server.front with
      limiter := server.front.limiter.sweep server.front.now })
  | .clock now => some { server with front := { server.front with now } }

def machine : Machine Server Event where
  init server := server = {}
  step := step

/-! ## Counting guesses -/

def isPending : Standing → Bool
  | .pending _ => true
  | _ => false

def isFailed : Standing → Bool
  | .failed => true
  | _ => false

@[simp] theorem isPending_pending (await : Await) : isPending (.pending await) = true := rfl
@[simp] theorem isPending_failed : isPending .failed = false := rfl
@[simp] theorem isPending_over : isPending .over = false := rfl
@[simp] theorem isFailed_pending (await : Await) : isFailed (.pending await) = false := rfl
@[simp] theorem isFailed_failed : isFailed .failed = true := rfl
@[simp] theorem isFailed_over : isFailed .over = false := rfl

/-- The checks of a period that ended in failure. -/
def failuresIn (checks : List Check) (key : String) (period : Nat) : Nat :=
  checks.countP fun check => check.key = key && check.period = period && isFailed check.standing

/-- The checks of a period that are under way. -/
def pendingIn (checks : List Check) (key : String) (period : Nat) : Nat :=
  checks.countP fun check => check.key = key && check.period = period && isPending check.standing

namespace Server

def failures (server : Server) (key : String) (period : Nat) : Nat :=
  failuresIn server.checks key period

def pending (server : Server) (key : String) (period : Nat) : Nat :=
  pendingIn server.checks key period

/-- The entry of the key is there, and its window is over. -/
def windowOver (server : Server) (key : String) : Bool :=
  (server.front.limiter.failures.get key).any fun entry =>
    server.front.limiter.expired entry server.front.now

end Server

/-- Between two losses of its entry, a key has no more failing checks than allowed. -/
def Bounded (server : Server) : Prop :=
  ∀ key period, server.failures key period ≤ MAX_FAILURES

/-- When a check is started, the failures that are counted and the checks of the period
that are under way leave room for it. -/
def Spaced (server : Server) : Event → Prop
  | .request request =>
    match (server.front.handle request).2 with
    | .check key _ => server.windowOver key = false →
        server.front.limiter.counted key + server.pending key (server.period key) < MAX_FAILURES
    | .reply _ => True
  | _ => True

instance (server : Server) (event : Event) : Decidable (Spaced server event) := by
  unfold Spaced
  split
  · split <;> infer_instance
  · infer_instance

/-! ## What a handler does to the limiter -/

section Handlers
variable {front front' : Front} {request : Request} {key : String} {await : Await}

theorem handle_max (request : Request) : (front.handle request).1.limiter.max = front.limiter.max := by
  unfold Front.handle Front.gate Front.denial Front.limited
  grind [AttemptLimiter.blocked_max]

theorem deviceCreate_max (ip : String) :
    (front.deviceCreate ip).1.limiter.max = front.limiter.max := by
  unfold Front.deviceCreate
  grind [AttemptLimiter.blocked_max, AttemptLimiter.record_max]

/-- A check is started for a key that the limiter lets through. -/
theorem handle_check (h : (front.handle request).2 = .check key await) :
    (front.handle request).1.limiter = (front.limiter.blocked key front.now).1 ∧
      (front.limiter.blocked key front.now).2 = false := by
  unfold Front.handle Front.gate Front.denial Front.limited at h ⊢
  grind

theorem resume_spec {answer : Answer} {standing : Standing} {reply : Reply}
    (h : front.resume key await answer = some (front', standing, reply)) :
    standing = .over ∧ front'.limiter.max = front.limiter.max ∨
      standing = .failed ∧ front'.limiter = front.limiter.record key front.now := by
  unfold Front.resume at h
  grind [AttemptLimiter.forget]

end Handlers

/-! ## The invariant -/

structure Keeps (server : Server) : Prop where
  max : server.front.limiter.max = MAX_FAILURES
  past : ∀ check ∈ server.checks, check.period ≤ server.period check.key
  counted : ∀ key, server.failures key (server.period key) ≤ server.front.limiter.counted key
  room : ∀ key period, server.failures key period + server.pending key period ≤ MAX_FAILURES

variable {server server' : Server} {key : String}

/-- A period that has not begun has no checks. -/
theorem Keeps.ahead (h : Keeps server) {period : Nat} (hp : server.period key < period) :
    server.failures key period = 0 ∧ server.pending key period = 0 := by
  simp only [Server.failures, Server.pending, failuresIn, pendingIn, List.countP_eq_zero]
  constructor
  all_goals
    intro check hc hm
    have hle := h.past check hc
    simp only [Bool.and_eq_true, decide_eq_true_eq] at hm
    rw [hm.1.1] at hle
    omega

theorem onFront_period (front : Front) (key : String) :
    (server.onFront front).period key =
      if AttemptLimiter.lost server.front.limiter front.limiter key then server.period key + 1
      else server.period key := rfl

theorem Keeps.onFront (h : Keeps server) {front : Front}
    (hmax : front.limiter.max = server.front.limiter.max) : Keeps (server.onFront front) where
  max := hmax.trans h.max
  past check hc := by
    have hp := h.past check hc
    rw [onFront_period]
    split <;> omega
  counted key := by
    rw [onFront_period]
    split
    · have ha := (h.ahead (Nat.lt_succ_self (server.period key))).1
      exact le_of_eq_of_le ha (Nat.zero_le _)
    · next hl =>
      exact le_trans (h.counted key) (AttemptLimiter.counted_le (Bool.not_eq_true _ ▸ hl))
  room := h.room

theorem Keeps.reply (h : Keeps server) (replies : List Reply) : Keeps { server with replies } :=
  ⟨h.max, h.past, h.counted, h.room⟩

/-- The room that is asked for is there once the limiter has been asked. -/
theorem Keeps.space (h : Keeps server) {request : Request} {await : Await}
    (hs : Spaced server (.request request))
    (hc : (server.front.handle request).2 = .check key await) :
    (server.onFront (server.front.handle request).1).front.limiter.counted key +
      (server.onFront (server.front.handle request).1).pending key
        ((server.onFront (server.front.handle request).1).period key) < MAX_FAILURES := by
  obtain ⟨hl, -⟩ := handle_check hc
  have hp : ∀ period, (server.onFront (server.front.handle request).1).pending key period =
      server.pending key period := fun _ => rfl
  simp only [Spaced, hc] at hs
  rw [hp, onFront_period, Server.onFront, hl]
  cases hw : server.windowOver key with
  | true =>
    obtain ⟨entry, hg, he⟩ := Option.any_eq_true .. |>.mp hw
    obtain ⟨hz, hlost⟩ := AttemptLimiter.blocked_of_expired hg he
    rw [hz, if_pos hlost, (h.ahead (Nat.lt_succ_self _)).2]
    decide
  | false =>
    have hlive : (server.front.limiter.blocked key server.front.now).1 = server.front.limiter :=
      AttemptLimiter.blocked_of_live fun entry hg => by
        simpa [Server.windowOver, hg] using hw
    rw [hlive, if_neg]
    · exact hs hw
    · simp [AttemptLimiter.lost]
      grind

@[simp] theorem failures_check (await : Await) (other : String) (period : Nat) :
    (server.conclude (.check key await)).failures other period = server.failures other period := by
  simp [Server.conclude, Server.failures, failuresIn]

theorem pending_check (await : Await) (other : String) (period : Nat) :
    (server.conclude (.check key await)).pending other period = server.pending other period +
      if key = other ∧ server.period key = period then 1 else 0 := by
  simp [Server.conclude, Server.pending, pendingIn]

theorem Keeps.start (h : Keeps server) {await : Await}
    (hroom : server.front.limiter.counted key + server.pending key (server.period key) <
      MAX_FAILURES) : Keeps (server.conclude (.check key await)) where
  max := h.max
  past check hc := by
    rcases List.mem_append.mp hc with hc | hc
    · exact h.past check hc
    · rw [List.mem_singleton.mp hc]
      exact le_refl (server.period key)
  counted other := by
    rw [failures_check]
    exact h.counted other
  room other period := by
    have hf := h.counted key
    have hr := h.room other period
    rw [failures_check, pending_check]
    split
    · next he =>
      obtain ⟨rfl, rfl⟩ := he
      omega
    · exact hr

section Answers
variable {checks : List Check} {i period : Nat} {await : Await} {standing : Standing}

/-- A check that is answered is one more failure or none. -/
theorem failures_set (hi : checks[i]? = some ⟨key, period, .pending await⟩) (standing : Standing)
    (other : String) (p : Nat) : failuresIn (checks.set i ⟨key, period, standing⟩) other p =
      failuresIn checks other p +
        if key = other ∧ period = p ∧ isFailed standing = true then 1 else 0 := by
  obtain ⟨hlt, hget⟩ := List.getElem?_eq_some_iff.mp hi
  rw [failuresIn, List.countP_set hlt, hget]
  simp [failuresIn, and_assoc]

/-- And it is not under way any more. -/
theorem pending_set (hi : checks[i]? = some ⟨key, period, .pending await⟩)
    (hs : isPending standing = false) (other : String) (p : Nat) :
    pendingIn checks other p = pendingIn (checks.set i ⟨key, period, standing⟩) other p +
      if key = other ∧ period = p then 1 else 0 := by
  obtain ⟨hlt, hget⟩ := List.getElem?_eq_some_iff.mp hi
  rw [pendingIn, pendingIn, List.countP_set hlt, hget]
  by_cases hm : key = other ∧ period = p
  · obtain ⟨rfl, rfl⟩ := hm
    have hpos : 0 < checks.countP fun check =>
        check.key = key && check.period = period && isPending check.standing :=
      List.countP_pos_iff.mpr ⟨_, List.mem_of_getElem? hi, by simp⟩
    simp [hs]
    omega
  · simp [hs, hm]

/-- Where an answer is a failure, the limiter has counted it. -/
theorem Keeps.answer (h : Keeps server) {answer : Answer} {front : Front} {reply : Reply}
    (hi : server.checks[i]? = some ⟨key, period, .pending await⟩)
    (hr : server.front.resume key await answer = some (front, standing, reply)) :
    Keeps { server.onFront front with checks := server.checks.set i ⟨key, period, standing⟩ } := by
  have hmax : front.limiter.max = server.front.limiter.max := by
    rcases resume_spec hr with ⟨-, hm⟩ | ⟨-, hm⟩
    · exact hm
    · rw [hm, AttemptLimiter.record_max]
  have hover : isPending standing = false := by
    rcases resume_spec hr with ⟨rfl, -⟩ | ⟨rfl, -⟩ <;> rfl
  have hk := h.onFront hmax
  have hold := h.past _ (List.mem_of_getElem? hi)
  refine ⟨hk.max, fun check hc => ?_, fun other => ?_, fun other p => ?_⟩
  · rcases List.mem_or_eq_of_mem_set hc with hc | rfl
    · exact hk.past check hc
    · exact hk.past ⟨key, period, .pending await⟩ (List.mem_of_getElem? hi)
  · refine le_of_eq_of_le (failures_set hi standing other _) ?_
    split
    · next hm =>
      obtain ⟨rfl, hp, hf⟩ := hm
      obtain ⟨rfl, -⟩ | ⟨-, hrecord⟩ := resume_spec hr
      · cases hf
      · have hcounted := h.counted key
        change period = (server.onFront front).period key at hp
        change failuresIn server.checks key ((server.onFront front).period key) + 1 ≤
          front.limiter.counted key
        rw [onFront_period, hrecord] at hp ⊢
        -- the entry is not started anew, since the check would be of the new period
        split at hp
        · simp only at hold
          omega
        · next hl =>
          rw [if_neg hl]
          have hr' := AttemptLimiter.counted_record (Bool.not_eq_true _ ▸ hl)
          simp only [Server.failures] at hcounted
          omega
    · exact hk.counted other
  · have hroom : failuresIn server.checks other p + pendingIn server.checks other p ≤
      MAX_FAILURES := h.room other p
    have hpend := pending_set hi hover other p
    have hf := failures_set hi standing other p
    refine le_trans (b := failuresIn server.checks other p + pendingIn server.checks other p) ?_ hroom
    show failuresIn (server.checks.set i ⟨key, period, standing⟩) other p +
      pendingIn (server.checks.set i ⟨key, period, standing⟩) other p ≤ _
    by_cases hm : key = other ∧ period = p
    · rw [if_pos hm] at hpend
      have hone : (if key = other ∧ period = p ∧ isFailed standing = true then 1 else 0) ≤ 1 := by
        split <;> omega
      omega
    · rw [if_neg hm] at hpend
      rw [if_neg fun h => hm ⟨h.1, h.2.1⟩] at hf
      omega

end Answers

/-! ## Runs -/

theorem keeps_init : Keeps {} :=
  ⟨rfl, fun _ hc => (List.not_mem_nil hc).elim, fun _ => Nat.zero_le _, fun _ _ => Nat.zero_le _⟩

theorem keeps_step {event : Event} (h : Keeps server) (hs : Spaced server event)
    (hst : step server event = some server') : Keeps server' := by
  cases event with
  | request request =>
    have hk := h.onFront (handle_max request)
    simp only [step, Option.some.injEq] at hst
    rw [← hst]
    cases hc : (server.front.handle request).2 with
    | reply reply => exact hk.reply _
    | check key await => exact hk.start (h.space hs hc)
  | answer i answer =>
    simp only [step] at hst
    split at hst
    · next key period await hi =>
      obtain ⟨⟨front, standing, reply⟩, hr, rfl⟩ := Option.map_eq_some_iff.mp hst
      exact (h.answer hi hr).reply _
    · cases hst
  | deviceCreate ip =>
    cases hst
    exact (h.onFront (deviceCreate_max ip)).reply _
  | sweep =>
    cases hst
    exact h.onFront rfl
  | clock now =>
    cases hst
    exact ⟨h.max, h.past, h.counted, h.room⟩

theorem keeps_run (h : machine.Reaches Spaced server) : Keeps server :=
  h.invariant (fun _ hi => hi ▸ keeps_init) fun _ _ _ hk hs hst => keeps_step hk hs hst

/-- No period of a key has more failing checks than allowed, in every run that starts a
check only while the failures and the checks under way leave room for it. -/
theorem bounded_of_spaced (server : Server) (h : machine.Reaches Spaced server) :
    Bounded server :=
  fun key period => le_trans (Nat.le_add_right ..) ((keeps_run h).room key period)

/-- One guess after the other: no check is started while another of its key is under way. -/
def OneAtATime (server : Server) : Event → Prop
  | .request request =>
    match (server.front.handle request).2 with
    | .check key _ => server.pending key (server.period key) = 0
    | .reply _ => True
  | _ => True

theorem spaced_of_oneAtATime {event : Event} (h : Keeps server) (ho : OneAtATime server event) :
    Spaced server event := by
  cases event with
  | request request =>
    simp only [OneAtATime] at ho
    simp only [Spaced]
    split
    · next key await hc =>
      intro hw
      have hlive : (server.front.limiter.blocked key server.front.now).1 = server.front.limiter :=
        AttemptLimiter.blocked_of_live fun entry hg => by
          simpa [Server.windowOver, hg] using hw
      have hmax : 0 < server.front.limiter.max := by simp [h.max, MAX_FAILURES]
      have hcounted := AttemptLimiter.counted_of_not_blocked (handle_check hc).2 hmax
      rw [hlive, h.max] at hcounted
      simp only [hc] at ho
      omega
    · trivial
  | _ => trivial

/-- Guesses that wait for each other are bounded as the limiter means it. -/
theorem bounded_of_oneAtATime (server : Server) (h : machine.Reaches OneAtATime server) :
    Bounded server := by
  have hk : Keeps server := h.invariant (fun _ hi => hi ▸ keeps_init)
    fun _ _ _ hk ho hst => keeps_step hk (spaced_of_oneAtATime hk ho) hst
  exact fun key period => le_trans (Nat.le_add_right ..) (hk.room key period)

def protectedPolicy : AccessPolicy :=
  { auth := .password, passwordHash := some "scrypt$00$00" }

def guess : Request := .gate (some ⟨"shop", protectedPolicy⟩) "203.0.113.9" {}

theorem bounded_of_spaced_guess : ∃ server, machine.Reaches Spaced server ∧
    server.failures (gateKey "shop" "203.0.113.9") 0 = 1 ∧ Bounded server := by
  have h : machine.Reaches Spaced
      (((machine.exec {} [.request guess, .answer 0 (.verified false "")])).getD {}) :=
    Machine.Reaches.exec (.init rfl) [.request guess, .answer 0 (.verified false "")]
      (by decide) rfl
  exact ⟨_, h, by decide, bounded_of_spaced _ h⟩

/-- Guesses that are sent at once, and the answers that then come in. -/
def burst (n : Nat) : List Event :=
  List.replicate n (.request guess) ++
    (List.range n).map fun i => .answer i (.verified false "")

/-- All of 21 guesses that are sent at once are checked, and all of them fail. -/
theorem not_always_bounded : ¬ ∀ server, machine.Reachable server → Bounded server := by
  intro h
  have hr : machine.Reachable ((machine.exec {} (burst 21)).getD {}) :=
    Machine.Reachable.exec (.init rfl) (burst 21) rfl
  have hb := h _ hr (gateKey "shop" "203.0.113.9") 0
  revert hb
  decide

end Tunlit.Access.Guesses
