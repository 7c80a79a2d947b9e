import Mathlib.Data.List.Induction
import Tunlit.Lib.Expiry
import Tunlit.Lib.Runs

/-! # Sign-ins that come back

What `lib/oidc.js` and `lib/passkeys.js` remember of a sign-in or a registration until the browser
comes back, in any order of calls. Random states and challenges are arguments, and the clock does
not go back. What is awaited before `remember` and behind `take` touches neither map. -/
namespace Tunlit.Accounts.Challenges
open Tunlit.Lib.Insertion Tunlit.Lib.Expiry Tunlit.Lib.Runs

structure Entry (δ : Type) where
  time : ℕ
  data : δ

section

variable {δ : Type}

def remember (ttl now : ℕ) (m : OrderedMap String (Entry δ)) (key : String) (data : δ) :
    OrderedMap String (Entry δ) :=
  (m.filter fun _ entry => !decide (ttl < now - entry.time)).set key ⟨now, data⟩

def take (ttl now : ℕ) (m : OrderedMap String (Entry δ)) (key : String) :
    Option δ × OrderedMap String (Entry δ) :=
  (match m.get key with
    | none => none
    | some entry => if ttl < now - entry.time then none else some entry.data, m.delete key)

end

def STATE_TTL : ℕ := 10 * 60 * 1000
def CHALLENGE_TTL : ℕ := 5 * 60 * 1000

/-- What `begin` remembers under its state. -/
structure Flow where
  nonce : String
  codeVerifier : String
  providerId : ℕ
  next : Option String
deriving DecidableEq

inductive Ceremony
  | registration (accountId : ℕ)
  | authentication
deriving DecidableEq

structure Memory where
  states : OrderedMap String (Entry Flow) := ∅
  challenges : OrderedMap String (Entry Ceremony) := ∅

inductive Call
  | begin (state : String) (flow : Flow)
  | complete (state : Option String)
  | startRegistration (accountId : ℕ) (challenge : String)
  | startAuthentication (challenge : String)
  | finishRegistration (accountId : ℕ) (challenge : String)
  | finishAuthentication (challenge : String)
deriving DecidableEq

/-- Whether a call goes on, and with which flow. -/
inductive Answer
  | done
  | expired
  | goesOn
  | completes (flow : Flow)
deriving DecidableEq

def answer (memory : Memory) (now : ℕ) : Call → Memory × Answer
  | .begin state flow =>
    ({ memory with states := remember STATE_TTL now memory.states state flow }, .done)
  | .complete none => (memory, .expired)
  | .complete (some state) =>
    ({ memory with states := (take STATE_TTL now memory.states state).2 },
      match (take STATE_TTL now memory.states state).1 with
      | none => .expired
      | some flow => .completes flow)
  | .startRegistration accountId challenge =>
    (⟨memory.states, remember CHALLENGE_TTL now memory.challenges challenge
      (.registration accountId)⟩, .done)
  | .startAuthentication challenge =>
    (⟨memory.states, remember CHALLENGE_TTL now memory.challenges challenge .authentication⟩, .done)
  | .finishRegistration accountId challenge =>
    ({ memory with challenges := (take CHALLENGE_TTL now memory.challenges challenge).2 },
      if (take CHALLENGE_TTL now memory.challenges challenge).1 = some (.registration accountId)
      then .goesOn else .expired)
  | .finishAuthentication challenge =>
    ({ memory with challenges := (take CHALLENGE_TTL now memory.challenges challenge).2 },
      if (take CHALLENGE_TTL now memory.challenges challenge).1 = some .authentication
      then .goesOn else .expired)

structure Past where
  time : ℕ
  call : Call
  answer : Answer
deriving DecidableEq

structure Server where
  memory : Memory := {}
  past : List Past := []

def clock (past : List Past) : ℕ := past.getLast?.elim 0 Past.time

def step (server : Server) (e : ℕ × Call) : Option Server :=
  if clock server.past ≤ e.1 then
    some ⟨(answer server.memory e.1 e.2).1,
      server.past ++ [⟨e.1, e.2, (answer server.memory e.1 e.2).2⟩]⟩
  else none

def machine : Machine Server (ℕ × Call) := ⟨(· = {}), step⟩

/-! ## What a history says -/

/-- A call that names the state of a sign-in. -/
def Call.state : Call → Option String
  | .begin state _ => some state
  | .complete state => state
  | _ => none

def Call.challenge : Call → Option String
  | .startRegistration _ challenge | .startAuthentication challenge
  | .finishRegistration _ challenge | .finishAuthentication challenge => some challenge
  | _ => none

/-- The flow of a state: it was begun in time, and nothing has named the state since. -/
def flowOf (past : List Past) (now : ℕ) (state : String) : Option Flow :=
  match past.reverse.find? fun p => p.call.state = some state with
  | some ⟨time, .begin _ flow, _⟩ => if now ≤ time + STATE_TTL then some flow else none
  | _ => none

def ceremonyOf (past : List Past) (now : ℕ) (challenge : String) : Option Ceremony :=
  match past.reverse.find? fun p => p.call.challenge = some challenge with
  | some ⟨time, .startRegistration accountId _, _⟩ =>
    if now ≤ time + CHALLENGE_TTL then some (.registration accountId) else none
  | some ⟨time, .startAuthentication _, _⟩ =>
    if now ≤ time + CHALLENGE_TTL then some .authentication else none
  | _ => none

/-- What a call is answered behind such a history. -/
def due (before : List Past) (p : Past) : Answer :=
  match p.call with
  | .complete state =>
    match state.bind (flowOf before p.time) with
    | none => .expired
    | some flow => .completes flow
  | .finishRegistration accountId challenge =>
    if ceremonyOf before p.time challenge = some (.registration accountId) then .goesOn else .expired
  | .finishAuthentication challenge =>
    if ceremonyOf before p.time challenge = some .authentication then .goesOn else .expired
  | _ => .done

/-! ## Both maps -/

section

variable {δ : Type} {ttl now : ℕ} {m : OrderedMap String (Entry δ)}
  {log : List (Change String (Entry δ))}

abbrev deadline (ttl : ℕ) (entry : Entry δ) : ℕ := entry.time + ttl

theorem holds_remember (h : Holds (deadline ttl) now m log) (key : String) (data : δ) :
    Holds (deadline ttl) now (remember ttl now m key data) (log ++ [.put key ⟨now, data⟩]) := by
  refine Holds.put (h.shrink (fun _ _ hk => (OrderedMap.get_filter_eq_some.mp hk).1)
    fun k v hk hle => OrderedMap.get_filter_eq_some.mpr ⟨hk, ?_⟩) key _
  have hfresh : ¬ ttl < now - v.time := by
    simp only [deadline] at hle
    omega
  simp [hfresh]

theorem take_eq (h : Holds (deadline ttl) now m log) (key : String) :
    (take ttl now m key).1 = (live (deadline ttl) now (standing log key)).map Entry.data := by
  rw [← h.get_live, take]
  cases m.get key with
  | none => rfl
  | some entry =>
    by_cases hle : now ≤ entry.time + ttl
    · have hfresh : ¬ ttl < now - entry.time := by omega
      simp [live, deadline, Option.filter_some, hle, hfresh]
    · have hgone : ttl < now - entry.time := by omega
      simp [live, deadline, Option.filter_some, hle, hgone]

theorem holds_take (h : Holds (deadline ttl) now m log) (key : String) :
    Holds (deadline ttl) now (take ttl now m key).2 (log ++ [.drop fun k _ => k = key]) :=
  h.take key

end

def stateChange (p : Past) : Option (Change String (Entry Flow)) :=
  match p.call with
  | .begin state flow => some (.put state ⟨p.time, flow⟩)
  | .complete (some state) => some (.drop fun k _ => k = state)
  | _ => none

def challengeChange (p : Past) : Option (Change String (Entry Ceremony)) :=
  match p.call with
  | .startRegistration accountId challenge => some (.put challenge ⟨p.time, .registration accountId⟩)
  | .startAuthentication challenge => some (.put challenge ⟨p.time, .authentication⟩)
  | .finishRegistration _ challenge | .finishAuthentication challenge =>
    some (.drop fun k _ => k = challenge)
  | _ => none

variable {past : List Past} {now : ℕ} {memory : Memory} {server server' : Server}

theorem find?_reverse_concat (names : Past → Bool) (p : Past) : (past ++ [p]).reverse.find? names =
    if names p then some p else past.reverse.find? names := by
  rw [List.reverse_append, List.reverse_singleton, List.singleton_append, List.find?_cons]
  cases names p <;> rfl

theorem flowOf_skip {p : Past} {state : String} (h : p.call.state ≠ some state) :
    flowOf (past ++ [p]) now state = flowOf past now state := by
  unfold flowOf
  rw [find?_reverse_concat, if_neg (by simpa using h)]

theorem ceremonyOf_skip {p : Past} {challenge : String} (h : p.call.challenge ≠ some challenge) :
    ceremonyOf (past ++ [p]) now challenge = ceremonyOf past now challenge := by
  unfold ceremonyOf
  rw [find?_reverse_concat, if_neg (by simpa using h)]

theorem filterMap_skip {γ : Type} {f : Past → Option γ} {p : Past} (h : f p = none) :
    (past ++ [p]).filterMap f = past.filterMap f := by
  rw [List.filterMap_append, List.filterMap_cons_none h, List.filterMap_nil, List.append_nil]

theorem stateChange_skip {p : Past} {state : String} (h : p.call.state ≠ some state) :
    standing ((past ++ [p]).filterMap stateChange) state =
      standing (past.filterMap stateChange) state := by
  obtain ⟨time, call, granted⟩ := p
  cases call with
  | begin key flow =>
    rw [List.filterMap_append]
    exact standing_put_of_ne (fun he => h (congrArg some he)) _
  | complete key =>
    cases key with
    | none => rw [filterMap_skip rfl]
    | some key =>
      rw [List.filterMap_append]
      exact standing_take_of_ne fun he => h (congrArg some he.symm)
  | startRegistration accountId challenge => rw [filterMap_skip rfl]
  | startAuthentication challenge => rw [filterMap_skip rfl]
  | finishRegistration accountId challenge => rw [filterMap_skip rfl]
  | finishAuthentication challenge => rw [filterMap_skip rfl]

theorem challengeChange_skip {p : Past} {challenge : String}
    (h : p.call.challenge ≠ some challenge) :
    standing ((past ++ [p]).filterMap challengeChange) challenge =
      standing (past.filterMap challengeChange) challenge := by
  obtain ⟨time, call, granted⟩ := p
  have hput : ∀ key value, Call.challenge call = some key → standing (past.filterMap challengeChange ++
      [.put key value]) challenge = standing (past.filterMap challengeChange) challenge :=
    fun key value hk => standing_put_of_ne (fun he => h (hk.trans (congrArg some he))) value
  have htake : ∀ key, Call.challenge call = some key → standing (past.filterMap challengeChange ++
      [.drop fun k _ => k = key]) challenge = standing (past.filterMap challengeChange) challenge :=
    fun key hk => standing_take_of_ne fun he => h (hk.trans (congrArg some he.symm))
  cases call with
  | begin key flow => rw [filterMap_skip rfl]
  | complete key => rw [filterMap_skip rfl]
  | startRegistration accountId key => rw [List.filterMap_append]; exact hput key _ rfl
  | startAuthentication key => rw [List.filterMap_append]; exact hput key _ rfl
  | finishRegistration accountId key => rw [List.filterMap_append]; exact htake key rfl
  | finishAuthentication key => rw [List.filterMap_append]; exact htake key rfl

theorem live_put {δ : Type} {ttl time : ℕ} {data : δ} :
    (live (deadline ttl) now (some (⟨time, data⟩ : Entry δ))).map Entry.data =
      if now ≤ time + ttl then some data else none := by
  rw [live, Option.filter_some]
  by_cases hle : now ≤ time + ttl <;> simp [deadline, hle]

/-- The last call that names a state says what stands under it. -/
theorem flowOf_eq (state : String) : flowOf past now state =
    (live (deadline STATE_TTL) now (standing (past.filterMap stateChange) state)).map
      Entry.data := by
  induction past using List.reverseRecOn with
  | nil => rfl
  | append_singleton past p ih =>
    by_cases hnamed : p.call.state = some state
    · obtain ⟨time, call, granted⟩ := p
      unfold flowOf
      rw [find?_reverse_concat, if_pos (by simpa using hnamed), List.filterMap_append]
      cases call with
      | begin key flow =>
        cases hnamed
        refine live_put.symm.trans (congrArg (fun v => (live _ now v).map Entry.data) ?_)
        exact ((standing_put state _).trans (if_pos rfl)).symm
      | complete key =>
        cases hnamed
        exact (congrArg (fun v => (live _ now v).map Entry.data) standing_take_self).symm
      | startRegistration accountId challenge => cases hnamed
      | startAuthentication challenge => cases hnamed
      | finishRegistration accountId challenge => cases hnamed
      | finishAuthentication challenge => cases hnamed
    · rw [flowOf_skip hnamed, stateChange_skip hnamed]
      exact ih

theorem ceremonyOf_eq (challenge : String) : ceremonyOf past now challenge =
    (live (deadline CHALLENGE_TTL) now (standing (past.filterMap challengeChange) challenge)).map
      Entry.data := by
  induction past using List.reverseRecOn with
  | nil => rfl
  | append_singleton past p ih =>
    by_cases hnamed : p.call.challenge = some challenge
    · obtain ⟨time, call, granted⟩ := p
      unfold ceremonyOf
      rw [find?_reverse_concat, if_pos (by simpa using hnamed), List.filterMap_append]
      have hput : ∀ ceremony : Ceremony,
          (if now ≤ time + CHALLENGE_TTL then some ceremony else none) =
            (live (deadline CHALLENGE_TTL) now (standing (past.filterMap challengeChange ++
              [.put challenge ⟨time, ceremony⟩]) challenge)).map Entry.data := by
        intro ceremony
        rw [standing_put, if_pos rfl]
        exact live_put.symm
      have hdrop : none = (live (deadline CHALLENGE_TTL) now
          (standing (past.filterMap challengeChange ++ [.drop fun k _ => k = challenge])
            challenge)).map Entry.data := by
        rw [standing_take_self]
        rfl
      cases call with
      | begin key flow => cases hnamed
      | complete key => cases hnamed
      | startRegistration accountId key => cases hnamed; exact hput _
      | startAuthentication key => cases hnamed; exact hput _
      | finishRegistration accountId key => cases hnamed; exact hdrop
      | finishAuthentication key => cases hnamed; exact hdrop
    · rw [ceremonyOf_skip hnamed, challengeChange_skip hnamed]
      exact ih

/-! ## Runs -/

structure Kept (server : Server) : Prop where
  states : Holds (deadline STATE_TTL) (clock server.past) server.memory.states
    (server.past.filterMap stateChange)
  challenges : Holds (deadline CHALLENGE_TTL) (clock server.past) server.memory.challenges
    (server.past.filterMap challengeChange)
  answered : Explained (fun before p => p.answer = due before p) server.past

theorem due_answer {p : Past}
    (hs : Holds (deadline STATE_TTL) p.time memory.states (past.filterMap stateChange))
    (hc : Holds (deadline CHALLENGE_TTL) p.time memory.challenges
      (past.filterMap challengeChange)) :
    (answer memory p.time p.call).2 = due past p := by
  obtain ⟨time, call, granted⟩ := p
  cases call with
  | complete key =>
    cases key with
    | none => rfl
    | some key =>
      simp only [answer, due, Option.bind_some, flowOf_eq, ← take_eq hs]
  | finishRegistration accountId key => simp only [answer, due, ceremonyOf_eq, ← take_eq hc]
  | finishAuthentication key => simp only [answer, due, ceremonyOf_eq, ← take_eq hc]
  | begin key flow => rfl
  | startRegistration accountId key => rfl
  | startAuthentication key => rfl

theorem clock_concat (p : Past) : clock (past ++ [p]) = p.time := by
  simp [clock]

theorem Kept.step {e : ℕ × Call} (h : Kept server) (hs : step server e = some server') :
    Kept server' := by
  unfold Challenges.step at hs
  split at hs
  · next hle =>
    cases hs
    have hstates := h.states.later hle
    have hchallenges := h.challenges.later hle
    obtain ⟨now, call⟩ := e
    refine ⟨?_, ?_, h.answered.concat (due_answer (p := ⟨now, call, _⟩) hstates hchallenges)⟩
    · rw [clock_concat]
      cases call with
      | begin key flow => rw [List.filterMap_append]; exact holds_remember hstates key flow
      | complete key =>
        cases key with
        | none => rw [filterMap_skip rfl]; exact hstates
        | some key => rw [List.filterMap_append]; exact holds_take hstates key
      | startRegistration accountId key => rw [filterMap_skip rfl]; exact hstates
      | startAuthentication key => rw [filterMap_skip rfl]; exact hstates
      | finishRegistration accountId key => rw [filterMap_skip rfl]; exact hstates
      | finishAuthentication key => rw [filterMap_skip rfl]; exact hstates
    · rw [clock_concat]
      cases call with
      | begin key flow => rw [filterMap_skip rfl]; exact hchallenges
      | complete key => cases key <;> (rw [filterMap_skip rfl]; exact hchallenges)
      | startRegistration accountId key =>
        rw [List.filterMap_append]; exact holds_remember hchallenges key _
      | startAuthentication key =>
        rw [List.filterMap_append]; exact holds_remember hchallenges key _
      | finishRegistration accountId key =>
        rw [List.filterMap_append]; exact holds_take hchallenges key
      | finishAuthentication key => rw [List.filterMap_append]; exact holds_take hchallenges key
  · cases hs

/-- A sign-in or a registration goes on if and only if the last call that named its state or
challenge has begun it, as this kind and for this account, and not too long ago. -/
theorem comes_back_once (server : Server) (h : machine.Reachable server) :
    Explained (fun before p => p.answer = due before p) server.past := by
  have hkept : Kept server := h.invariant
    (fun _ hs => hs ▸ ⟨.empty, .empty, .nil⟩) fun _ _ _ hk _ hs => hk.step hs
  exact hkept.answered

def visit : List (ℕ × Call) :=
  [(0, .startRegistration 1 "a"), (0, .startAuthentication "b"), (1, .finishRegistration 2 "a"),
    (2, .finishRegistration 1 "a"), (3, .finishAuthentication "b"), (4, .finishAuthentication "b")]

def visited : Server := (machine.exec {} visit).getD {}

theorem comes_back_once_visited :
    visited.past.map Past.answer = [.done, .done, .expired, .expired, .goesOn, .expired] ∧
      Explained (fun before p => p.answer = due before p) visited.past :=
  ⟨rfl, comes_back_once visited ((Machine.Reachable.init rfl).exec visit rfl)⟩

end Tunlit.Accounts.Challenges
