import Tunlit.Access.Store
import Tunlit.Lib.Expiry
import Tunlit.Lib.Runs

/-! # Tokens and codes of the gate over a run

The calls of `AccessStore` in any order, each at a time of a clock that does not go back. The
history of the calls alone says what each is answered: which token or code stands, and how long. -/
namespace Tunlit.Access.Passes
open Tunlit.Lib.Insertion Tunlit.Lib.Expiry Tunlit.Lib.Runs Tunlit.Access.Store
  Tunlit.Access.Store.AccessStore

inductive Call
  | create (tunnelId token : String)
  | issueCode (tunnelId host code : String)
  | redeem (code : Option String) (host token : String)
  | allows (token : Option String) (tunnelId : String)
  | forget (tunnelId : String)
  | sweep

/-- A call that was made, and whether it gave what it was asked for. -/
structure Past where
  time : ℕ
  call : Call
  granted : Bool

structure Gate where
  store : AccessStore
  past : List Past := []

def answer (store : AccessStore) (now : ℕ) : Call → AccessStore × Bool
  | .create tunnelId token => (store.create tunnelId token now, true)
  | .issueCode tunnelId host code => (store.issueCode tunnelId host code now, true)
  | .redeem code host token => ((store.redeem code host token now).1,
      (store.redeem code host token now).2.isSome)
  | .allows token tunnelId => store.allows token tunnelId now
  | .forget tunnelId => (store.forget tunnelId, true)
  | .sweep => (store.sweep now, true)

/-- The time of the last call. -/
def clock (past : List Past) : ℕ := past.getLast?.elim 0 Past.time

def step (gate : Gate) (e : ℕ × Call) : Option Gate :=
  if clock gate.past ≤ e.1 then
    some ⟨(answer gate.store e.1 e.2).1, gate.past ++ [⟨e.1, e.2, (answer gate.store e.1 e.2).2⟩]⟩
  else none

def machine (ttl : ℕ) : Machine Gate (ℕ × Call) := ⟨(· = { store := { ttl } }), step⟩

/-! ## What a history says -/

structure Logs where
  tokens : List (Change String TokenEntry) := []
  codes : List (Change String CodeEntry) := []

/-- What stands under a key and is in time; a request may lack the key. -/
def good {ν : Type} (deadline : ν → ℕ) (log : List (Change String ν)) (now : ℕ)
    (key : Option String) : Option ν :=
  (key.filter (· ≠ "")).bind fun key => live deadline now (standing log key)

/-- The tunnel of a code that is good on a host. -/
def redeemable (logs : Logs) (now : ℕ) (code : Option String) (host : String) : Option String :=
  ((good CodeEntry.expiresAt logs.codes now code).filter fun entry => entry.host = host).map
    CodeEntry.tunnelId

def admits (logs : Logs) (now : ℕ) (token : Option String) (tunnelId : String) : Bool :=
  (good TokenEntry.expiresAt logs.tokens now token).any fun entry => entry.tunnelId = tunnelId

section

variable (ttl : ℕ)

def Logs.add (logs : Logs) (p : Past) : Logs :=
  match p.call with
  | .create tunnelId token =>
    { logs with tokens := logs.tokens ++ [.put token ⟨tunnelId, p.time + ttl⟩] }
  | .issueCode tunnelId host code =>
    { logs with codes := logs.codes ++ [.put code ⟨tunnelId, host, p.time + CODE_TTL⟩] }
  | .redeem code host token =>
    { tokens := match redeemable logs p.time code host with
        | some tunnelId => logs.tokens ++ [.put token ⟨tunnelId, p.time + ttl⟩]
        | none => logs.tokens
      codes := logs.codes ++ [.drop fun k _ => code = some k && k ≠ ""] }
  | .forget tunnelId =>
    { logs with tokens := logs.tokens ++ [.drop fun _ entry => entry.tunnelId = tunnelId] }
  | .allows _ _ | .sweep => logs

def logsOf (past : List Past) : Logs := past.foldl (Logs.add ttl) {}

/-- What a call is answered behind such a history. -/
def due (before : List Past) (p : Past) : Bool :=
  match p.call with
  | .redeem code host _ => (redeemable (logsOf ttl before) p.time code host).isSome
  | .allows token tunnelId => admits (logsOf ttl before) p.time token tunnelId
  | _ => true

end

variable {ttl : ℕ} {past : List Past} {gate gate' : Gate}

theorem logsOf_concat (p : Past) : logsOf ttl (past ++ [p]) = (logsOf ttl past).add ttl p := by
  rw [logsOf, List.foldl_append]
  rfl

@[simp] theorem clock_concat (p : Past) : clock (past ++ [p]) = p.time := by
  simp [clock]

/-! ## The store and its history -/

/-- The store has what its history says. -/
structure Follows (ttl now : ℕ) (store : AccessStore) (logs : Logs) : Prop where
  ttl : store.ttl = ttl
  tokens : Holds TokenEntry.expiresAt now store.tokens logs.tokens
  codes : Holds CodeEntry.expiresAt now store.codes logs.codes

variable {now : ℕ} {store : AccessStore} {logs : Logs}

theorem Follows.later {now' : ℕ} (h : Follows ttl now store logs) (hle : now ≤ now') :
    Follows ttl now' store logs := ⟨h.ttl, h.tokens.later hle, h.codes.later hle⟩

theorem find_eq {ν : Type} (m : OrderedMap String ν) (key : Option String) :
    find m key = (key.filter (· ≠ "")).bind fun key => (m.get key).map fun entry => (key, entry) := by
  unfold find
  split
  · rfl
  · rfl
  · next key hne =>
    have hkey : key ≠ "" := hne
    rw [Option.filter_some, if_pos (decide_eq_true hkey)]
    rfl

/-- What is good is what the store finds, in time. -/
theorem good_eq {ν : Type} {deadline : ν → ℕ} {m : OrderedMap String ν}
    {log : List (Change String ν)} (h : Holds deadline now m log) (key : Option String) :
    good deadline log now key = live deadline now ((find m key).map Prod.snd) := by
  rw [good, find_eq]
  cases key.filter (· ≠ "") with
  | none => rfl
  | some key =>
    rw [Option.bind_some, ← h.get_live, Option.bind_some, Option.map_map]
    cases m.get key <;> rfl

theorem redeem_isSome (h : Follows ttl now store logs) (code : Option String)
    (host token : String) :
    (store.redeem code host token now).2.isSome = (redeemable logs now code host).isSome := by
  rw [redeemable, good_eq h.codes]
  unfold AccessStore.redeem
  cases find store.codes code with
  | none => rfl
  | some found =>
    rw [Option.map_some, live, Option.filter_some]
    by_cases hle : now ≤ found.2.expiresAt
    · have hlt : ¬ found.2.expiresAt < now := Nat.not_lt.mpr hle
      by_cases hhost : found.2.host = host <;> simp [hle, hlt, hhost]
    · have hlt : found.2.expiresAt < now := Nat.not_le.mp hle
      simp [hle, hlt]

theorem allows_eq (h : Follows ttl now store logs) (token : Option String) (tunnelId : String) :
    (store.allows token tunnelId now).2 = admits logs now token tunnelId := by
  rw [admits, good_eq h.tokens]
  unfold AccessStore.allows
  cases find store.tokens token with
  | none => rfl
  | some found =>
    rw [Option.map_some, live, Option.filter_some]
    by_cases hle : now ≤ found.2.expiresAt
    · have hlt : ¬ found.2.expiresAt < now := Nat.not_lt.mpr hle
      simp [hle, hlt]
    · have hlt : found.2.expiresAt < now := Nat.not_le.mp hle
      simp [hle, hlt]

/-! ## Every call -/

theorem Follows.create (h : Follows ttl now store logs) (tunnelId token : String) :
    Follows ttl now (store.create tunnelId token now)
      { logs with tokens := logs.tokens ++ [.put token ⟨tunnelId, now + ttl⟩] } where
  ttl := h.ttl
  tokens := by
    rw [← h.ttl]
    exact h.tokens.put token _
  codes := h.codes

/-- A code is used up, good or not. -/
theorem Follows.used (h : Follows ttl now store logs) {code : Option String} {c : String}
    {entry : CodeEntry} (hf : find store.codes code = some (c, entry)) :
    Follows ttl now { store with codes := store.codes.delete c }
      { logs with codes := logs.codes ++ [.drop fun k _ => code = some k && k ≠ ""] } where
  ttl := h.ttl
  tokens := h.tokens
  codes := by
    obtain ⟨rfl, hne, -⟩ := find_eq_some.mp hf
    refine h.codes.drop _ fun k v => ?_
    rw [OrderedMap.get_delete]
    split
    · next he => simp [← he, hne]
    · next hk => simp [hk]

theorem Follows.unused (h : Follows ttl now store logs) {code : Option String}
    (hf : find store.codes code = none) :
    Follows ttl now store
      { logs with codes := logs.codes ++ [.drop fun k _ => code = some k && k ≠ ""] } where
  ttl := h.ttl
  tokens := h.tokens
  codes := by
    refine h.codes.drop _ fun k v => (and_iff_left_of_imp fun hg => ?_).symm
    rw [Bool.and_eq_false_iff]
    by_contra hc
    simp only [not_or, Bool.not_eq_false, decide_eq_true_eq] at hc
    rw [find_eq_some.mpr ⟨hc.1, hc.2, hg⟩] at hf
    cases hf

theorem Follows.redeem (h : Follows ttl now store logs) (code : Option String)
    (host token : String) (granted : Bool) :
    Follows ttl now (store.redeem code host token now).1
      (logs.add ttl ⟨now, .redeem code host token, granted⟩) := by
  have heq : logs.add ttl ⟨now, .redeem code host token, granted⟩ =
      { tokens := match redeemable logs now code host with
          | some tunnelId => logs.tokens ++ [.put token ⟨tunnelId, now + ttl⟩]
          | none => logs.tokens
        codes := logs.codes ++ [.drop fun k _ => code = some k && k ≠ ""] } := rfl
  rw [heq, redeemable, good_eq h.codes]
  unfold AccessStore.redeem
  cases hf : find store.codes code with
  | none => exact h.unused hf
  | some found =>
    have hused := h.used hf
    rw [Option.map_some, live, Option.filter_some]
    by_cases hle : now ≤ found.2.expiresAt
    · have hlt : ¬ found.2.expiresAt < now := Nat.not_lt.mpr hle
      by_cases hhost : found.2.host = host
      · simpa [hle, hlt, hhost, Option.filter_some] using hused.create found.2.tunnelId token
      · simpa [hle, hlt, hhost, Option.filter_some] using hused
    · have hlt : found.2.expiresAt < now := Nat.not_le.mp hle
      simpa [hle, hlt] using hused

theorem Follows.allows (h : Follows ttl now store logs) (token : Option String)
    (tunnelId : String) : Follows ttl now (store.allows token tunnelId now).1 logs := by
  unfold AccessStore.allows
  cases hf : find store.tokens token with
  | none => exact h
  | some found =>
    obtain ⟨-, -, hg⟩ := find_eq_some.mp hf
    by_cases hlt : found.2.expiresAt < now
    · have hshrink : Holds TokenEntry.expiresAt now (store.tokens.delete found.1) logs.tokens := by
        refine h.tokens.shrink (fun k v hk => ?_) fun k v hk hle => ?_
        · rw [OrderedMap.get_delete] at hk
          split at hk
          · cases hk
          · exact hk
        · rw [OrderedMap.get_delete, if_neg]
          · exact hk
          · rintro rfl
            rw [hg] at hk
            cases hk
            omega
      simpa [hlt] using (⟨h.ttl, hshrink, h.codes⟩ : Follows ttl now
        { store with tokens := store.tokens.delete found.1 } logs)
    · simpa [hlt] using h

theorem Follows.forget (h : Follows ttl now store logs) (tunnelId : String) :
    Follows ttl now (store.forget tunnelId)
      { logs with tokens := logs.tokens ++ [.drop fun _ entry => entry.tunnelId = tunnelId] } where
  ttl := h.ttl
  tokens := by
    refine h.tokens.drop _ fun k v => ?_
    rw [forget_tokens_get]
    simp
  codes := h.codes

theorem Follows.sweep (h : Follows ttl now store logs) : Follows ttl now (store.sweep now) logs where
  ttl := h.ttl
  tokens := h.tokens.shrink (fun _ _ hk => (OrderedMap.get_filter_eq_some.mp hk).1)
    fun _ _ hk hle => OrderedMap.get_filter_eq_some.mpr ⟨hk, decide_eq_true hle⟩
  codes := h.codes.shrink (fun _ _ hk => (OrderedMap.get_filter_eq_some.mp hk).1)
    fun _ _ hk hle => OrderedMap.get_filter_eq_some.mpr ⟨hk, decide_eq_true hle⟩

theorem follows_answer (h : Follows ttl now store logs) (call : Call) (granted : Bool) :
    Follows ttl now (answer store now call).1 (logs.add ttl ⟨now, call, granted⟩) := by
  cases call with
  | create tunnelId token => exact h.create tunnelId token
  | issueCode tunnelId host code => exact ⟨h.ttl, h.tokens, h.codes.put code _⟩
  | redeem code host token => exact h.redeem code host token granted
  | allows token tunnelId => exact h.allows token tunnelId
  | forget tunnelId => exact h.forget tunnelId
  | sweep => exact h.sweep

theorem due_answer {p : Past} (h : Follows ttl p.time store (logsOf ttl past)) :
    (answer store p.time p.call).2 = due ttl past p := by
  obtain ⟨time, call, granted⟩ := p
  cases call with
  | redeem code host token => exact redeem_isSome h code host token
  | allows token tunnelId => exact allows_eq h token tunnelId
  | create tunnelId token => rfl
  | issueCode tunnelId host code => rfl
  | forget tunnelId => rfl
  | sweep => rfl

/-! ## Runs -/

structure Kept (ttl : ℕ) (gate : Gate) : Prop where
  follows : Follows ttl (clock gate.past) gate.store (logsOf ttl gate.past)
  answered : Explained (fun before p => p.granted = due ttl before p) gate.past
  sorted : gate.past.Pairwise fun p q => p.time ≤ q.time

theorem kept_init : Kept ttl { store := { ttl } } where
  follows := ⟨rfl, .empty, .empty⟩
  answered := .nil
  sorted := .nil

theorem le_clock (h : past.Pairwise fun p q => p.time ≤ q.time) {p : Past} (hp : p ∈ past) :
    p.time ≤ clock past := by
  induction past using List.reverseRecOn with
  | nil => cases hp
  | append_singleton past q _ =>
    rw [clock_concat]
    rcases List.mem_append.mp hp with hp | hp
    · exact (List.pairwise_append.mp h).2.2 p hp q (List.mem_singleton_self q)
    · exact Nat.le_of_eq (congrArg Past.time (List.mem_singleton.mp hp))

theorem Kept.step {e : ℕ × Call} (h : Kept ttl gate) (hs : step gate e = some gate') :
    Kept ttl gate' := by
  unfold Passes.step at hs
  split at hs
  · next hle =>
    cases hs
    have hlater := h.follows.later hle
    refine ⟨?_, ?_, ?_⟩
    · rw [clock_concat, logsOf_concat]
      exact follows_answer hlater e.2 _
    · exact h.answered.concat (due_answer (p := ⟨e.1, e.2, _⟩) hlater)
    · refine List.pairwise_append.mpr ⟨h.sorted, List.pairwise_singleton _ _, fun p hp q hq => ?_⟩
      rw [List.mem_singleton.mp hq]
      exact Nat.le_trans (le_clock h.sorted hp) hle
  · cases hs

theorem kept (h : (machine ttl).Reachable gate) : Kept ttl gate :=
  h.invariant (fun _ hs => hs ▸ kept_init) fun _ _ _ hk _ hs => hk.step hs

/-- Every call is answered as the calls before it say. -/
theorem answered_by_history (ttl : ℕ) (gate : Gate) (h : (machine ttl).Reachable gate) :
    Explained (fun before p => p.granted = due ttl before p) gate.past := (kept h).answered

/-- A visitor with a code of the web UI, and the same code again. -/
def visit : List (ℕ × Call) :=
  [(0, .issueCode "shop" "shop.example.com" "c"), (5, .redeem (some "c") "shop.example.com" "k"),
    (9, .redeem (some "c") "shop.example.com" "l"), (9, .allows (some "k") "shop")]

def visited : Gate := ((machine TTL).exec { store := {} } visit).getD { store := {} }

theorem visited_reachable : (machine TTL).Reachable visited :=
  (Machine.Reachable.init rfl).exec visit rfl

theorem answered_by_history_visited : visited.past.map Past.granted = [true, true, false, true] ∧
    Explained (fun before p => p.granted = due TTL before p) visited.past :=
  ⟨rfl, answered_by_history TTL visited visited_reachable⟩

/-! ## Where an admission comes from -/

/-- The call that a history has last answered so, and what has not come since. -/
def Since (past : List Past) (made : List Past → Past → Prop) (ends : Call → Prop) : Prop :=
  ∃ before p after, past = before ++ p :: after ∧ made before p ∧ ∀ q ∈ after, ¬ ends q.call

theorem Since.here {made : List Past → Past → Prop} {ends : Call → Prop} {p : Past}
    (h : made past p) : Since (past ++ [p]) made ends :=
  ⟨past, p, [], rfl, h, fun _ hq => absurd hq List.not_mem_nil⟩

theorem Since.concat {made : List Past → Past → Prop} {ends : Call → Prop} {q : Past}
    (h : Since past made ends) (hq : ¬ ends q.call) : Since (past ++ [q]) made ends := by
  obtain ⟨before, p, after, rfl, hp, hafter⟩ := h
  refine ⟨before, p, after ++ [q], by simp, hp, fun r hr => ?_⟩
  rcases List.mem_append.mp hr with hr | hr
  · exact hafter r hr
  · rw [List.mem_singleton.mp hr]
    exact hq

/-- The code was issued for the tunnel on that host, not longer ago than it is good, and it has
not been presented since. -/
def Issued (past : List Past) (now : ℕ) (tunnelId host code : String) : Prop :=
  Since past (fun _ p => p.call = .issueCode tunnelId host code ∧ now ≤ p.time + CODE_TTL)
    fun call => ∃ host token, call = .redeem (some code) host token

theorem issued_of_standing {code : String} {entry : CodeEntry} (hne : code ≠ "")
    (h : standing (logsOf ttl past).codes code = some entry) (hle : now ≤ entry.expiresAt) :
    Issued past now entry.tunnelId entry.host code := by
  induction past using List.reverseRecOn with
  | nil => cases h
  | append_singleton past q ih =>
    obtain ⟨time, call, granted⟩ := q
    rw [logsOf_concat] at h
    cases call with
    | issueCode tunnelId host key =>
      rw [show ((logsOf ttl past).add ttl ⟨time, .issueCode tunnelId host key, granted⟩).codes =
        (logsOf ttl past).codes ++ [.put key ⟨tunnelId, host, time + CODE_TTL⟩] from rfl,
        standing_put] at h
      split at h
      · next hkey =>
        cases h
        subst hkey
        exact .here ⟨rfl, hle⟩
      · exact (ih h).concat (by rintro ⟨_, _, hc⟩; cases hc)
    | redeem key host token =>
      rw [show ((logsOf ttl past).add ttl ⟨time, .redeem key host token, granted⟩).codes =
        (logsOf ttl past).codes ++ [.drop fun k _ => key = some k && k ≠ ""] from rfl,
        standing_drop, Option.filter_eq_some_iff] at h
      refine (ih h.1).concat ?_
      rintro ⟨_, _, hc⟩
      cases hc
      simp [hne] at h
    | create tunnelId token => exact (ih h).concat (by rintro ⟨_, _, hc⟩; cases hc)
    | allows token tunnelId => exact (ih h).concat (by rintro ⟨_, _, hc⟩; cases hc)
    | forget tunnelId => exact (ih h).concat (by rintro ⟨_, _, hc⟩; cases hc)
    | sweep => exact (ih h).concat (by rintro ⟨_, _, hc⟩; cases hc)

theorem good_eq_some {ν : Type} {deadline : ν → ℕ} {log : List (Change String ν)}
    {key : Option String} {value : ν} : good deadline log now key = some value ↔
      ∃ k, key = some k ∧ k ≠ "" ∧ standing log k = some value ∧ now ≤ deadline value := by
  simp [good, Option.bind_eq_some_iff, Option.filter_eq_some_iff, live_eq_some, and_assoc]

theorem issued_of_redeemable {code : Option String} {host tunnelId : String}
    (h : redeemable (logsOf ttl past) now code host = some tunnelId) :
    ∃ c, code = some c ∧ Issued past now tunnelId host c := by
  rw [redeemable, Option.map_eq_some_iff] at h
  obtain ⟨entry, hentry, rfl⟩ := h
  rw [Option.filter_eq_some_iff, good_eq_some] at hentry
  obtain ⟨⟨c, rfl, hne, hs, hle⟩, hhost⟩ := hentry
  rw [← of_decide_eq_true hhost]
  exact ⟨c, rfl, issued_of_standing hne hs hle⟩

/-- A login, or a code that was good when it was redeemed, has made the token for the tunnel, not
longer ago than it is good; and the tunnel's tokens have not been forgotten since. -/
def Made (ttl : ℕ) (past : List Past) (now : ℕ) (tunnelId token : String) : Prop :=
  Since past (fun before p => now ≤ p.time + ttl ∧ (p.call = .create tunnelId token ∨
      ∃ host code, p.call = .redeem (some code) host token ∧
        Issued before p.time tunnelId host code))
    fun call => call = .forget tunnelId

theorem made_of_standing {token : String} {entry : TokenEntry}
    (h : standing (logsOf ttl past).tokens token = some entry) (hle : now ≤ entry.expiresAt) :
    Made ttl past now entry.tunnelId token := by
  induction past using List.reverseRecOn with
  | nil => cases h
  | append_singleton past q ih =>
    obtain ⟨time, call, granted⟩ := q
    rw [logsOf_concat] at h
    cases call with
    | create tunnelId key =>
      rw [show ((logsOf ttl past).add ttl ⟨time, .create tunnelId key, granted⟩).tokens =
        (logsOf ttl past).tokens ++ [.put key ⟨tunnelId, time + ttl⟩] from rfl, standing_put] at h
      split at h
      · next hkey =>
        cases h
        subst hkey
        exact .here ⟨hle, .inl rfl⟩
      · exact (ih h).concat fun hc => by cases hc
    | redeem code host key =>
      have htokens : ((logsOf ttl past).add ttl ⟨time, .redeem code host key, granted⟩).tokens =
          match redeemable (logsOf ttl past) time code host with
          | some tunnelId => (logsOf ttl past).tokens ++ [.put key ⟨tunnelId, time + ttl⟩]
          | none => (logsOf ttl past).tokens := rfl
      rw [htokens] at h
      cases hr : redeemable (logsOf ttl past) time code host with
      | none =>
        rw [hr] at h
        exact (ih h).concat fun hc => by cases hc
      | some tunnelId =>
        rw [hr] at h
        simp only [standing_put] at h
        split at h
        · next hkey =>
          cases h
          subst hkey
          obtain ⟨c, rfl, hissued⟩ := issued_of_redeemable hr
          exact .here ⟨hle, .inr ⟨host, c, rfl, hissued⟩⟩
        · exact (ih h).concat fun hc => by cases hc
    | forget tunnelId =>
      rw [show ((logsOf ttl past).add ttl ⟨time, .forget tunnelId, granted⟩).tokens =
        (logsOf ttl past).tokens ++ [.drop fun _ entry => entry.tunnelId = tunnelId] from rfl,
        standing_drop, Option.filter_eq_some_iff] at h
      refine (ih h.1).concat fun hc => ?_
      cases hc
      simp at h
    | issueCode tunnelId host code => exact (ih h).concat fun hc => by cases hc
    | allows token tunnelId => exact (ih h).concat fun hc => by cases hc
    | sweep => exact (ih h).concat fun hc => by cases hc

/-- Whoever is let in by a token has it from a login, or for a code that was issued for this tunnel
on the host where it was redeemed, in time and for the first time. -/
theorem admitted_by (ttl : ℕ) (gate : Gate) (h : (machine ttl).Reachable gate) :
    Explained (fun before p => ∀ token tunnelId, p.call = .allows token tunnelId →
      p.granted = true → ∃ t, token = some t ∧ Made ttl before p.time tunnelId t) gate.past := by
  intro before p after hpast token tunnelId hcall hgranted
  have hdue : p.granted = due ttl before p := (kept h).answered before p after hpast
  rw [hgranted, due, hcall] at hdue
  have hadmits : admits (logsOf ttl before) p.time token tunnelId = true := hdue.symm
  rw [admits] at hadmits
  cases hgood : good TokenEntry.expiresAt (logsOf ttl before).tokens p.time token with
  | none =>
    rw [hgood] at hadmits
    cases hadmits
  | some entry =>
    rw [hgood, Option.any_some, decide_eq_true_eq] at hadmits
    obtain ⟨t, rfl, -, hs, hle⟩ := good_eq_some.mp hgood
    rw [← hadmits]
    exact ⟨t, rfl, made_of_standing hs hle⟩

theorem admitted_by_visited : ∃ t, some "k" = some t ∧
    Made TTL (visited.past.take 3) 9 "shop" t :=
  admitted_by TTL visited visited_reachable (visited.past.take 3)
    ⟨9, .allows (some "k") "shop", true⟩ [] rfl (some "k") "shop" rfl rfl

end Tunlit.Access.Passes
