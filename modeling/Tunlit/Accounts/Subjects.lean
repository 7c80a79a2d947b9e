import Tunlit.Accounts.Calls
import Tunlit.Js.Splitting

/-! # The subjects of a provider

`complete` signs a subject in to the account whose name it cuts out of the claims. An
account never changes its name, so two subjects share an account if the same name is cut
out for both, and otherwise never. -/
namespace Tunlit.Accounts.Subjects
open Tunlit.Js.Text Tunlit.Js.Splitting Tunlit.Lib.Insertion Tunlit.Lib.Runs Tunlit.Lib.Turns Tunlit.Accounts.Rows
  Tunlit.Accounts.Calls

/-- The account that `complete` has given to a call. -/
def givenTo : Stage Point Answer → Option (Provider × Claims × AccountId)
  | .waits (.storing (.provider provider claims) id _) => some (provider, claims, id)
  | .ended (.signedIn (.provider provider claims) id) => some (provider, claims, id)
  | _ => none

def SignsIn (s : Server) (provider : Provider) (claims : Claims) (id : AccountId) : Prop :=
  ∃ call ∈ s.calls, givenTo call.stage = some (provider, claims, id)

/-- No account is given to both subjects, in any order of sign-ins and other calls. -/
def KeptApart (provider : Provider) (a b : Claims) : Prop :=
  ∀ s, machine.Reachable s → ∀ id, SignsIn s provider a id → ¬ SignsIn s provider b id

/-- The first 32 letters, digits, dots, dashes and underscores in front of an at sign. -/
def stem (text : String) : List Char :=
  ((text.toList.takeWhile (· ≠ '@')).filter isUsable).take 32

/-- The claims that are chosen differ in their first usable characters, or have too few. -/
def Distinguished (provider : Provider) (a b : Claims) : Prop :=
  stem (raw provider a) = stem (raw provider b) → (stem (raw provider a)).length < 3

/-! ## Names -/

theorem usernameOf_eq (provider : Provider) (claims : Claims) :
    usernameOf provider claims = .ofList (stem (raw provider claims)) := by
  rw [usernameOf, stem, split_headD]

/-! ## What a call was given -/

/-- The account has the name that was cut out of the claims. -/
def NamedFor (w : World) (provider : Provider) (claims : Claims) (id : AccountId) : Prop :=
  3 ≤ (usernameOf provider claims).length ∧ w.names[id]? = some (usernameOf provider claims)

/-- How far a sign-in has come. -/
def Named (w : World) : Stage Point Answer → Prop
  | .waits (.matching provider claims account) | .waits (.rematching provider claims account) =>
    3 ≤ (usernameOf provider claims).length ∧
      ∀ found ∈ account, NamedFor w provider claims found.1
  | .waits (.providing provider claims _) | .waits (.provided provider claims _)
  | .waits (.described provider claims _) => 3 ≤ (usernameOf provider claims).length
  | .waits (.storing (.provider provider claims) id _)
  | .ended (.signedIn (.provider provider claims) id) => NamedFor w provider claims id
  | _ => True

variable {w w' : World} {point next : Point} {input : Input} {statement : Statement}
  {provider : Provider} {claims : Claims} {id : AccountId} {stage : Stage Point Answer}
  {answer : Answer}

theorem NamedFor.mono (h : NamedFor w provider claims id) (hp : w.names <+: w'.names) :
    NamedFor w' provider claims id :=
  ⟨h.1, names_of_prefix hp h.2⟩

theorem Named.mono (h : Named w stage) (hp : w.names <+: w'.names) : Named w' stage := by
  cases stage with
  | waits point =>
    cases point with
    | matching | rematching => exact ⟨h.1, fun found hf => (h.2 found hf).mono hp⟩
    | storing origin id done =>
      cases origin with
      | provider => exact NamedFor.mono h hp
      | _ => trivial
    | _ => exact h
  | ended answer =>
    cases answer with
    | signedIn origin id =>
      cases origin with
      | provider => exact NamedFor.mono h hp
      | _ => trivial
    | _ => trivial

theorem named_byUsername (hn : Numbered w) (hl : 3 ≤ (usernameOf provider claims).length)
    (found : AccountId × Account)
    (hf : found ∈ w.byUsername (usernameOf provider claims)) : NamedFor w provider claims found.1 := by
  obtain ⟨hg, hu⟩ := byUsername_eq_some hf
  exact ⟨hl, hu ▸ hn found.1 found.2 hg⟩

/-- What is looked up has the name. -/
theorem named_looks (hn : Numbered w) (h : Named w (.waits point)) (hl : Looks w point next) :
    Named w (.waits next) := by
  cases hl with
  | asking hlen => exact ⟨hlen, named_byUsername hn hlen⟩
  | matching => exact h.1
  | provided => exact h
  | described => exact ⟨h, named_byUsername hn h⟩
  | _ => trivial

theorem named_issues (h : Named w (.waits point)) (hi : Issues w point statement next) :
    Named w (.waits next) := by
  cases hi with
  | matched => exact h.2 _ rfl
  | rematched => exact h.2 _ rfl
  | provide => exact h
  | _ => trivial

theorem write_ends {values : Values} {k : AccountId} :
    write w k values ≠ (none, .ended answer) := by
  unfold write
  split <;> nofun

theorem change_ends {k : AccountId} {changes : Changes} {role : Option Role} {found : Found}
    {hash : String} (h : change w k changes role found hash = (none, .ended answer)) :
    answer = .refused 400 := by
  unfold change at h
  dsimp only at h
  split at h
  · exact absurd h write_ends
  · split at h
    · cases h
      rfl
    · cases h

theorem update_ends {k : AccountId} {changes : Changes} {account : Option Account} {hash : String}
    (h : update w k changes account hash = (none, .ended answer)) :
    ∃ code, answer = .refused code := by
  unfold update at h
  split at h
  · cases h
    exact ⟨404, rfl⟩
  · split at h
    · exact ⟨400, change_ends h⟩
    · split at h
      · cases h
        exact ⟨400, rfl⟩
      · split at h
        · cases h
        · exact ⟨400, change_ends h⟩

/-- A call ends with a session where one was stored. -/
theorem turn_ends {origin : Origin} {k : AccountId}
    (h : turn w point input = (none, .ended (.signedIn origin k))) :
    point = .storing origin k true := by
  cases point with
  | storing origin' k' done =>
    cases done with
    | true =>
      cases h
      rfl
    | false => cases h
  | updating id changes account =>
    obtain ⟨code, hno⟩ := update_ends h
    cases hno
  | counted id changes role account admins =>
    simp only [turn] at h
    split at h
    · cases h
    · cases change_ends h
  | cleared id found values => exact absurd h write_ends
  | asking provider claims =>
    simp only [turn] at h
    generalize (usernameOf provider claims).length = length at h
    repeat' split at h
    all_goals cases h
  | describing found => cases found <;> cases h
  | created username done => cases done <;> cases h
  | provided provider claims done => cases done <;> cases h
  | described provider claims found => cases found <;> cases h
  | creating | removing | removalCounted | changing | checking | counting | asserting | providing
  | rematching =>
    simp only [turn, remove, signIn] at h
    repeat' split at h
    all_goals cases h
  | verifying | matching | beginning | enabling | disabling =>
    simp only [turn, login, complete, signIn, begin, enable, disable] at h
    repeat' split at h
    all_goals cases h
  | written | sessionsGone | devicesGone | invitesGone | removed | enabled | closing => cases h

/-! ## Runs -/

def AllNamed : Server → Prop := Each Numbered fun w call => Named w call.stage

theorem does_names (w : World) (t : Turn) : w.names <+: (does w t).1.names := by
  obtain ⟨statement, stage⟩ := t
  cases statement with
  | none => exact List.prefix_rfl
  | some statement => exact run_names statement

theorem numbered_does (h : Numbered w) (t : Turn) : Numbered (does w t).1 := by
  obtain ⟨statement, stage⟩ := t
  cases statement with
  | none => exact h
  | some statement => exact h.run statement

theorem startTurn_named (w w' : World) (request : Request) : Named w' (startTurn w request).2 := by
  cases request with
  | create username password role =>
    simp only [startTurn]
    repeat' split
    all_goals trivial
  | _ => trivial

theorem turn_named (hn : Numbered w) (h : Named w (.waits point)) (input : Input) :
    Named w (turn w point input).2 := by
  cases ht : turn w point input with
  | mk statement stage =>
  cases statement with
  | some statement =>
    obtain ⟨next, rfl, hi⟩ := turn_issues ht
    exact named_issues h hi
  | none =>
    cases stage with
    | waits next => exact named_looks hn h (turn_looks ht)
    | ended answer =>
      cases answer with
      | signedIn origin k =>
        obtain rfl := turn_ends ht
        cases origin with
        | provider => exact h
        | _ => trivial
      | _ => trivial

theorem allNamed_of_reachable {s : Server} (h : machine.Reachable s) : AllNamed s := by
  refine Each.of_reaches h (fun s hs => ⟨hs.2.1, by simp [hs.1]⟩) ?_ ?_
  · exact fun s request hs _ => .begins (numbered_does hs.world _) (startTurn_named _ _ request)
      fun i call hc => (hs.calls i call hc).mono (does_names _ _)
  · intro s i input turns point hs _ hc
    have hstage := turn_named hs.world (hs.calls i _ hc) input
    exact .goesOn (numbered_does hs.world _) (hstage.mono (does_names _ _))
      fun k call _ hk => (hs.calls k call hk).mono (does_names _ _)

theorem SignsIn.named {s : Server} (hs : AllNamed s) (h : SignsIn s provider claims id) :
    NamedFor s.world provider claims id := by
  obtain ⟨call, hm, hg⟩ := h
  obtain ⟨i, hi⟩ := List.getElem?_of_mem hm
  have hnamed := hs.calls i call hi
  unfold givenTo at hg
  split at hg
  · next hstage =>
    cases hg
    rwa [hstage] at hnamed
  · next hstage =>
    cases hg
    rwa [hstage] at hnamed
  · cases hg

/-- Where there is an account of the name, a subject is signed in to it. -/
theorem signsIn_of_account {s : Server} {account : Account} (h : machine.Reachable s)
    (hl : 3 ≤ (usernameOf provider claims).length)
    (hb : s.world.byUsername (usernameOf provider claims) = some (id, account)) :
    ∃ t, machine.Reachable t ∧ SignsIn t provider claims id ∧
      t.world.accounts = s.world.accounts ∧ ∀ call ∈ s.calls, call ∈ t.calls := by
  have hasks : handlers.resume s.world (.asking provider claims) {} =
      (s.world, .waits (.matching provider claims (some (id, account)))) := by
    show does s.world (turn s.world (.asking provider claims) {}) = _
    rw [turn, if_neg (by decide), if_neg (Nat.not_lt.mpr hl), hb]
    rfl
  have hfirst : machine.Reachable ⟨s.world,
      s.calls ++ [⟨[(s.world, s.world)], .waits (.asking provider claims)⟩]⟩ :=
    .step h (show machine.step s (.call (.oidc provider claims)) = _ from rfl)
  have hsecond := hfirst.step (show machine.step _ (.resume s.calls.length {}) = _ from
    Handlers.step_last hasks)
  have hthird := hsecond.step (show machine.step _ (.resume s.calls.length {}) = _ from
    Handlers.step_last rfl)
  refine ⟨_, hthird, ⟨_, List.mem_concat_self, rfl⟩, ?_, fun call hm => List.mem_append_left _ hm⟩
  show (s.world.run _).accounts = s.world.accounts
  unfold World.run
  split <;> rfl

def occupant (username : String) : Account := { username, passwordHash := "" }

/-- A server with one account. -/
def room (username : String) : Server :=
  ⟨{ accounts := ⟨[(0, occupant username)], List.nodup_singleton _⟩, names := [username] }, []⟩

theorem room_reachable (username : String) : machine.Reachable (room username) := by
  refine .init ⟨rfl, fun id account h => ?_, rfl⟩
  have hm : (id, account) ∈ [(0, occupant username)] := OrderedMap.mem_entries.mpr h
  obtain ⟨rfl, rfl⟩ := Prod.mk.inj (List.mem_singleton.mp hm)
  rfl

/-- Two subjects of a provider are never signed in to one account exactly if what is cut
out of their claims differs, or is no name. -/
theorem keptApart_iff (provider : Provider) (a b : Claims) :
    KeptApart provider a b ↔ Distinguished provider a b := by
  constructor
  · intro h heq
    by_contra hlen
    have hname : usernameOf provider a = usernameOf provider b := by
      rw [usernameOf_eq, usernameOf_eq, heq]
    have hmany : 3 ≤ (usernameOf provider a).length := by
      rw [usernameOf_eq, String.length_ofList]
      exact Nat.le_of_not_lt hlen
    have hfound : (room (usernameOf provider a)).world.byUsername (usernameOf provider a) =
        some (0, occupant (usernameOf provider a)) := by
      simp [World.byUsername, room, occupant]
    obtain ⟨t, ht, ha, hacc, -⟩ :=
      signsIn_of_account (room_reachable (usernameOf provider a)) hmany hfound
    have hfound' : t.world.byUsername (usernameOf provider b) =
        some (0, occupant (usernameOf provider a)) := by
      rw [World.byUsername, hacc, ← hname]
      exact hfound
    obtain ⟨u, hu, hb, -, hcalls⟩ := signsIn_of_account ht (hname ▸ hmany) hfound'
    obtain ⟨call, hm, hg⟩ := ha
    exact h u hu 0 ⟨call, hcalls call hm, hg⟩ hb
  · intro h s hs id ha hb
    have hna := ha.named (allNamed_of_reachable hs)
    have hnb := hb.named (allNamed_of_reachable hs)
    have hname : usernameOf provider a = usernameOf provider b :=
      Option.some.inj (hna.2.symm.trans hnb.2)
    rw [usernameOf_eq, usernameOf_eq] at hname
    have hfew := h (String.ofList_injective hname)
    have hmany := hna.1
    rw [usernameOf_eq, String.length_ofList] at hmany
    exact absurd hfew (Nat.not_lt.mpr hmany)

/-- The claims of a subject are its own. -/
def Own (provider : Provider) (a b : Claims) : Prop :=
  ∀ name ∈ [provider.usernameClaim, "preferred_username", "email", "sub"],
    claim a name ≠ claim b name

instance (provider : Provider) (a b : Claims) : Decidable (Own provider a b) :=
  inferInstanceAs (Decidable (∀ name ∈ _, _))

/-- `alice` of two domains. -/
theorem not_always_keptApart : ¬ ∀ provider a b, Own provider a b → KeptApart provider a b := by
  intro hall
  have h := hall ⟨"preferred_username", true⟩
    [("preferred_username", "alice@a.example"), ("email", "a@a.example"), ("sub", "1")]
    [("preferred_username", "alice@b.example"), ("email", "b@b.example"), ("sub", "2")] (by decide)
  exact absurd ((keptApart_iff _ _ _).mp h (by decide)) (by decide)

end Tunlit.Accounts.Subjects
