import Mathlib.Data.Finset.Basic
import Tunlit.Lib.Turns

/-! # Custom domains and their certificates

`add`, `remove`, `check` and `verify` of `lib/domains.js`, with `issueFor`, `forget` and the
renewals of `lib/tls/manager.js`. A call is cut at its awaits, and a statement takes effect when
it is issued. `recheck` checks one hostname after the other and `maybeRenew` renews one after
the other; each of these is a call of its own here, at any time. A call that only waits for the
check of another one ends at once. -/
namespace Tunlit.Tls.Domains
open Tunlit.Lib.Runs Tunlit.Lib.Turns

/-! ## Rows -/

inductive DomainState where
  | pending
  | issuing
  | active
  | error
deriving DecidableEq

/-- `owed` tells that the row was added while the server runs, and that no check that began
with it there has ended yet. -/
structure Row where
  id : ℕ
  hostname : String
  tunnelName : String
  state : DomainState := .pending
  owed : Bool := false
deriving DecidableEq

structure World where
  baseDomain : String
  managesTls : Bool
  rows : List Row := []
  nextId : ℕ := 0
  certificates : Finset String := ∅
  byHost : String → Option String := fun _ => none
  checking : Finset String := ∅
  extra : Finset String := ∅
  issuing : Finset String := ∅
  challenges : Finset String := ∅

def World.hasRow (w : World) (hostname : String) : Prop := ∃ row ∈ w.rows, row.hostname = hostname

instance (w : World) (hostname : String) : Decidable (w.hasRow hostname) :=
  inferInstanceAs (Decidable (∃ row ∈ w.rows, _))

/-- A custom domain of this server. -/
def World.Known (w : World) (hostname : String) : Prop :=
  (w.byHost hostname).isSome = true ∧ w.hasRow hostname

instance (w : World) (hostname : String) : Decidable (w.Known hostname) :=
  inferInstanceAs (Decidable (_ ∧ _))

/-- `Domain.update` of a hostname. -/
def World.update (w : World) (hostname : String) (state : DomainState) : World :=
  { w with rows := w.rows.map fun row =>
      if row.hostname = hostname then { row with state } else row }

/-! ## Calls -/

/-- A `verify`, with the rows that its hostname had when it began. -/
structure Check where
  hostname : String
  rows : List ℕ
deriving DecidableEq

/-- Who calls `issueFor`. -/
inductive Issuer where
  | verify (check : Check)
  | maybeRenew (hostname : String)
deriving DecidableEq

def Issuer.hostname : Issuer → String
  | .verify check => check.hostname
  | .maybeRenew hostname => hostname

inductive Request where
  | add (hostname tunnelName : String)
  | remove (hostname : String)
  | check (hostname : String)
  | maybeRenew (hostname : String)

/-- Where a call waits: `add` for its row, `remove` for each of its statements, `verify` for the
DNS and for its updates, `issueFor` for the certificate and then for the store. -/
inductive Point where
  | created (hostname tunnelName : String) (id : ℕ)
  | destroyed (hostname : String)
  | forgotten
  | looking (check : Check)
  | marking (check : Check)
  | ordering (issuer : Issuer) (token : Option String)
  | finding (issuer : Issuer) (found : Bool)
  | saving (issuer : Issuer)
  | settling (check : Check)
deriving DecidableEq

/-- What a call is resumed with: `pointsHere` answers, and the entry of the hostname may be due;
a challenge is to be answered for; or what it waits for is done or fails. -/
inductive Input where
  | looked (pointsHere expiring : Bool)
  | challenge (token : String)
  | done
  | failed

/-- The last update of `verify`. -/
def World.settle (w : World) (check : Check) (state : DomainState) : World × Stage Point Bool :=
  ({ w with rows := w.rows.map fun row =>
      if row.hostname = check.hostname then
        { row with state, owed := row.owed && !check.rows.contains row.id }
      else row },
    .waits (.settling check))

/-- The end of `issueFor`, and what its caller does then. -/
def World.leave (w : World) (issuer : Issuer) (state : DomainState) : World × Stage Point Bool :=
  match issuer with
  | .verify check =>
    World.settle { w with issuing := w.issuing.erase check.hostname } check state
  | .maybeRenew hostname =>
    ({ w with issuing := w.issuing.erase hostname }, .ended (state == .active))

/-- The beginning of `issueFor`. -/
def World.issueFor (w : World) (issuer : Issuer) : World × Stage Point Bool :=
  if issuer.hostname ∈ w.issuing ∨ w.managesTls = false then
    match issuer with
    | .verify check => w.settle check .error
    | .maybeRenew _ => (w, .ended false)
  else ({ w with issuing := insert issuer.hostname w.issuing }, .waits (.ordering issuer none))

/-- `check` -/
def World.check (w : World) (hostname : String) : World × Stage Point Bool :=
  if w.byHost hostname = none ∨ hostname ∈ w.checking then (w, .ended true)
  else ({ w with checking := insert hostname w.checking },
    .waits (.looking ⟨hostname, (w.rows.filter (·.hostname = hostname)).map Row.id⟩))

def start (w : World) : Request → World × Stage Point Bool
  | .add hostname tunnelName =>
    if (w.byHost hostname).isSome ∨ w.hasRow hostname then (w, .ended false)
    else ({ w with rows := w.rows ++ [{ id := w.nextId, hostname, tunnelName, owed := true }],
                   nextId := w.nextId + 1 },
      .waits (.created hostname tunnelName w.nextId))
  | .remove hostname =>
    ({ w with rows := w.rows.filter (·.hostname ≠ hostname) }, .waits (.destroyed hostname))
  | .check hostname => w.check hostname
  | .maybeRenew hostname =>
    if hostname ∈ w.extra then w.issueFor (.maybeRenew hostname) else (w, .ended false)

/-- The challenge that was answered for is removed when the order ends. -/
def World.ordered (w : World) (token : Option String) : World :=
  { w with challenges := token.elim w.challenges w.challenges.erase }

/-- The create of `saveCertificate`, or its update, which changes no domain. -/
def World.saveCertificate (w : World) (issuer : Issuer) (found : Bool) :
    World × Stage Point Bool :=
  if found then (w, .waits (.saving issuer))
  else if issuer.hostname ∈ w.certificates then w.leave issuer .error
  else ({ w with certificates := insert issuer.hostname w.certificates }, .waits (.saving issuer))

def resume (w : World) : Point → Input → World × Stage Point Bool
  | .created hostname tunnelName _, _ =>
    World.check { w with byHost := Function.update w.byHost hostname (some tunnelName) } hostname
  | .destroyed hostname, _ =>
    ({ w with byHost := Function.update w.byHost hostname none
              extra := w.extra.erase hostname
              certificates := w.certificates.erase hostname },
      .waits .forgotten)
  | .forgotten, _ => (w, .ended true)
  | .looking check, .looked pointsHere expiring =>
    if !pointsHere then w.settle check .pending
    else if w.managesTls = false ∨ check.hostname ∈ w.extra ∧ expiring = false then
      w.settle check .active
    else (w.update check.hostname .issuing, .waits (.marking check))
  | .looking check, _ => (w, .waits (.looking check))
  | .marking check, _ => w.issueFor (.verify check)
  | .ordering issuer none, .challenge token =>
    ({ w with challenges := insert token w.challenges }, .waits (.ordering issuer (some token)))
  | .ordering issuer token, .done =>
    (w.ordered token, .waits (.finding issuer (issuer.hostname ∈ w.certificates)))
  | .ordering issuer token, .failed => (w.ordered token).leave issuer .error
  | .ordering issuer token, _ => (w, .waits (.ordering issuer token))
  | .finding issuer _, .failed | .saving issuer, .failed => w.leave issuer .error
  | .finding issuer found, _ => w.saveCertificate issuer found
  | .saving issuer, _ =>
    World.leave { w with extra := insert issuer.hostname w.extra } issuer .active
  | .settling check, _ => ({ w with checking := w.checking.erase check.hostname }, .ended true)

def handlers : Handlers World Request Input Point Bool := ⟨start, resume⟩

abbrev Server := System World Point Bool

/-- The server has loaded its domains and its certificates, which belong to each other. -/
structure Loaded (s : Server) : Prop where
  calls : s.calls = []
  rows : ∀ row ∈ s.world.rows, row.owed = false
  extra : ∀ hostname ∈ s.world.extra, s.world.Known hostname
  certificates : ∀ hostname ∈ s.world.certificates, hostname ≠ s.world.baseDomain →
    s.world.Known hostname
  issuing : s.world.issuing = ∅
  challenges : s.world.challenges = ∅

def machine : Machine Server (Event Request Input) := handlers.machine Loaded

/-! ## What a removed domain leaves behind -/

structure Clean (w : World) : Prop where
  extra : ∀ hostname ∈ w.extra, w.Known hostname
  certificates : ∀ hostname ∈ w.certificates, hostname ≠ w.baseDomain → w.Known hostname
  issuing : w.issuing = ∅
  challenges : w.challenges = ∅
  verified : ∀ row ∈ w.rows, row.owed = false

def Input.fails : Input → Bool
  | .failed => true
  | _ => false

/-- The test that `issueFor` lacks before it stores, and the one that `add` lacks before it
checks: the hostname is still a domain, and no older check of it is under way. -/
def Careful (w : World) (input : Input) : Point → Prop
  | .finding issuer false =>
    input.fails = false → issuer.hostname ∈ w.certificates ∨ w.Known issuer.hostname
  | .saving issuer => input.fails = false → w.Known issuer.hostname
  | .created hostname _ _ => hostname ∉ w.checking
  | _ => True

instance (w : World) (input : Input) (point : Point) : Decidable (Careful w input point) := by
  unfold Careful
  split <;> infer_instance

def ok (s : Server) : Event Request Input → Prop
  | .call _ => True
  | .resume i input => ∀ point ∈ s.pointOf i, Careful s.world input point

instance (s : Server) : ∀ e, Decidable (ok s e)
  | .call _ => .isTrue trivial
  | .resume i _ => inferInstanceAs (Decidable (∀ point ∈ s.pointOf i, _))

/-! ## What is open, and which call minds it -/

variable {s : Server} {w w' : World} {point : Point} {input : Input} {issuer : Issuer}
  {check : Check} {state : DomainState} {hostname : String} {found : Bool}

/-- What must not be there once the server is at rest. -/
inductive Trace where
  | leftover (hostname : String)
  | mark (hostname : String)
  | challenge (token : String)
  | unverified (hostname : String) (id : ℕ)

def World.Stores (w : World) (hostname : String) : Prop :=
  hostname ∈ w.extra ∨ hostname ∈ w.certificates ∧ hostname ≠ w.baseDomain

def Open (w : World) : Trace → Prop
  | .leftover hostname => w.Stores hostname ∧ ¬ w.Known hostname
  | .mark hostname => hostname ∈ w.issuing
  | .challenge token => token ∈ w.challenges
  | .unverified hostname id =>
    ∃ row ∈ w.rows, row.hostname = hostname ∧ row.id = id ∧ row.owed = true

def Check.Minds (check : Check) (trace : Trace) : Prop :=
  ∃ id ∈ check.rows, trace = .unverified check.hostname id

def Issuer.Minds : Issuer → Trace → Prop
  | .verify check, trace => trace = .mark check.hostname ∨ check.Minds trace
  | .maybeRenew hostname, trace => trace = .mark hostname

def Minds : Point → Trace → Prop
  | .created hostname _ id, trace => trace = .unverified hostname id
  | .destroyed hostname, trace => trace = .leftover hostname
  | .looking check, trace | .marking check, trace => check.Minds trace
  | .ordering issuer token, trace =>
    issuer.Minds trace ∨ ∃ name ∈ token, trace = .challenge name
  | .finding issuer _, trace | .saving issuer, trace => issuer.Minds trace
  | .forgotten, _ | .settling _, _ => False

/-- A turn minds what it opens, and what its call has minded and it leaves open. -/
def Tidy (w : World) (point : Point) (turn : World × Stage Point Bool) : Prop :=
  ∀ trace, Open turn.1 trace →
    Open w trace ∧ ¬ Minds point trace ∨ ∃ next ∈ turn.2.point, Minds next trace

/-- A hostname is known as before, and no more is stored for it. -/
theorem leftover_congr (h : Open w' (.leftover hostname))
    (hrow : w.hasRow hostname → w'.hasRow hostname)
    (hhost : (w.byHost hostname).isSome = true → (w'.byHost hostname).isSome = true)
    (hstores : w'.Stores hostname → w.Stores hostname) : Open w (.leftover hostname) :=
  ⟨hstores h.1, fun hk => h.2 ⟨hhost hk.1, hrow hk.2⟩⟩

theorem hasRow_map {f : Row → Row} (hf : ∀ row, (f row).hostname = row.hostname)
    (h : w.hasRow hostname) : World.hasRow { w with rows := w.rows.map f } hostname := by
  obtain ⟨row, hm, hn⟩ := h
  exact ⟨f row, List.mem_map_of_mem hm, (hf row).trans hn⟩

theorem settle_open {trace : Trace} (h : Open (w.settle check state).1 trace) :
    Open w trace ∧ ¬ check.Minds trace := by
  cases trace with
  | leftover name =>
    refine ⟨leftover_congr h (hasRow_map fun row => ?_) id id, nofun⟩
    split <;> rfl
  | mark name => exact ⟨h, nofun⟩
  | challenge token => exact ⟨h, nofun⟩
  | unverified name id =>
    obtain ⟨_, hm, hname, hid, howed⟩ := h
    obtain ⟨row, hrow, rfl⟩ := List.mem_map.mp hm
    by_cases heq : row.hostname = check.hostname
    · rw [if_pos heq] at hname hid howed
      simp only [Bool.and_eq_true, Bool.not_eq_true', List.contains_eq_mem, decide_eq_false_iff_not]
        at howed
      refine ⟨⟨row, hrow, hname, hid, howed.1⟩, fun ⟨other, ho, he⟩ => howed.2 ?_⟩
      cases he
      exact hid ▸ ho
    · rw [if_neg heq] at hname hid howed
      refine ⟨⟨row, hrow, hname, hid, howed⟩, fun ⟨other, _, he⟩ => heq ?_⟩
      cases he
      exact hname

theorem update_open {trace : Trace} (h : Open (w.update hostname state) trace) : Open w trace := by
  cases trace with
  | leftover name =>
    refine leftover_congr h (hasRow_map fun row => ?_) id id
    split <;> rfl
  | mark name => exact h
  | challenge token => exact h
  | unverified name id =>
    obtain ⟨_, hm, hname, hid, howed⟩ := h
    obtain ⟨row, hrow, rfl⟩ := List.mem_map.mp hm
    by_cases heq : row.hostname = hostname
    · rw [if_pos heq] at hname hid howed
      exact ⟨row, hrow, hname, hid, howed⟩
    · rw [if_neg heq] at hname hid howed
      exact ⟨row, hrow, hname, hid, howed⟩

theorem unmark_open {trace : Trace}
    (h : Open { w with issuing := w.issuing.erase hostname } trace) :
    Open w trace ∧ trace ≠ .mark hostname := by
  cases trace with
  | mark name =>
    obtain ⟨hne, hm⟩ := Finset.mem_erase.mp h
    exact ⟨hm, fun he => hne (Trace.mark.inj he)⟩
  | leftover name => exact ⟨h, nofun⟩
  | challenge token => exact ⟨h, nofun⟩
  | unverified name id => exact ⟨h, nofun⟩

theorem leave_open {trace : Trace} (h : Open (w.leave issuer state).1 trace) :
    Open w trace ∧ ¬ issuer.Minds trace := by
  cases issuer with
  | verify check =>
    obtain ⟨hopen, hcheck⟩ := settle_open h
    obtain ⟨hopen, hmark⟩ := unmark_open hopen
    exact ⟨hopen, not_or.mpr ⟨hmark, hcheck⟩⟩
  | maybeRenew name => exact unmark_open h

theorem mark_open {trace : Trace}
    (h : Open { w with issuing := insert hostname w.issuing } trace) :
    trace = .mark hostname ∨ Open w trace := by
  cases trace with
  | mark name => exact (Finset.mem_insert.mp h).imp_left (congrArg Trace.mark)
  | leftover name => exact .inr h
  | challenge token => exact .inr h
  | unverified name id => exact .inr h

theorem issueFor_tidy (w : World) (check : Check) :
    Tidy w (.marking check) (w.issueFor (.verify check)) := by
  intro trace h
  unfold World.issueFor at h ⊢
  split at h
  · exact .inl (settle_open h)
  · next hnot =>
    rw [if_neg hnot]
    by_cases hm : check.Minds trace
    · exact .inr ⟨_, rfl, .inl (.inr hm)⟩
    · rcases mark_open h with rfl | h
      · exact .inr ⟨_, rfl, .inl (.inl rfl)⟩
      · exact .inl ⟨h, hm⟩

/-- A hostname that is known has more stored for it. -/
theorem leftover_stored {name : String} (h : Open w' (.leftover name)) (hk : w.Known hostname)
    (hstores : ∀ name, name ≠ hostname → w'.Stores name → w.Stores name)
    (hknown : ∀ name, w.Known name → w'.Known name) : Open w (.leftover name) := by
  have hne : name ≠ hostname := by
    rintro rfl
    exact h.2 (hknown _ hk)
  exact ⟨hstores name hne h.1, fun hk => h.2 (hknown name hk)⟩

theorem saveCertificate_tidy
    (hc : found = false → issuer.hostname ∈ w.certificates ∨ w.Known issuer.hostname) :
    Tidy w (.finding issuer found) (w.saveCertificate issuer found) := by
  intro trace h
  unfold World.saveCertificate at h ⊢
  split at h
  · next hfound =>
    rw [if_pos hfound]
    exact Covered.keeps id (fun hm => ⟨_, rfl, hm⟩) h
  · next hfound =>
    rw [if_neg hfound]
    split at h
    · exact .inl (leave_open h)
    · next hnew =>
      rw [if_neg hnew]
      have hknown := (hc (Bool.eq_false_iff.mpr hfound)).resolve_left hnew
      refine Covered.keeps (fun h => ?_) (fun hm => ⟨_, rfl, hm⟩) h
      cases trace with
      | leftover name =>
        refine leftover_stored h hknown (fun name hne hs => ?_) fun _ => id
        refine hs.imp_right fun ⟨hm, hbase⟩ => ⟨?_, hbase⟩
        exact (Finset.mem_insert.mp hm).resolve_left hne
      | mark name => exact h
      | challenge token => exact h
      | unverified name id => exact h

theorem save_tidy (hk : w.Known issuer.hostname) :
    Tidy w (.saving issuer)
      (World.leave { w with extra := insert issuer.hostname w.extra } issuer .active) := by
  intro trace h
  obtain ⟨h, hm⟩ := leave_open h
  refine .inl ⟨?_, hm⟩
  cases trace with
  | leftover name =>
    refine leftover_stored h hk (fun name hne hs => ?_) fun _ => id
    exact hs.imp_left fun hm => (Finset.mem_insert.mp hm).resolve_left hne
  | mark name => exact h
  | challenge token => exact h
  | unverified name id => exact h

theorem challenge_open {trace : Trace} {token : String}
    (h : Open { w with challenges := insert token w.challenges } trace) :
    trace = .challenge token ∨ Open w trace := by
  cases trace with
  | challenge name => exact (Finset.mem_insert.mp h).imp_left (congrArg Trace.challenge)
  | leftover name => exact .inr h
  | mark name => exact .inr h
  | unverified name id => exact .inr h

theorem ordered_open {trace : Trace} {token : Option String} (h : Open (w.ordered token) trace) :
    Open w trace ∧ ¬ ∃ name ∈ token, trace = .challenge name := by
  cases token with
  | none => exact ⟨h, nofun⟩
  | some name =>
    cases trace with
    | challenge other =>
      obtain ⟨hne, hm⟩ := Finset.mem_erase.mp h
      refine ⟨hm, fun ⟨_, ho, he⟩ => hne ?_⟩
      cases ho
      exact Trace.challenge.inj he
    | leftover other => exact ⟨h, nofun⟩
    | mark other => exact ⟨h, nofun⟩
    | unverified other id => exact ⟨h, nofun⟩

/-- An order ends with its challenge removed, and sets no other one. -/
theorem order_tidy (w : World) (issuer : Issuer) (token : Option String) (input : Input) :
    Tidy w (.ordering issuer token) (resume w (.ordering issuer token) input) := by
  intro trace h
  unfold resume at h ⊢
  cases input with
  | failed =>
    simp only at h ⊢
    obtain ⟨h, hissuer⟩ := leave_open h
    obtain ⟨h, htoken⟩ := ordered_open h
    exact .inl ⟨h, not_or.mpr ⟨hissuer, htoken⟩⟩
  | done =>
    simp only at h ⊢
    obtain ⟨h, htoken⟩ := ordered_open h
    refine Covered.keeps (fun _ => h) (fun hm => ?_) h
    exact ⟨_, rfl, hm.resolve_right htoken⟩
  | challenge name =>
    cases token with
    | none =>
      rcases challenge_open h with rfl | h
      · exact .inr ⟨_, rfl, .inr ⟨name, rfl, rfl⟩⟩
      · exact Covered.keeps (fun _ => h) (fun hm => ⟨_, rfl, hm.imp_right nofun⟩) h
    | some other => exact Covered.keeps id (fun hm => ⟨_, rfl, hm⟩) h
  | looked pointsHere expiring =>
    cases token <;> exact Covered.keeps id (fun hm => ⟨_, rfl, hm⟩) h

/-- `add` goes on to the check, unless an older one is under way. -/
theorem add_tidy {tunnelName : String} {number : ℕ} (hc : hostname ∉ w.checking) :
    Tidy w (.created hostname tunnelName number)
      (World.check { w with byHost := Function.update w.byHost hostname (some tunnelName) }
        hostname) := by
  intro trace h
  have hstarts : ¬ (Function.update w.byHost hostname (some tunnelName) hostname = none ∨
      hostname ∈ w.checking) := by simp [hc]
  unfold World.check at h ⊢
  rw [if_neg hstarts] at h ⊢
  cases trace with
  | leftover name =>
    refine .inl ⟨leftover_congr h id (fun hs => ?_) id, nofun⟩
    dsimp only
    rw [Function.update_apply]
    split
    · rfl
    · exact hs
  | mark name => exact .inl ⟨h, nofun⟩
  | challenge token => exact .inl ⟨h, nofun⟩
  | unverified name row =>
    refine Covered.keeps id (fun hm => ⟨_, rfl, ?_⟩) h
    cases hm
    obtain ⟨row, hrow, hname, hid, -⟩ := h
    refine ⟨row.id, List.mem_map_of_mem (List.mem_filter.mpr ⟨hrow, by simpa using hname⟩), ?_⟩
    rw [hid]

/-- `remove` takes what is stored for the hostname. -/
theorem remove_tidy (w : World) (hostname : String) (input : Input) :
    Tidy w (.destroyed hostname) (resume w (.destroyed hostname) input) := by
  intro trace h
  unfold resume at h ⊢
  cases trace with
  | leftover name =>
    obtain ⟨hstores, hnot⟩ := h
    have hne : name ≠ hostname := by
      rintro rfl
      rcases hstores with hm | ⟨hm, -⟩ <;> exact (Finset.mem_erase.mp hm).1 rfl
    refine .inl ⟨⟨?_, fun hk => hnot ⟨?_, hk.2⟩⟩, fun hm => hne (Trace.leftover.inj hm)⟩
    · exact hstores.imp Finset.mem_of_mem_erase fun hm => ⟨Finset.mem_of_mem_erase hm.1, hm.2⟩
    · dsimp only
      rw [Function.update_of_ne hne]
      exact hk.1
  | mark name => exact .inl ⟨h, nofun⟩
  | challenge token => exact .inl ⟨h, nofun⟩
  | unverified name row => exact .inl ⟨h, nofun⟩

theorem look_tidy (w : World) (check : Check) (input : Input) :
    Tidy w (.looking check) (resume w (.looking check) input) := by
  intro trace h
  unfold resume at h ⊢
  cases input with
  | looked pointsHere expiring =>
    dsimp only at h ⊢
    split at h
    · exact .inl (settle_open h)
    · next hpoints =>
      rw [if_neg hpoints]
      split at h
      · exact .inl (settle_open h)
      · next hdue =>
        rw [if_neg hdue]
        exact Covered.keeps (fun _ => update_open h) (fun hm => ⟨_, rfl, hm⟩) h
  | _ => exact Covered.keeps id (fun hm => ⟨_, rfl, hm⟩) h

theorem resume_tidy (hc : Careful w input point) : Tidy w point (resume w point input) := by
  cases point with
  | created name tunnelName number =>
    unfold resume
    exact add_tidy hc
  | destroyed name => exact remove_tidy w name input
  | forgotten => exact fun trace h => .inl ⟨h, id⟩
  | looking check => exact look_tidy w check input
  | marking check =>
    unfold resume
    exact issueFor_tidy w check
  | ordering issuer token => exact order_tidy w issuer token input
  | finding issuer found =>
    cases input with
    | failed => exact fun trace h => .inl (leave_open h)
    | _ => exact saveCertificate_tidy fun hf => by subst hf; exact hc rfl
  | saving issuer =>
    cases input with
    | failed => exact fun trace h => .inl (leave_open h)
    | _ => exact save_tidy (hc rfl)
  | settling check =>
    intro trace h
    refine .inl ⟨?_, id⟩
    cases trace <;> exact h

theorem start_tidy {request : Request} {trace : Trace} (h : Open (start w request).1 trace) :
    Open w trace ∨ ∃ next ∈ (start w request).2.point, Minds next trace := by
  unfold start at h ⊢
  cases request with
  | add name tunnelName =>
    dsimp only at h ⊢
    split at h
    · exact .inl h
    · next hfree =>
      rw [if_neg hfree]
      cases trace with
      | leftover other =>
        refine .inl (leftover_congr h (fun ⟨row, hm, hn⟩ => ?_) id id)
        exact ⟨row, List.mem_append_left _ hm, hn⟩
      | mark other => exact .inl h
      | challenge token => exact .inl h
      | unverified other row =>
        obtain ⟨row, hm, hn, hid, howed⟩ := h
        rcases List.mem_append.mp hm with hm | hm
        · exact .inl ⟨row, hm, hn, hid, howed⟩
        · refine .inr ⟨_, rfl, ?_⟩
          cases List.mem_singleton.mp hm
          rw [← hn, ← hid]
          rfl
  | remove name =>
    cases trace with
    | leftover other =>
      by_cases hne : other = name
      · exact .inr ⟨_, rfl, congrArg Trace.leftover hne⟩
      · refine .inl (leftover_congr h (fun ⟨row, hm, hn⟩ => ?_) id id)
        exact ⟨row, List.mem_filter.mpr ⟨hm, by simpa [hn] using hne⟩, hn⟩
    | mark other => exact .inl h
    | challenge token => exact .inl h
    | unverified other row =>
      obtain ⟨row, hm, hrow⟩ := h
      exact .inl ⟨row, List.mem_of_mem_filter hm, hrow⟩
  | check name =>
    left
    unfold World.check at h
    dsimp only at h
    split at h
    · exact h
    · cases trace <;> exact h
  | maybeRenew name =>
    unfold World.issueFor at h ⊢
    dsimp only at h ⊢
    split at h
    · next hextra =>
      rw [if_pos hextra]
      split at h
      · exact .inl h
      · next hnot =>
        rw [if_neg hnot]
        rcases mark_open h with rfl | h
        · exact .inr ⟨_, rfl, .inl rfl⟩
        · exact .inl h
    · exact .inl h

/-! ## Runs -/

theorem covered (h : machine.Reaches ok s) : Covered Open Minds s := by
  refine Covered.of_reaches h (fun s hs trace => ?_)
    (fun _ _ _ _ h => start_tidy h) fun _ _ _ _ trace hok hp h => resume_tidy (hok _ hp) trace h
  cases trace with
  | leftover name =>
    rintro ⟨hstores, hnot⟩
    rcases hstores with hm | ⟨hm, hbase⟩
    · exact hnot (hs.extra name hm)
    · exact hnot (hs.certificates name hm hbase)
  | mark name =>
    change name ∉ s.world.issuing
    rw [hs.issuing]
    exact Finset.notMem_empty name
  | challenge token =>
    change token ∉ s.world.challenges
    rw [hs.challenges]
    exact Finset.notMem_empty token
  | unverified name row =>
    rintro ⟨row, hm, -, -, howed⟩
    cases (hs.rows row hm).symm.trans howed

theorem clean_of_none (h : ∀ trace, ¬ Open w trace) : Clean w where
  extra name hm := by
    by_contra hnot
    exact h (.leftover name) ⟨.inl hm, hnot⟩
  certificates name hm hbase := by
    by_contra hnot
    exact h (.leftover name) ⟨.inr ⟨hm, hbase⟩, hnot⟩
  issuing := Finset.eq_empty_of_forall_notMem fun name => h (.mark name)
  challenges := Finset.eq_empty_of_forall_notMem fun token => h (.challenge token)
  verified row hm := by
    by_contra howed
    exact h (.unverified row.hostname row.id) ⟨row, hm, rfl, rfl, by simpa using howed⟩

/-- Where a certificate is stored only for a hostname that is still a domain, and a domain is
added only where no older check of it is under way, a server at rest has nothing left over. -/
theorem nothing_left (s : Server) (h : machine.Reaches ok s) (hidle : s.Idle) : Clean s.world :=
  clean_of_none fun _ => (covered h).idle hidle

/-- A server with no domains. -/
def empty : Server := ⟨{ baseDomain := "tunlit.dev", managesTls := true }, []⟩

theorem empty_loaded : Loaded empty where
  calls := rfl
  rows := nofun
  extra name hm := absurd hm (Finset.notMem_empty name)
  certificates name hm := absurd hm (Finset.notMem_empty name)
  issuing := rfl
  challenges := rfl

/-- A domain is added and gets its certificate; it is removed, and added once more. -/
def removed : List (Event Request Input) :=
  [.call (.add "shop.org" "shop"), .resume 0 .done, .resume 0 (.looked true false),
    .resume 0 .done, .resume 0 (.challenge "token"), .call (.check "shop.org"), .resume 0 .done,
    .resume 0 .done, .resume 0 .done, .resume 0 .done, .call (.remove "shop.org"),
    .resume 2 .done, .resume 2 .done, .call (.add "shop.org" "shop"), .resume 3 .done,
    .resume 3 (.looked false false), .resume 3 .done]

theorem nothing_left_removed : ∃ s, machine.Reaches ok s ∧ s.Idle ∧ Clean s.world ∧
    s.world.rows.map Row.id = [1] := by
  have hrun : (machine.exec empty removed).any (fun s =>
      decide (s.Idle ∧ s.world.rows.map Row.id = [1])) = true := by decide
  obtain ⟨s, hexec, hs⟩ := (Option.any_eq_true _ _).mp hrun
  have hallowed : machine.Allowed ok empty removed := by decide
  have hreach : machine.Reaches ok s :=
    (Machine.Reaches.init empty_loaded).exec removed hallowed hexec
  obtain ⟨hidle, hrows⟩ := of_decide_eq_true hs
  exact ⟨s, hreach, hidle, nothing_left s hreach hidle, hrows⟩

/-- A domain is removed while its certificate is ordered. -/
def meanwhile : List (Event Request Input) :=
  [.call (.add "shop.org" "shop"), .resume 0 .done, .resume 0 (.looked true false),
    .resume 0 .done, .call (.remove "shop.org"), .resume 1 .done, .resume 1 .done,
    .resume 0 .done, .resume 0 .done, .resume 0 .done, .resume 0 .done]

theorem certificate_left : ∃ s, machine.Reachable s ∧ s.Idle ∧ ¬ Clean s.world := by
  have hrun : (machine.exec empty meanwhile).any (fun s =>
      decide (s.Idle ∧ "shop.org" ∈ s.world.extra ∧ ¬ s.world.Known "shop.org")) = true := by
    decide
  obtain ⟨s, hexec, hs⟩ := (Option.any_eq_true _ _).mp hrun
  have hreach : machine.Reachable s :=
    (Machine.Reachable.init empty_loaded).exec meanwhile hexec
  obtain ⟨hidle, hextra, hnot⟩ := of_decide_eq_true hs
  exact ⟨s, hreach, hidle, fun h => hnot (h.extra _ hextra)⟩

end Tunlit.Tls.Domains
