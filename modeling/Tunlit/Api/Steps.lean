import Tunlit.Api.Turns
import Tunlit.Registry.Occupants

/-! # What a step does to the world

The inversion of a step, and what it leaves of the registry: names are given only by calls
of `register` that return, and a tunnel keeps its id and its account. -/
namespace Tunlit.Api.Steps
open Function Tunlit.Lib.Insertion Tunlit.Lib.Leases Tunlit.Lib.Runs Tunlit.Access.Policy
  Tunlit.Registry.State Tunlit.Registry.Register Tunlit.Registry.Leases Tunlit.Registry.Steps
  Tunlit.Registry.Reach Tunlit.Registry.Fields Tunlit.Registry.Calls Tunlit.Registry.Holders
  Tunlit.Registry.Occupants Tunlit.Api.Tables Tunlit.Api.Calls Tunlit.Api.System Tunlit.Api.Turns

/-- Events of the registry that take no call on and come from no call of the API. -/
def isPlain : Registry.System.Event → Bool
  | .register .. | .proceed .. | .closeCredential _ | .updateAccess .. | .applyLive .. |
    .setPersistent .. => false
  | _ => true

/-- The session whose `register` call an event takes on, and the event it is for the registry. -/
def turnFor (s : Server) : Event → Option (SessionRef × Registry.System.Event)
  | .register x request draw _ => some (x, .register x request draw)
  | .proceed x draw _ => some (x, .proceed x (s.answers x) draw)
  | _ => none

/-- The job that an event takes on, none inside where it begins a call. -/
def jobFor (s : Server) : Event → Option (Option Job)
  | .call _ _ => some none
  | .goOn j _ => (s.jobs j).map some
  | _ => none

theorem job_of_jobFor {s : Server} {e : Event} {job : Job} (h : jobFor s e = some (some job)) :
    ∃ j hash, e = .goOn j hash ∧ s.jobs j = some job := by
  cases e with
  | goOn j hash =>
    obtain ⟨job', hj, he⟩ := Option.map_eq_some_iff.mp h
    cases he
    exact ⟨j, hash, rfl, hj⟩
  | _ => cases h

/-- What a step can do to the world. -/
inductive Moves (s : Server) (e : Event) : World → Prop
  | idle (ht : turnFor s e = none) : Moves s e s.world
  | plain {he hub} (hp : isPlain he = true) (h : Registry.System.step s.world.hub he = some hub) :
      Moves s e (s.world.withHub hub)
  | answers {x he hub} (ht : turnFor s e = some (x, he))
      (h : Registry.System.step s.world.hub he = some hub)
      (hp : ∀ call, (hub.sessions x).phase ≠ .registering call) :
      Moves s e (s.world.withHub hub)
  | waits {x he hub call bytes} (ht : turnFor s e = some (x, he))
      (h : Registry.System.step s.world.hub he = some hub)
      (hp : (hub.sessions x).phase = .registering call) :
      Moves s e ((s.world.withHub hub).withTables (issue (s.world.withHub hub) call bytes).1)
  | acts {job world next} (hj : jobFor s e = some job) (h : Acts s.world job world next) :
      Moves s e world
  | account {accountId row tables} (he : e = .putAccount accountId row)
      (h : s.world.tables.putAccount accountId row = some tables) :
      Moves s e (s.world.withTables tables)
  | credential {credential row tables} (he : e = .createCredential credential row)
      (h : s.world.tables.createCredential credential row = some tables) :
      Moves s e (s.world.withTables tables)

variable {s t : Server} {e : Event} {r : TunnelRef} {x : SessionRef} {id : String}

theorem awaiting_moves {he : Registry.System.Event} {hub : Hub} {bytes : Nat}
    (ht : turnFor s e = some (x, he)) (h : Registry.System.step s.world.hub he = some hub) :
    Moves s e (s.awaiting x bytes hub).world := by
  unfold Server.awaiting
  split
  · next call hp => exact .waits ht h hp
  · next hp => exact .answers ht h hp

theorem isPlain_of_isFree {he : Registry.System.Event} (h : isFree s he = true) :
    isPlain he = true := by
  cases he <;> first | rfl | cases h

theorem helloed_moves {answer : Except Failure Role} (h : s.helloed x answer = some t) :
    Moves s e t.world := by
  obtain ⟨hub, hh, rfl⟩ := Option.map_eq_some_iff.mp h
  exact .plain rfl hh

theorem greet_moves (ht : turnFor s e = none) (h : s.greet x = some t) : Moves s e t.world := by
  unfold Server.greet at h
  split at h
  · cases h
  · cases h; exact .idle ht
  · cases h; exact .idle ht
  · exact helloed_moves h
  · cases h; exact .idle ht
  · exact helloed_moves h
  · exact helloed_moves h

/-- The inversion of a step. -/
theorem moves (hs : step s e = some t) : Moves s e t.world := by
  cases e with
  | hub he =>
    rw [step, Option.ite_none_right_eq_some] at hs
    obtain ⟨hf, hs⟩ := hs
    obtain ⟨hub, hh, rfl⟩ := Option.map_eq_some_iff.mp hs
    exact .plain (isPlain_of_isFree hf) hh
  | hello x token =>
    rw [step, Server.startsHello, Option.ite_none_right_eq_some] at hs
    obtain ⟨-, hs⟩ := hs
    cases hs
    exact .idle rfl
  | greet x => exact greet_moves rfl hs
  | register x request draw bytes =>
    obtain ⟨hub, hh, rfl⟩ := Option.map_eq_some_iff.mp hs
    exact awaiting_moves rfl hh
  | proceed x draw bytes =>
    obtain ⟨hub, hh, rfl⟩ := Option.map_eq_some_iff.mp hs
    exact awaiting_moves rfl hh
  | call operation hash =>
    cases hs
    exact .acts rfl (begin_acts operation)
  | goOn j hash =>
    obtain ⟨job, hj, rfl⟩ := Option.map_eq_some_iff.mp hs
    exact .acts (congrArg (Option.map some) hj) goOn_acts
  | putAccount accountId row =>
    obtain ⟨tables, ht, rfl⟩ := Option.map_eq_some_iff.mp hs
    exact .account rfl ht
  | createCredential credential row =>
    obtain ⟨tables, ht, rfl⟩ := Option.map_eq_some_iff.mp hs
    exact .credential rfl ht

/-! ## The registry -/

/-- The hub of a turn, as an event of the registry that takes no call on. -/
theorem acts_effect {w w' : World} {job next : Option Job} (hu : Unused w.hub)
    (h : Acts w job w' next) : ∃ he, turnOf he = none ∧ Effect w.hub he w'.hub := by
  have hquiet : ∀ {hub : Hub}, Quiet w.hub hub → ∃ he, turnOf he = none ∧ Effect w.hub he hub :=
    fun hq => ⟨.sweep, rfl, .other hq⟩
  have hflag : ∀ r b, Quiet w.hub
      (w.hub.onTunnel r fun tunnel => { tunnel with persistent := b }) :=
    fun r b => quiet_onTunnel rfl rfl rfl rfl
  cases h with
  | keeps _ => exact hquiet ((hflag _ _).trans applyLive_quiet)
  | applies => exact hquiet applyLive_quiet
  | dropped _ => exact hquiet (hflag _ _)
  | @closes credential => exact ⟨.closeCredential credential, rfl, step_effect hu rfl⟩
  | updates _ _ _ => exact hquiet quiet_changePolicy
  | updatesBoth _ _ _ => exact hquiet quiet_changePolicy
  | _ => exact hquiet .rfl

theorem turnOf_of_isPlain {he : Registry.System.Event} (h : isPlain he = true) :
    turnOf he = none := by
  cases he <;> first | rfl | cases h

theorem turnOf_of_turnFor {he : Registry.System.Event} (h : turnFor s e = some (x, he)) :
    turnOf he = some x := by
  cases e <;> cases h <;> rfl

/-- Every step is one event for the leases of the registry; it takes a call on if the event
does. -/
theorem effect (hu : Unused s.world.hub) (hs : step s e = some t) :
    ∃ he, Effect s.world.hub he t.world.hub ∧
      ∀ x, turnOf he = some x → turnFor s e = some (x, he) := by
  have hm := moves hs
  generalize t.world = w at hm ⊢
  cases hm with
  | idle _ => exact ⟨.sweep, .other .rfl, fun _ h => by cases h⟩
  | @plain he _ hp h =>
    refine ⟨he, step_effect hu h, fun x hx => ?_⟩
    rw [turnOf_of_isPlain hp] at hx
    cases hx
  | @answers x he _ ht h _ =>
    refine ⟨he, step_effect hu h, fun y hy => ?_⟩
    rw [turnOf_of_turnFor ht] at hy
    exact Option.some.inj hy ▸ ht
  | @waits x he _ _ _ ht h _ =>
    refine ⟨he, step_effect hu h, fun y hy => ?_⟩
    rw [turnOf_of_turnFor ht] at hy
    exact Option.some.inj hy ▸ ht
  | acts _ h =>
    obtain ⟨he, hn, h⟩ := acts_effect hu h
    refine ⟨he, h, fun x hx => ?_⟩
    rw [hn] at hx
    cases hx
  | account _ _ => exact ⟨.sweep, .other .rfl, fun _ h => by cases h⟩
  | credential _ _ => exact ⟨.sweep, .other .rfl, fun _ h => by cases h⟩

theorem basic_step (hb : Basic s.world.hub) (hs : step s e = some t) : Basic t.world.hub := by
  obtain ⟨he, heff, -⟩ := effect hb.unused hs
  exact hb.of_effect heff

theorem basic {ok : Server → Event → Prop} (h : machine.Reaches ok s) : Basic s.world.hub := by
  refine Machine.Reaches.invariant (I := fun s => Basic s.world.hub) h ?_ fun s t e hb _ hs => ?_
  · rintro s ⟨⟨config, hc⟩, -⟩
    exact hc ▸ basic_init config
  · exact basic_step hb hs

/-! ## The tables -/

/-- The definitions after a step. -/
inductive Redefines (s : Server) (e : Event) : OrderedMap String Definition → Prop
  | same : Redefines s e s.world.tables.definitions
  | creates {c counted} (hj : jobFor s e = some (some (.looked c counted false)))
      (hn : s.world.tables.definitions.get c.name = none)
      (ha : s.world.tables.accounts.has c.accountId = true) :
      Redefines s e (s.world.tables.definitions.set c.name ⟨c.accountId, c.policy⟩)
  | saves {name policy} : Redefines s e (s.world.tables.savePolicy name policy).definitions
  | drops {job name} (hj : jobFor s e = some (some job)) (hd : Drops job name) :
      Redefines s e (s.world.tables.definitions.delete name)
  | deletes {accountId} (hj : jobFor s e = some (some (.invitesDestroyed accountId))) :
      Redefines s e (s.world.tables.definitions.filter fun _ row => row.accountId ≠ accountId)

/-- The domains after a step. -/
inductive Redomains (s : Server) (e : Event) : OrderedMap String DomainRow → Prop
  | same : Redomains s e s.world.tables.domains
  | creates {name hostname accountId counted limit}
      (hj : jobFor s e = some (some (.domainsLimited name hostname accountId counted limit)))
      (hl : limit = 0 ∨ counted < limit)
      (hn : s.world.tables.domains.get (World.normalize hostname) = none) :
      Redomains s e
        (s.world.tables.domains.set (World.normalize hostname) ⟨name, accountId⟩)
  | destroys {job hostname next} (hj : jobFor s e = some (some job))
      (hu : Undomains s.world job hostname next) :
      Redomains s e (s.world.tables.domains.delete hostname)
  | deletes {accountId} (hj : jobFor s e = some (some (.invitesDestroyed accountId))) :
      Redomains s e (s.world.tables.domains.filter fun _ row => row.accountId ≠ accountId)

/-- A statement of the registry saves a policy, or only asks. -/
theorem issue_tables (w : World) (call : Call) (bytes : Nat) :
    (issue w call bytes).1 = w.tables ∨ ∃ r, (call.point = .resumeSaved r ∨
      call.point = .policySaved r) ∧
      (issue w call bytes).1 = w.tables.savePolicy (w.hub.heap r).id (w.hub.heap r).policy := by
  unfold issue
  dsimp only
  split
  · next r hp => exact .inr ⟨r, .inl hp, rfl⟩
  · exact .inl rfl
  · exact .inl rfl
  · exact .inl rfl
  · exact .inl rfl
  · exact .inl rfl
  · next r hp => exact .inr ⟨r, .inr hp, rfl⟩
  · exact .inl rfl

theorem definitions_step (hs : step s e = some t) : Redefines s e t.world.tables.definitions := by
  have hm := moves hs
  generalize t.world = w at hm ⊢
  cases hm with
  | idle _ => exact .same
  | plain _ _ => exact .same
  | answers _ _ _ => exact .same
  | @waits x he hub call bytes _ _ _ =>
    rcases issue_tables (s.world.withHub hub) call bytes with h | ⟨r, -, h⟩
    · rw [h]; exact .same
    · rw [h]; exact .saves
  | acts hj h =>
    cases h with
    | creates hn ha => exact .creates hj hn ha
    | saves _ _ => exact .saves
    | drops hd => exact .drops hj hd
    | deletes => exact .deletes hj
    | updatesBoth _ _ _ => exact .saves
    | _ => exact .same
  | account _ h =>
    unfold Database.putAccount at h
    split at h
    · cases h; exact .same
    · split at h <;> cases h
      exact .same
  | credential _ h =>
    unfold Database.createCredential at h
    split at h <;> cases h
    exact .same

theorem domains_step (hs : step s e = some t) : Redomains s e t.world.tables.domains := by
  have hm := moves hs
  generalize t.world = w at hm ⊢
  cases hm with
  | idle _ => exact .same
  | plain _ _ => exact .same
  | answers _ _ _ => exact .same
  | @waits x he hub call bytes _ _ _ =>
    rcases issue_tables (s.world.withHub hub) call bytes with h | ⟨r, -, h⟩
    · rw [h]; exact .same
    · show Redomains s e (issue (s.world.withHub hub) call bytes).1.domains
      rw [h, savePolicy_domains]; exact .same
  | acts hj h =>
    cases h with
    | saves _ _ =>
      show Redomains s e (s.world.tables.savePolicy _ _).domains
      rw [savePolicy_domains]
      exact .same
    | undomains hu => exact .destroys hj hu
    | domains hl hn => exact .creates hj hl hn
    | deletes => exact .deletes hj
    | updatesBoth _ _ _ =>
      show Redomains s e (s.world.tables.savePolicy _ _).domains
      rw [savePolicy_domains]
      exact .same
    | _ => exact .same
  | account _ h =>
    unfold Database.putAccount at h
    split at h
    · cases h; exact .same
    · split at h <;> cases h
      exact .same
  | credential _ h =>
    unfold Database.createCredential at h
    split at h <;> cases h
    exact .same

/-! ## Sessions and tunnels -/

/-- A turn of the API leaves the calls of the registry, and a tunnel its account. -/
structure Beside (hub hub' : Hub) : Prop where
  seated : Seated hub hub'
  accountId : ∀ r, (hub'.heap r).accountId = (hub.heap r).accountId
  nextTunnel : hub'.nextTunnel = hub.nextTunnel
  vacates : Vacates hub hub'

theorem Beside.rfl {hub : Hub} : Beside hub hub := ⟨.rfl, fun _ => .refl _, .refl _, .rfl⟩

theorem Beside.trans {hub hub' hub'' : Hub} (h : Beside hub hub') (h' : Beside hub' hub'') :
    Beside hub hub'' :=
  ⟨h.seated.trans h'.seated, fun r => (h'.accountId r).trans (h.accountId r),
    h'.nextTunnel.trans h.nextTunnel, h.vacates.trans h'.vacates⟩

theorem beside_onTunnel {hub : Hub} {f : Tunnel → Tunnel}
    (h : (f (hub.heap r)).accountId = (hub.heap r).accountId)
    (hs : (f (hub.heap r)).session = (hub.heap r).session)
    (hc : (f (hub.heap r)).credential = (hub.heap r).credential) :
    Beside hub (hub.onTunnel r f) := by
  refine ⟨⟨fun _ => .rfl⟩, fun q => ?_, rfl, vacates_onTunnel fun x hx => ⟨hs ▸ hx, hc⟩⟩
  by_cases hq : q = r
  · subst hq
    simpa only [Hub.onTunnel, update_self] using h
  · simp only [Hub.onTunnel, update_of_ne hq]

theorem beside_changePolicy {hub : Hub} {policy : AccessPolicy} :
    Beside hub (Registry.System.changePolicy hub id r policy) :=
  have h : Beside hub (hub.onTunnel r fun tunnel => { tunnel with policy := policy }) :=
    beside_onTunnel rfl rfl rfl
  ⟨⟨h.seated.seat⟩, h.accountId, h.nextTunnel, vacates_changePolicy⟩

theorem beside_applyLive {hub : Hub} {policy : AccessPolicy} :
    Beside hub (Registry.System.applyLive hub id policy) := by
  unfold Registry.System.applyLive
  split
  · exact .rfl
  · exact beside_changePolicy

theorem remove_nextTunnel {hub : Hub} {reason : String} :
    (hub.remove id reason).nextTunnel = hub.nextTunnel := by
  have hend : ∀ (sessions : List SessionRef) (hub : Hub) reason,
      (hub.endAll sessions reason).nextTunnel = hub.nextTunnel := by
    intro sessions
    induction sessions with
    | nil => exact fun _ _ => rfl
    | cons x sessions ih => exact fun hub reason => ih (hub.endSession x reason) reason
  unfold Hub.remove
  split
  · rfl
  · exact (hend _ _ _).trans (hend _ _ _)

theorem removeAll_nextTunnel {hub : Hub} {reason : String} (tunnels : List TunnelRef) :
    (hub.removeAll tunnels reason).nextTunnel = hub.nextTunnel := by
  induction tunnels generalizing hub with
  | nil => rfl
  | cons r tunnels ih => exact (@ih (hub.remove (hub.heap r).id reason)).trans remove_nextTunnel

theorem acts_beside {w w' : World} {job next : Option Job} (h : Acts w job w' next) :
    Beside w.hub w'.hub := by
  have hflag : ∀ r b, Beside w.hub
      (w.hub.onTunnel r fun tunnel => { tunnel with persistent := b }) :=
    fun _ _ => beside_onTunnel (by rfl) (by rfl) (by rfl)
  cases h with
  | keeps _ => exact (hflag _ _).trans beside_applyLive
  | applies => exact beside_applyLive
  | dropped _ => exact hflag _ _
  | closes =>
    exact ⟨seated_removeAll _ _, (fixed_removeAll _ _).accountId, removeAll_nextTunnel _,
      vacates_removeAll _ _⟩
  | updates _ _ _ => exact beside_changePolicy
  | updatesBoth _ _ _ => exact beside_changePolicy
  | _ => exact .rfl

/-- What a step does to the hub: an event of the registry, or a turn of the API. -/
theorem hub_cases (hs : step s e = some t) :
    (∃ he, Registry.System.step s.world.hub he = some t.world.hub ∧
      ∀ x, turnOf he = some x → turnFor s e = some (x, he)) ∨
    Beside s.world.hub t.world.hub ∧ turnFor s e = none := by
  have hm := moves hs
  generalize t.world = w at hm ⊢
  have hturn : ∀ {x he}, turnFor s e = some (x, he) → ∀ y, turnOf he = some y →
      turnFor s e = some (y, he) := by
    intro x he ht y hy
    rw [turnOf_of_turnFor ht] at hy
    exact Option.some.inj hy ▸ ht
  cases hm with
  | idle ht => exact .inr ⟨.rfl, ht⟩
  | @plain he _ hp h =>
    refine .inl ⟨he, h, fun x hx => ?_⟩
    rw [turnOf_of_isPlain hp] at hx
    cases hx
  | answers ht h _ => exact .inl ⟨_, h, hturn ht⟩
  | waits ht h _ => exact .inl ⟨_, h, hturn ht⟩
  | acts hj h =>
    refine .inr ⟨acts_beside h, ?_⟩
    cases e <;> first | rfl | cases hj
  | account he _ => exact .inr ⟨.rfl, by rw [he]; rfl⟩
  | credential he _ => exact .inr ⟨.rfl, by rw [he]; rfl⟩

theorem Beside.callOf {hub hub' : Hub} (h : Beside hub hub') (y : SessionRef) :
    callOf hub' y = callOf hub y := callOf_of_phase (h.seated.seat y).phase

theorem theirs_step (hb : Basic s.world.hub) (ht : Theirs s.world.hub) (hs : step s e = some t) :
    Theirs t.world.hub := by
  rcases hub_cases hs with ⟨he, h, -⟩ | ⟨h, -⟩
  · exact Registry.Holders.theirs_step hb ht h
  · intro y call r hc hp
    rw [h.accountId, ht y call r (h.callOf y ▸ hc) hp]

theorem theirs {ok : Server → Event → Prop} (h : machine.Reaches ok s) : Theirs s.world.hub := by
  induction h with
  | init h =>
    obtain ⟨⟨config, hc⟩, -⟩ := h
    rw [hc]
    intro y call r hc
    cases hc
  | step hr _ hs ih => exact theirs_step (basic hr) ih hs

theorem accountId_step (hs : step s e = some t) (hr : r < s.world.hub.nextTunnel) :
    (t.world.hub.heap r).accountId = (s.world.hub.heap r).accountId := by
  rcases hub_cases hs with ⟨he, h, -⟩ | ⟨h, -⟩
  · exact Registry.Holders.accountId_step h hr
  · exact h.accountId r

theorem awaiting_hub {bytes : Nat} {hub : Hub} : (s.awaiting x bytes hub).world.hub = hub := by
  unfold Server.awaiting
  split <;> rfl

theorem awaiting_jobs {bytes : Nat} {hub : Hub} : (s.awaiting x bytes hub).jobs = s.jobs := by
  unfold Server.awaiting
  split <;> rfl

theorem awaiting_nextJob {bytes : Nat} {hub : Hub} :
    (s.awaiting x bytes hub).nextJob = s.nextJob := by
  unfold Server.awaiting
  split <;> rfl

theorem awaiting_answers {bytes : Nat} {hub : Hub} {call : Call} (hc : callOf hub x = some call) :
    (s.awaiting x bytes hub).answers = update s.answers x
      (issue (s.world.withHub hub) call bytes).2 := by
  unfold Server.awaiting
  rw [callOf_eq_some.mp hc]

theorem awaiting_answers_ne {bytes : Nat} {hub : Hub} {y : SessionRef} (hy : y ≠ x) :
    (s.awaiting x bytes hub).answers y = s.answers y := by
  unfold Server.awaiting
  split
  · exact update_of_ne hy ..
  · rfl

/-- The event that takes a call on is one of the registry. -/
theorem step_of_turnFor {he : Registry.System.Event} (ht : turnFor s e = some (x, he))
    (hs : step s e = some t) : Registry.System.step s.world.hub he = some t.world.hub := by
  cases e <;> cases ht
  · obtain ⟨hub, hh, rfl⟩ := Option.map_eq_some_iff.mp hs
    exact hh.trans (congrArg some awaiting_hub.symm)
  · obtain ⟨hub, hh, rfl⟩ := Option.map_eq_some_iff.mp hs
    exact hh.trans (congrArg some awaiting_hub.symm)

/-- The place of the call of the API that an event begins or takes on. -/
def slotFor (s : Server) : Event → Option JobRef
  | .call _ _ => some s.nextJob
  | .goOn j _ => some j
  | _ => none

/-- The other calls of the API wait as before. -/
theorem jobs_frame (hs : step s e = some t) :
    (∀ j, slotFor s e ≠ some j → t.jobs j = s.jobs j) ∧ s.nextJob ≤ t.nextJob := by
  cases e with
  | register x request draw bytes =>
    obtain ⟨hub, -, rfl⟩ := Option.map_eq_some_iff.mp hs
    exact ⟨fun j _ => by rw [awaiting_jobs], awaiting_nextJob.ge⟩
  | proceed x draw bytes =>
    obtain ⟨hub, -, rfl⟩ := Option.map_eq_some_iff.mp hs
    exact ⟨fun j _ => by rw [awaiting_jobs], awaiting_nextJob.ge⟩
  | hub he =>
    rw [step, Option.ite_none_right_eq_some] at hs
    obtain ⟨-, hs⟩ := hs
    obtain ⟨hub, -, rfl⟩ := Option.map_eq_some_iff.mp hs
    exact ⟨fun _ _ => rfl, Nat.le_refl _⟩
  | hello x token =>
    rw [step, Server.startsHello, Option.ite_none_right_eq_some] at hs
    obtain ⟨-, hs⟩ := hs
    cases hs
    exact ⟨fun _ _ => rfl, Nat.le_refl _⟩
  | greet x =>
    have hhelloed : ∀ {answer}, s.helloed x answer = some t →
        (∀ j, slotFor s (.greet x) ≠ some j → t.jobs j = s.jobs j) ∧ s.nextJob ≤ t.nextJob := by
      intro answer h
      obtain ⟨hub, -, rfl⟩ := Option.map_eq_some_iff.mp h
      exact ⟨fun _ _ => rfl, Nat.le_refl _⟩
    rw [step, Server.greet] at hs
    split at hs
    · cases hs
    · cases hs; exact ⟨fun _ _ => rfl, Nat.le_refl _⟩
    · cases hs; exact ⟨fun _ _ => rfl, Nat.le_refl _⟩
    · exact hhelloed hs
    · cases hs; exact ⟨fun _ _ => rfl, Nat.le_refl _⟩
    · exact hhelloed hs
    · exact hhelloed hs
  | call operation hash =>
    cases hs
    exact ⟨fun j hj => update_of_ne (fun h => hj (congrArg some h.symm)) .., Nat.le_succ _⟩
  | goOn k hash =>
    obtain ⟨before, -, rfl⟩ := Option.map_eq_some_iff.mp hs
    exact ⟨fun j hj => update_of_ne (fun h => hj (congrArg some h.symm)) .., Nat.le_refl _⟩
  | putAccount accountId row =>
    obtain ⟨tables, -, rfl⟩ := Option.map_eq_some_iff.mp hs
    exact ⟨fun _ _ => rfl, Nat.le_refl _⟩
  | createCredential credential row =>
    obtain ⟨tables, -, rfl⟩ := Option.map_eq_some_iff.mp hs
    exact ⟨fun _ _ => rfl, Nat.le_refl _⟩

theorem jobs_kept {j : JobRef} (hs : step s e = some t) (hj : slotFor s e ≠ some j) :
    t.jobs j = s.jobs j := (jobs_frame hs).1 j hj

/-- A call of the API has begun in this step, or has gone on. -/
inductive Enters (s : Server) (j : JobRef) (job : Job) : Event → Prop
  | begins {operation hash} (hj : j = s.nextJob) (h : Begins s.world hash operation job) :
      Enters s j job (.call operation hash)
  | follows {hash before} (hb : s.jobs j = some before) (h : Follows s.world hash before job) :
      Enters s j job (.goOn j hash)

/-- A call of the API that waits has come there in this step, or waits as before. -/
theorem jobs_step {j : JobRef} {job : Job} (hs : step s e = some t) (hj : t.jobs j = some job) :
    slotFor s e ≠ some j ∧ s.jobs j = some job ∨ Enters s j job e := by
  by_cases hslot : slotFor s e = some j
  · cases e with
    | call operation hash =>
      cases hslot
      cases hs
      simp only [Server.begin, Server.took, update_self] at hj
      exact .inr (.begins rfl (begins hj))
    | goOn k hash =>
      cases hslot
      obtain ⟨before, hb, rfl⟩ := Option.map_eq_some_iff.mp hs
      simp only [Server.took, update_self] at hj
      exact .inr (.follows hb (follows hj))
    | _ => cases hslot
  · exact .inl ⟨hslot, (jobs_kept hs hslot).symm.trans hj⟩

theorem jobs_lt {ok : Server → Event → Prop} (h : machine.Reaches ok s) :
    ∀ j job, s.jobs j = some job → j < s.nextJob := by
  induction h with
  | init h =>
    intro j job hj
    rw [h.2.2.2 j] at hj
    cases hj
  | @step s t e hr _ hs ih =>
    intro j job hj
    have hle := (jobs_frame hs).2
    rcases jobs_step hs hj with ⟨-, hold⟩ | ⟨rfl, -⟩ | ⟨hbefore, -⟩
    · exact Nat.lt_of_lt_of_le (ih j job hold) hle
    · cases hs
      exact Nat.lt_succ_self _
    · exact Nat.lt_of_lt_of_le (ih j _ hbefore) hle

theorem goOn_world {j : JobRef} {hash : String} {job : Job} (hs : step s (.goOn j hash) = some t)
    (hj : s.jobs j = some job) : t.world = (s.world.goOn hash job).1 := by
  rw [step, Server.goOn, hj] at hs
  cases hs
  rfl

theorem goOn_jobs {j : JobRef} {hash : String} {job : Job} (hs : step s (.goOn j hash) = some t)
    (hj : s.jobs j = some job) : t.jobs j = (s.world.goOn hash job).2 := by
  rw [step, Server.goOn, hj] at hs
  cases hs
  exact update_self ..

theorem turnFor_of_jobFor {job : Option Job} (h : jobFor s e = some job) : turnFor s e = none := by
  cases e <;> first | rfl | cases h

/-- A call that waits has come there in this step and issued its statement, or waits as before. -/
theorem waiting_step {y : SessionRef} {call : Call} (hs : step s e = some t)
    (hc : callOf t.world.hub y = some call) :
    (callOf s.world.hub y = some call ∧ t.answers y = s.answers y ∧
      ∀ he, turnFor s e ≠ some (y, he)) ∨
    ∃ he bytes, turnFor s e = some (y, he) ∧ Comes s.world.hub y he t.world.hub call ∧
      t.answers y = (issue (s.world.withHub t.world.hub) call bytes).2 := by
  have hawaits : ∀ {x he bytes hub}, turnFor s e = some (x, he) →
      Registry.System.step s.world.hub he = some hub → t = s.awaiting x bytes hub →
      (callOf s.world.hub y = some call ∧ t.answers y = s.answers y ∧
        ∀ he, turnFor s e ≠ some (y, he)) ∨
      ∃ he bytes, turnFor s e = some (y, he) ∧ Comes s.world.hub y he t.world.hub call ∧
        t.answers y = (issue (s.world.withHub t.world.hub) call bytes).2 := by
    intro x he bytes hub ht h heq
    subst heq
    rw [awaiting_hub] at hc ⊢
    obtain ⟨-, htakes⟩ := takes (turnOf_of_turnFor ht) h
    by_cases hy : y = x
    · subst hy
      exact .inr ⟨he, bytes, ht, comes htakes hc, by rw [awaiting_answers hc, update_self]⟩
    · refine .inl ⟨(callOf_takes htakes hy).symm.trans hc, awaiting_answers_ne hy, fun he' h => ?_⟩
      rw [ht] at h
      cases h
      exact hy rfl
  have hother : turnFor s e = none → t.answers y = s.answers y →
      callOf s.world.hub y = some call ∧ t.answers y = s.answers y ∧
        ∀ he, turnFor s e ≠ some (y, he) := by
    intro hn ha
    refine ⟨?_, ha, fun he h => by rw [hn] at h; cases h⟩
    rcases hub_cases hs with ⟨he, h, hturn⟩ | ⟨h, -⟩
    · refine callOf_other ?_ h hc
      cases hx : turnOf he with
      | none => rfl
      | some x => rw [hturn x hx] at hn; cases hn
    · exact (h.callOf y).symm.trans hc
  cases e with
  | register x request draw bytes =>
    obtain ⟨hub, hh, heq⟩ := Option.map_eq_some_iff.mp hs
    exact hawaits rfl hh heq.symm
  | proceed x draw bytes =>
    obtain ⟨hub, hh, heq⟩ := Option.map_eq_some_iff.mp hs
    exact hawaits rfl hh heq.symm
  | hub he =>
    refine .inl (hother rfl ?_)
    rw [step, Option.ite_none_right_eq_some] at hs
    obtain ⟨-, hs⟩ := hs
    obtain ⟨hub, hh, rfl⟩ := Option.map_eq_some_iff.mp hs
    rfl
  | hello x token =>
    refine .inl (hother rfl ?_)
    rw [step, Server.startsHello, Option.ite_none_right_eq_some] at hs
    obtain ⟨-, hs⟩ := hs
    cases hs
    rfl
  | greet x =>
    refine .inl (hother rfl ?_)
    have hhelloed : ∀ {answer}, s.helloed x answer = some t → t.answers y = s.answers y := by
      intro answer h
      obtain ⟨hub, hh, rfl⟩ := Option.map_eq_some_iff.mp h
      rfl
    rw [step, Server.greet] at hs
    split at hs
    · cases hs
    · cases hs; rfl
    · cases hs; rfl
    · exact hhelloed hs
    · cases hs; rfl
    · exact hhelloed hs
    · exact hhelloed hs
  | call operation hash => cases hs; exact .inl (hother rfl rfl)
  | goOn j hash =>
    obtain ⟨job, -, rfl⟩ := Option.map_eq_some_iff.mp hs
    exact .inl (hother rfl rfl)
  | putAccount accountId row =>
    obtain ⟨tables, -, rfl⟩ := Option.map_eq_some_iff.mp hs
    exact .inl (hother rfl rfl)
  | createCredential credential row =>
    obtain ⟨tables, -, rfl⟩ := Option.map_eq_some_iff.mp hs
    exact .inl (hother rfl rfl)

/-- Only one call is taken on. -/
theorem comes_unique {y : SessionRef} {he he' : Registry.System.Event} {hub : Hub}
    {call call' : Call} (ht : turnFor s e = some (x, he)) (ht' : turnFor s e = some (y, he'))
    (h : Comes s.world.hub x he hub call) (h' : Comes s.world.hub y he' hub call') :
    x = y ∧ call = call' := by
  rw [ht] at ht'
  cases ht'
  exact ⟨rfl, Option.some.inj (h.waiting.symm.trans h'.waiting)⟩

/-- A name is given only by a call of `register` that returns. -/
theorem registered_step (hb : Basic s.world.hub) (hs : step s e = some t)
    (h : t.world.hub.tunnels.get id = some r) : s.world.hub.tunnels.get id = some r ∨
      ∃ x he call, turnFor s e = some (x, he) ∧ Comes s.world.hub x he t.world.hub call ∧
        call.point = .returned r false := by
  obtain ⟨he, heff, hturn⟩ := effect hb.unused hs
  have hn : (leases t.world.hub).slot id = some r := h
  refine (slot_step heff hn).imp_right ?_
  rintro ⟨x, hx, hp, -⟩
  rw [pointOf_eq_callOf] at hp
  obtain ⟨call, hc, hp⟩ := Option.map_eq_some_iff.mp hp
  rcases waiting_step hs hc with ⟨-, -, hno⟩ | ⟨he', _, ht, hcomes, -⟩
  · exact absurd (hturn x hx) (hno he)
  · exact ⟨x, he', call, ht, hcomes, hp⟩

/-! ## Who is attached -/

theorem seats_step (hb : Basic s.world.hub) (h : Seats s.world.hub) (hs : step s e = some t) :
    Seats t.world.hub := by
  rcases hub_cases hs with ⟨he, hstep, -⟩ | ⟨hbeside, -⟩
  · exact Registry.Occupants.seats_step hb h hstep
  · obtain ⟨he, heff, -⟩ := effect hb.unused hs
    exact h.of_vacates hbeside.seated (nextSession_le heff) hbeside.vacates

theorem seats {ok : Server → Event → Prop} (h : machine.Reaches ok s) : Seats s.world.hub := by
  induction h with
  | init h =>
    obtain ⟨⟨config, hc⟩, -⟩ := h
    exact hc ▸ seats_init config
  | step hr _ hs ih => exact seats_step (basic hr) ih hs

/-- A call that returns a tunnel. -/
def Returns (s : Server) (e : Event) (t : Server) (x : SessionRef) (r : TunnelRef) : Prop :=
  ∃ he call resumed, turnFor s e = some (x, he) ∧ Comes s.world.hub x he t.world.hub call ∧
    call.point = .returned r resumed

/-- A tunnel has had its session before, or a call of that session has just returned it. -/
theorem session_step (hs : step s e = some t) (hx : (t.world.hub.heap r).session = some x) :
    (s.world.hub.heap r).session = some x ∨ Returns s e t x r := by
  rcases hub_cases hs with ⟨he, hstep, hturn⟩ | ⟨hbeside, -⟩
  · rcases occupied_step hstep hx with ⟨hold, -⟩ | ⟨call, resumed, hturned, hc, hp, -⟩
    · exact .inl hold
    · exact .inr ⟨he, call, resumed, hturn x hturned, comes (takes hturned hstep).2 hc, hp⟩
  · exact .inl (hbeside.vacates.vacates r x hx).1

theorem Returns.returning {y : SessionRef} {he : Registry.System.Event} {owner : Owner}
    (hs : step s e = some t) (h : Returns s e t x r) (hy : turnFor s e = some (y, he))
    (ho : ownerOf t.world.hub x = some owner) :
    y = x ∧ (returning s.world.hub he).isSome ∧ ownerOf s.world.hub x = some owner := by
  obtain ⟨he', call, resumed, ht, hc, hp⟩ := h
  rw [ht] at hy
  cases hy
  have hstep := step_of_turnFor ht hs
  have hpoint : pointOf t.world.hub x = some (.returned r resumed) := by
    rw [pointOf_eq_callOf, hc.waiting, ← hp]
    rfl
  have hq := (returning_eq_some (q := ⟨x, r, (t.world.hub.heap r).id, resumed⟩) hstep).mpr
    ⟨turnOf_of_turnFor ht, hpoint, rfl⟩
  exact ⟨rfl, by rw [hq]; rfl, ownerOf_of_comes hstep (turnOf_of_turnFor ht) hc ho⟩

/-- The owner of an attached session was one before, or their call has just returned. -/
theorem attached_step {owner : Owner} (hb : Basic s.world.hub) (h : Seats s.world.hub)
    (hs : step s e = some t) (ho : owner ∈ attached t.world.hub) :
    owner ∈ attached s.world.hub ∨ ∃ x r, Returns s e t x r ∧
      ownerOf t.world.hub x = some owner := by
  obtain ⟨id, r, x, hr, hx, howner⟩ := mem_attached.mp ho
  rcases session_step hs hx with hold | hnew
  · rcases registered_step hb hs hr with hreg | ⟨y, he, call, ht, hc, hp⟩
    · obtain ⟨owner', ho', -⟩ := h.credential r x hold
      have hkept : ownerOf t.world.hub x = some owner' := by
        rcases hub_cases hs with ⟨he, hstep, -⟩ | ⟨hbeside, -⟩
        · exact (stays hstep).stays (h.known x owner' ho') owner' ho'
        · exact (congrArg phaseOwner (hbeside.seated.seat x).phase).trans ho'
      obtain rfl := Option.some.inj (howner.symm.trans hkept)
      exact .inl (mem_attached.mpr ⟨id, r, x, hreg, hold, ho'⟩)
    · obtain rfl := Option.some.inj (hx.symm.trans (hc.session hp))
      exact .inr ⟨x, r, ⟨he, call, false, ht, hc, hp⟩, howner⟩
  · exact .inr ⟨x, r, hnew, howner⟩

end Tunlit.Api.Steps
