import Tunlit.Api.Steps

/-! # How many tunnels, names and domains an account has

`register`, `create` and `addDomain` each count first, ask the database for the limit, wait
for more, and insert in the end. The history keeps how many tunnels a call of `register` has
counted; the calls of the API carry their count along. -/
namespace Tunlit.Api.Quotas
open Function Tunlit.Lib.Insertion Tunlit.Lib.Runs Tunlit.Registry.Names Tunlit.Registry.State
  Tunlit.Registry.Register
  Tunlit.Registry.Leases Tunlit.Registry.Steps Tunlit.Registry.Reach Tunlit.Registry.Calls
  Tunlit.Registry.Holders Tunlit.Api.Tables Tunlit.Api.Calls Tunlit.Api.System Tunlit.Api.Turns
  Tunlit.Api.Steps

structure History where
  server : Server
  counted : SessionRef → Nat

namespace History

variable (h : History)

def world : World := h.server.world

/-- What the calls of `register` have counted when the server has come to `t`. -/
def count (t : Server) (x : SessionRef) : Nat :=
  match pointOf t.world.hub x with
  | some (.tunnels n) => n
  | _ => h.counted x

end History

def step (h : History) (e : Event) : Option History :=
  (System.step h.server e).map fun t => ⟨t, h.count t⟩

def machine : Machine History Event where
  init h := System.machine.init h.server
  step := step

/-! ## The check of `register` -/

/-- The call has passed the check and has no tunnel yet. -/
def asksFor : Point → Bool
  | .traffic | .usage _ | .named .. | .random .. | .policySaved _ => true
  | .resumeSaved _ | .tunnels _ | .returned .. => false

variable {hub hub' : Hub} {x : SessionRef} {call : Call} {draw : Draw} {p : Point}

theorem drawId_point {previous : Option ShareCode} {left : Nat} {ids : List RandomId}
    (h : drawId hub previous left ids = some (.waits p)) : asksFor p = true := by
  induction left generalizing ids with
  | zero => cases h
  | succ left ih =>
    cases ids with
    | nil => cases h
    | cons id ids =>
      unfold drawId at h
      split at h
      · cases h; rfl
      · exact ih h

theorem allocateId_point (h : allocateId hub call draw = some (.waits p)) : asksFor p = true := by
  simp only [allocateId] at h
  split at h
  · exact drawId_point h
  · exact drawId_point h
  · split at h <;> cases h
    rfl

theorem construct_point {previous : Option ShareCode} {id : String}
    {definition : Option Definition}
    (h : construct hub x call previous id definition draw = (hub', .waits p)) :
    ∀ n, p ≠ .tunnels n := by
  unfold construct at h
  split at h
  · cases h
  · simp only at h
    split at h <;> cases h <;> exact fun n hn => by cases hn

/-- A call gets past the check only below the limit, and a new tunnel only past the check. -/
theorem proceed_point {answer : Answer}
    (h : Registry.Register.proceed hub x call answer draw = some (hub', .waits p)) :
    (∀ n, p ≠ .tunnels n) ∧ (asksFor p = true ∨ (∃ r, p = .returned r false) →
      asksFor call.point = true ∨
        ∃ n l, call.point = .tunnels n ∧ answer = .limit l ∧ (l ≠ 0 → n < l)) := by
  have hasks : asksFor p = true → ∀ n, p ≠ .tunnels n := by rintro hp n rfl; cases hp
  unfold Registry.Register.proceed at h
  split at h
  -- returned
  · cases h
  -- rejected
  · cases h
  -- resumeSaved
  · cases h
    refine ⟨fun n hn => (by cases hn), ?_⟩
    rintro (hp | ⟨r, hp⟩) <;> cases hp
  -- tunnels
  · next n l hp =>
    split at h <;> cases h
    next hl =>
    refine ⟨fun n hn => (by cases hn), fun _ => .inr ⟨n, l, hp, rfl, fun h0 => ?_⟩⟩
    simp only [Bool.and_eq_true, decide_eq_true_eq, not_and, not_le] at hl
    exact hl h0
  -- traffic
  · next hp =>
    refine ⟨?_, fun _ => .inl (by rw [hp]; rfl)⟩
    split at h
    · cases h
      exact fun n hn => by cases hn
    · obtain ⟨o, ho, h⟩ := Option.map_eq_some_iff.mp h
      cases h
      exact hasks (allocateId_point ho)
  -- usage
  · next hp =>
    refine ⟨?_, fun _ => .inl (by rw [hp]; rfl)⟩
    split at h
    · cases h
    · obtain ⟨o, ho, h⟩ := Option.map_eq_some_iff.mp h
      cases h
      exact hasks (allocateId_point ho)
  -- named
  · next hp =>
    refine ⟨?_, fun _ => .inl (by rw [hp]; rfl)⟩
    split at h
    · cases h
    · exact construct_point (Option.some.inj h)
  -- random
  · next hp =>
    refine ⟨?_, fun _ => .inl (by rw [hp]; rfl)⟩
    split at h
    · obtain ⟨o, ho, h⟩ := Option.map_eq_some_iff.mp h
      cases h
      exact hasks (drawId_point ho)
    · exact construct_point (Option.some.inj h)
  -- policySaved
  · next hp =>
    cases h
    exact ⟨fun n hn => (by cases hn), fun _ => .inl (by rw [hp]; rfl)⟩
  · cases h

/-! ## The run -/

variable {s t : Server} {e : Event} {a : AccountId} {limits : Limits}

/-- A step gives an account at most one tunnel more, and only when one of its calls returns. -/
theorem owned_step (hb : Basic s.world.hub) (ht : Theirs s.world.hub) (hs : System.step s e = some t) :
    owned t.world.hub a ≤ owned s.world.hub a ∨
      owned t.world.hub a ≤ owned s.world.hub a + 1 ∧ ∃ x he call r, turnFor s e = some (x, he) ∧
        Comes s.world.hub x he t.world.hub call ∧ call.point = .returned r false ∧
        call.owner.account.id = a := by
  have hold : ∀ id r, s.world.hub.tunnels.get id = some r →
      (t.world.hub.heap r).accountId = a → (s.world.hub.heap r).accountId = a :=
    fun id r h ha => (accountId_step hs (lt_of_registered hb h)).symm.trans ha
  by_cases hnew : ∃ id r, t.world.hub.tunnels.get id = some r ∧
      s.world.hub.tunnels.get id ≠ some r ∧ (t.world.hub.heap r).accountId = a
  · obtain ⟨id, r, hr, hn, ha⟩ := hnew
    obtain ⟨x, he, call, hturn, hcomes, hp⟩ := (registered_step hb hs hr).resolve_left hn
    have hacc := hcomes.account ht (.inr hp)
    refine .inr ⟨?_, x, he, call, r, hturn, hcomes, hp, hacc.symm.trans ha⟩
    -- a second new entry has the same tunnel, so the same id
    have hb' := basic_step hb hs
    refine OrderedMap.tally_le_succ (k := id) fun id' r' hid hr' ha' => ?_
    rcases registered_step hb hs hr' with h | ⟨x', he', call', hturn', hcomes', hp'⟩
    · exact ⟨r', h, decide_eq_true (hold id' r' h (of_decide_eq_true ha'))⟩
    · obtain ⟨rfl, rfl⟩ := comes_unique hturn hturn' hcomes hcomes'
      rw [hp] at hp'
      cases hp'
      exact absurd ((hb'.sound.named id' r hr').1.symm.trans (hb'.sound.named id r hr).1) hid
  · refine .inl (OrderedMap.tally_le fun id r hr hp => ?_)
    have hsame : s.world.hub.tunnels.get id = some r :=
      by_contra fun hn => hnew ⟨id, r, hr, hn, of_decide_eq_true hp⟩
    exact ⟨r, hsame, decide_eq_true (hold id r hsame (of_decide_eq_true hp))⟩

/-- What a suspended call of the API carries agrees with the limits. -/
def JobWithin (a : AccountId) (limits : Limits) : Job → Prop
  | .limited c _ limit => c.accountId = a → limit = limits.persistent
  | .looked c counted _ => c.accountId = a → limits.persistent ≠ 0 → counted < limits.persistent
  | .domainsLimited _ _ accountId _ limit => accountId = a → limit = limits.domains
  | _ => True

structure Within (a : AccountId) (limits : Limits) (h : History) : Prop where
  tunnels : limits.tunnels ≠ 0 → owned h.world.hub a ≤ limits.tunnels
  persistent : limits.persistent ≠ 0 → h.world.tables.persistentCount a ≤ limits.persistent
  domains : limits.domains ≠ 0 → h.world.tables.domainCount a ≤ limits.domains
  waiting : ∀ x call n, callOf h.world.hub x = some call → call.owner.account.id = a →
    call.point = .tunnels n → h.server.answers x = .limit limits.tunnels ∧ h.counted x = n
  checked : ∀ x call, callOf h.world.hub x = some call → call.owner.account.id = a →
    asksFor call.point = true → limits.tunnels ≠ 0 → h.counted x < limits.tunnels
  jobs : ∀ j job, h.server.jobs j = some job → JobWithin a limits job

section
variable {w : World} {hash : String} {before job : Job}

theorem begin_within {operation : Operation} (h : Begins w hash operation job) :
    JobWithin a limits job := by
  cases h <;> trivial

/-- A call of the API carries the limit that it has asked for, and goes on only below it. -/
theorem goOn_within (hl : w.tables.limitsFor a = limits) (hb : JobWithin a limits before)
    (h : Follows w hash before job) : JobWithin a limits job := by
  cases h with
  | limited => rintro rfl; rw [hl]
  | looked hlimit =>
    intro hc h0
    rw [hb hc] at hlimit
    exact hlimit.resolve_left h0
  | domainsLimited => rintro rfl; rw [hl]
  | undomains hj => cases hj <;> trivial
  | _ => trivial

end

/-- The limits of the account are these. -/
def Limited (a : AccountId) (limits : Limits) (h : History) : Prop :=
  h.world.tables.limitsFor a = limits

instance (h : History) : Decidable (Limited a limits h) :=
  inferInstanceAs (Decidable (_ = _))

/-- A call of the API that inserts has counted no fewer rows than there are. -/
def JobOnTime (a : AccountId) (w : World) : Job → Prop
  | .looked c counted false => c.accountId = a → w.tables.persistentCount a ≤ counted
  | .domainsLimited _ _ accountId counted _ => accountId = a → w.tables.domainCount a ≤ counted
  | _ => True

instance (w : World) : ∀ job, Decidable (JobOnTime a w job)
  | .looked c counted false =>
    inferInstanceAs (Decidable (c.accountId = a → w.tables.persistentCount a ≤ counted))
  | .domainsLimited _ _ accountId counted _ =>
    inferInstanceAs (Decidable (accountId = a → w.tables.domainCount a ≤ counted))
  | .looked _ _ true | .listed .. | .named .. | .limited .. | .stored .. | .reread .. |
    .loaded .. | .saved .. | .accessSaved _ | .hostDestroyed .. | .hostForgotten .. | .dropped _ |
    .domainsCounted .. | .domainStored .. | .domainDestroyed _ | .accountFound .. |
    .adminsCounted .. | .sessionsDestroyed _ | .devicesDestroyed _ | .invitesDestroyed _ |
    .accountDestroyed _ | .credentialFound .. | .revoked _ => isTrue trivial

/-- What a call that inserts has counted is no less than there is: nothing has been inserted
for the account since, or as much has been removed. -/
def OnTime (a : AccountId) (h : History) (e : Event) : Prop :=
  (∀ p ∈ turnFor h.server e, ∀ call ∈ callOf h.world.hub p.1, call.owner.account.id = a →
    ∀ q ∈ returning h.world.hub p.2, q.resumed = false → owned h.world.hub a ≤ h.counted p.1) ∧
  ∀ job ∈ (jobFor h.server e).join, JobOnTime a h.world job

instance (h : History) (e : Event) : Decidable (OnTime a h e) :=
  inferInstanceAs (Decidable (_ ∧ _))

/-! ## Inserting -/

/-- A step gives an account at most one definition more, and only where `create` inserts. -/
theorem persistentCount_step (hs : System.step s e = some t) :
    t.world.tables.persistentCount a ≤ s.world.tables.persistentCount a ∨
      t.world.tables.persistentCount a ≤ s.world.tables.persistentCount a + 1 ∧
      ∃ c counted, jobFor s e = some (some (.looked c counted false)) ∧ c.accountId = a := by
  have hd := definitions_step hs
  show count t.world.tables.definitions _ a ≤ count s.world.tables.definitions _ a ∨
    count t.world.tables.definitions _ a ≤ count s.world.tables.definitions _ a + 1 ∧ _
  generalize t.world.tables.definitions = definitions at hd ⊢
  cases hd with
  | same => exact .inl (Nat.le_refl _)
  | @creates c counted hj hn _ =>
    by_cases ha : c.accountId = a
    · refine .inr ⟨OrderedMap.tally_le_succ (k := c.name) fun q d hq hd hp => ?_, c, counted, hj, ha⟩
      rw [OrderedMap.get_set, if_neg (Ne.symm hq)] at hd
      exact ⟨d, hd, hp⟩
    · refine .inl (OrderedMap.tally_le fun q d hd hp => ?_)
      rw [OrderedMap.get_set] at hd
      split at hd
      · cases hd
        exact absurd (of_decide_eq_true hp) ha
      · exact ⟨d, hd, hp⟩
  | @saves name policy =>
    refine .inl (OrderedMap.tally_le fun q d hd hp => ?_)
    rw [get_savePolicy] at hd
    obtain ⟨d', hd', rfl⟩ := Option.map_eq_some_iff.mp hd
    refine ⟨d', hd', ?_⟩
    split at hp <;> exact hp
  | drops _ _ =>
    refine .inl (OrderedMap.tally_le fun q d hd hp => ⟨d, ?_, hp⟩)
    rw [OrderedMap.get_delete] at hd
    split at hd
    · cases hd
    · exact hd
  | deletes _ =>
    exact .inl (OrderedMap.tally_le fun q d hd hp =>
      ⟨d, (OrderedMap.get_filter_eq_some.mp hd).1, hp⟩)

/-- A step gives an account at most one domain more, and only where `addDomain` inserts. -/
theorem domainCount_step (hs : System.step s e = some t) :
    t.world.tables.domainCount a ≤ s.world.tables.domainCount a ∨
      t.world.tables.domainCount a ≤ s.world.tables.domainCount a + 1 ∧
      ∃ name hostname counted limit, (limit = 0 ∨ counted < limit) ∧
        jobFor s e = some (some (.domainsLimited name hostname a counted limit)) := by
  have hd := domains_step hs
  show count t.world.tables.domains _ a ≤ count s.world.tables.domains _ a ∨
    count t.world.tables.domains _ a ≤ count s.world.tables.domains _ a + 1 ∧ _
  generalize t.world.tables.domains = domains at hd ⊢
  cases hd with
  | same => exact .inl (Nat.le_refl _)
  | @creates name hostname accountId counted limit hj hl hn =>
    by_cases ha : accountId = a
    · subst ha
      refine .inr ⟨OrderedMap.tally_le_succ (k := World.normalize hostname) fun q d hq hd hp => ?_,
        name, hostname, counted, limit, hl, hj⟩
      rw [OrderedMap.get_set, if_neg (Ne.symm hq)] at hd
      exact ⟨d, hd, hp⟩
    · refine .inl (OrderedMap.tally_le fun q d hd hp => ?_)
      rw [OrderedMap.get_set] at hd
      split at hd
      · cases hd
        exact absurd (of_decide_eq_true hp) ha
      · exact ⟨d, hd, hp⟩
  | destroys _ _ =>
    refine .inl (OrderedMap.tally_le fun q d hd hp => ⟨d, ?_, hp⟩)
    rw [OrderedMap.get_delete] at hd
    split at hd
    · cases hd
    · exact hd
  | deletes _ =>
    exact .inl (OrderedMap.tally_le fun q d hd hp =>
      ⟨d, (OrderedMap.get_filter_eq_some.mp hd).1, hp⟩)

/-! ## Staying within the limits -/

variable {g h : History}

theorem server_step (hs : step h e = some g) :
    System.step h.server e = some g.server ∧ g.counted = h.count g.server := by
  obtain ⟨t, ht, rfl⟩ := Option.map_eq_some_iff.mp hs
  exact ⟨ht, rfl⟩

theorem server_reaches {ok : History → Event → Prop} (hr : machine.Reaches ok h) :
    System.Reachable h.server := by
  induction hr with
  | init hi => exact .init hi
  | step _ _ hs ih => exact ih.step (server_step hs).1

theorem counted_of_asksFor {call : Call} (hg : g.counted = h.count g.server)
    (hc : callOf g.world.hub x = some call) (hp : ∀ n, call.point ≠ .tunnels n) :
    g.counted x = h.counted x := by
  have hpoint : pointOf g.server.world.hub x = some call.point := by
    rw [pointOf_eq_callOf]
    exact congrArg (Option.map Call.point) hc
  rw [hg, History.count, hpoint]
  split
  · next n hn => exact absurd (Option.some.inj hn) (hp n)
  · rfl

/-- A call that has passed the check had counted less than the limit. -/
theorem Within.passed (hw : Within a limits h) {he : Registry.System.Event} {call : Call}
    (ht : turnFor h.server e = some (x, he)) (hc : Comes h.world.hub x he hub call)
    (ha : call.owner.account.id = a)
    (hp : asksFor call.point = true ∨ ∃ r, call.point = .returned r false)
    (h0 : limits.tunnels ≠ 0) : h.counted x < limits.tunnels ∧
      ∃ before ∈ callOf h.world.hub x, before.owner.account.id = a := by
  cases hc with
  | begins _ _ hstart =>
    rcases start_point hstart with hq | ⟨r, hq | hq⟩ <;> rw [hq] at hp <;> simp [asksFor] at hp
  | @goesOn answer draw before hub₁ p hbefore hproceed =>
    refine ⟨?_, before, hbefore, ha⟩
    have hanswer : answer = h.server.answers x := by
      cases e <;> cases ht
      rfl
    rcases (proceed_point hproceed).2 hp with hq | ⟨n, l, hq, hl, hlt⟩
    · exact hw.checked x before hbefore ha hq h0
    · obtain ⟨hlimit, hn⟩ := hw.waiting x before n hbefore ha hq
      rw [hn]
      rw [hanswer, hlimit] at hl
      cases hl
      exact hlt h0

theorem Within.step (hr : System.Reachable h.server) (hw : Within a limits h)
    (hl : Limited a limits h) (ho : OnTime a h e) (hs : step h e = some g) :
    Within a limits g := by
  obtain ⟨hs, hg⟩ := server_step hs
  have hb := basic hr
  have hth := theirs hr
  constructor
  case tunnels =>
    intro h0
    rcases owned_step (a := a) hb hth hs with hle | ⟨hle, x, he, call, r, ht, hc, hp, ha⟩
    · exact hle.trans (hw.tunnels h0)
    · obtain ⟨hlt, before, hbefore, hown⟩ := hw.passed ht hc ha (.inr ⟨r, hp⟩) h0
      have hpoint : pointOf g.server.world.hub x = some (.returned r false) := by
        rw [pointOf_eq_callOf, hc.waiting, ← hp]
        rfl
      have hq := (returning_eq_some (q := ⟨x, r, (g.server.world.hub.heap r).id, false⟩)
        (step_of_turnFor ht hs)).mpr ⟨turnOf_of_turnFor ht, hpoint, rfl⟩
      have hcount := ho.1 (x, he) ht before hbefore hown _ hq rfl
      exact hle.trans (Nat.lt_of_le_of_lt hcount hlt)
  case persistent =>
    intro h0
    rcases persistentCount_step (a := a) hs with hle | ⟨hle, c, counted, hj, hc⟩
    · exact hle.trans (hw.persistent h0)
    · obtain ⟨j, hash, -, hjob⟩ := job_of_jobFor hj
      have hlt := hw.jobs j _ hjob hc h0
      have hcount := ho.2 _ (congrArg Option.join hj) hc
      exact hle.trans (Nat.lt_of_le_of_lt hcount hlt)
  case domains =>
    intro h0
    rcases domainCount_step (a := a) hs with hle | ⟨hle, name, hostname, counted, limit, hlt, hj⟩
    · exact hle.trans (hw.domains h0)
    · obtain ⟨j, hash, -, hjob⟩ := job_of_jobFor hj
      obtain rfl := hw.jobs j _ hjob rfl
      have hcount := ho.2 _ (congrArg Option.join hj) rfl
      exact hle.trans (Nat.lt_of_le_of_lt hcount (hlt.resolve_left h0))
  case waiting =>
    intro x call n hc ha hp
    have hcounted : g.counted x = n := by
      have hpoint : pointOf g.server.world.hub x = some (.tunnels n) := by
        rw [pointOf_eq_callOf, ← hp]
        exact congrArg (Option.map Call.point) hc
      rw [hg, History.count, hpoint]
    refine ⟨?_, hcounted⟩
    rcases waiting_step hs hc with ⟨hold, hans, -⟩ | ⟨he, bytes, ht, hcomes, hans⟩
    · rw [hans]
      exact (hw.waiting x call n hold ha hp).1
    · rw [hans, issue, hp]
      show Answer.limit (h.world.tables.limitsFor call.owner.account.id).tunnels = _
      rw [ha, hl]
  case checked =>
    intro x call hc ha hp h0
    rw [counted_of_asksFor hg hc fun n hn => by rw [hn] at hp; cases hp]
    rcases waiting_step hs hc with ⟨hold, -, -⟩ | ⟨he, bytes, ht, hcomes, -⟩
    · exact hw.checked x call hold ha hp h0
    · exact (hw.passed ht hcomes ha (.inl hp) h0).1
  case jobs =>
    intro j job hj
    rcases jobs_step hs hj with ⟨-, hold⟩ | ⟨-, hbegins⟩ | ⟨hbefore, hfollows⟩
    · exact hw.jobs j job hold
    · exact begin_within hbegins
    · exact goOn_within hl (hw.jobs j _ hbefore) hfollows

theorem within_init (hi : machine.init h)
    (hp : limits.persistent ≠ 0 → h.world.tables.persistentCount a ≤ limits.persistent)
    (hd : limits.domains ≠ 0 → h.world.tables.domainCount a ≤ limits.domains) :
    Within a limits h := by
  obtain ⟨⟨config, hc⟩, -, -, hjobs⟩ := hi
  have hc : h.world.hub = { config := config } := hc
  refine ⟨fun _ => ?_, hp, hd, fun x call n hcall => ?_, fun x call hcall => ?_, fun j job hj => ?_⟩
  · rw [hc]
    exact Nat.zero_le _
  · rw [hc] at hcall
    cases hcall
  · rw [hc] at hcall
    cases hcall
  · rw [hjobs j] at hj
    cases hj

/-- What each call has counted is still so when it inserts: then an account stays within its
limits, in every state of a run that starts within them. -/
theorem within_limits (a : AccountId) (limits : Limits) (start h : History)
    (hi : machine.init start)
    (hp : limits.persistent ≠ 0 → start.world.tables.persistentCount a ≤ limits.persistent)
    (hd : limits.domains ≠ 0 → start.world.tables.domainCount a ≤ limits.domains)
    (hr : (machine.startingIn start).Reaches (fun h e => Limited a limits h ∧ OnTime a h e) h) :
    (limits.tunnels ≠ 0 → owned h.world.hub a ≤ limits.tunnels) ∧
    (limits.persistent ≠ 0 → h.world.tables.persistentCount a ≤ limits.persistent) ∧
    (limits.domains ≠ 0 → h.world.tables.domainCount a ≤ limits.domains) := by
  have hw : Within a limits h := by
    induction hr with
    | init he => exact he ▸ within_init hi hp hd
    | step hr hok hs ih =>
      have hreach := (Machine.Reaches.init hi).append hr fun _ _ h => h
      exact ih.step (server_reaches hreach) hok.1 hok.2 hs
  exact ⟨hw.tunnels, hw.persistent, hw.domains⟩

/-! ## A run -/

def one : Limits := ⟨1, 1, 1, 0⟩

def sampleStart : History := ⟨sample one, fun _ => 0⟩

/-- Alice opens a tunnel, and her second call waits until the first one has returned. -/
def oneByOne : List Event :=
  signsIn 0 "t1" ++ signsIn 1 "t1" ++
    [asks 0 "web", proceeds 0, proceeds 0, proceeds 0, asks 1 "api", proceeds 1]

/-- Both calls are checked before either of them has a tunnel. -/
def atOnce : List Event :=
  signsIn 0 "t1" ++ signsIn 1 "t1" ++
    [asks 0 "web", asks 1 "api", proceeds 0, proceeds 0, proceeds 0, proceeds 1, proceeds 1,
      proceeds 1]

theorem within_limits_one : ∃ h, machine.exec sampleStart oneByOne = some h ∧
    owned h.world.hub 1 ≤ one.tunnels := by
  have hend : (machine.exec sampleStart oneByOne).isSome := by decide
  obtain ⟨h, he⟩ := Option.isSome_iff_exists.mp hend
  have hok : (machine.startingIn sampleStart).Allowed (fun h e => Limited 1 one h ∧ OnTime 1 h e)
      sampleStart oneByOne := by decide
  have hrun := Machine.Reaches.exec (.init rfl) oneByOne hok he
  have hempty : sampleStart.world.tables.persistentCount 1 = 0 ∧
      sampleStart.world.tables.domainCount 1 = 0 := by decide
  exact ⟨h, he, (within_limits 1 one sampleStart h (sample_init one)
    (fun _ => hempty.1 ▸ Nat.zero_le _) (fun _ => hempty.2 ▸ Nat.zero_le _) hrun).1 (by decide)⟩

/-- Two calls that are checked before either has a tunnel both get one. -/
theorem not_always_within : ¬ ∀ a limits start h, machine.init start →
    (machine.startingIn start).Reaches (fun h _ => Limited a limits h) h →
    limits.tunnels ≠ 0 → owned h.world.hub a ≤ limits.tunnels := by
  intro hall
  have hend : ((machine.exec sampleStart atOnce).map fun h => owned h.world.hub 1) = some 2 := by
    decide
  obtain ⟨h, he, htwo⟩ := Option.map_eq_some_iff.mp hend
  have hok : (machine.startingIn sampleStart).Allowed (fun h _ => Limited 1 one h) sampleStart
      atOnce := by decide
  have hrun := Machine.Reaches.exec (.init rfl) atOnce hok he
  have hle := hall 1 one sampleStart h (sample_init one) hrun (by decide)
  rw [htwo] at hle
  exact absurd hle (by decide)

end Tunlit.Api.Quotas
