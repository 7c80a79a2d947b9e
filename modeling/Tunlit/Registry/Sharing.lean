import Tunlit.Registry.Seating

/-! # Tunnels and their share codes

A registered tunnel has a valid name and, where it is one of TCP, a share code. A call that
brings the share code of a tunnel that is gone gives it back, once it has its name. -/
namespace Tunlit.Registry.Sharing
open Function Tunlit.Lib.Insertion Tunlit.Lib.Runs Tunlit.Js.Text Tunlit.Access.Policy Tunlit.Registry.Names
  Tunlit.Registry.State Tunlit.Registry.Register Tunlit.Registry.System Tunlit.Registry.Leases
  Tunlit.Registry.Steps Tunlit.Registry.Reach Tunlit.Registry.Fields Tunlit.Registry.Calls
  Tunlit.Registry.Holders Tunlit.Registry.Seating

/-- What a call keeps of the share code until it has a tunnel. -/
def previousOf : Point → Option (Option ShareCode)
  | .named previous _ => some previous
  | .random previous _ _ => some previous
  | _ => none

/-- The name at a point has been checked, and the share code is that of the message. -/
structure Kept (call : Call) (p : Point) : Prop where
  name : ∀ n ∈ nameOf p, isValidName n
  previous : ∀ code ∈ previousOf p, code = previousFor call

/-- A tunnel that a call has made. -/
structure Made (call : Call) (tunnel : Tunnel) : Prop where
  name : isValidName tunnel.id
  mode : tunnel.mode = call.mode
  secret : tunnel.mode = .tcp → tunnel.secret.isSome
  shared : ∀ code ∈ previousFor call, code.id = tunnel.id → tunnel.secret = some code.secret

variable {hub hub' : Hub} {x : SessionRef} {r : TunnelRef} {call : Call} {draw : Draw}
  {p : Point} {e : Event}

/-! ## The turns of a call -/

theorem kept_of_none (hn : nameOf p = none) (hp : previousOf p = none) : Kept call p :=
  ⟨by simp [hn], by simp [hp]⟩

theorem drawId_kept {previous : Option ShareCode} {left : Nat} {ids : List RandomId}
    (hprev : previous = previousFor call) (h : drawId hub previous left ids = some (.waits p)) :
    Kept call p := by
  induction left generalizing ids with
  | zero => cases h
  | succ left ih =>
    cases ids with
    | nil => cases h
    | cons id ids =>
      unfold drawId at h
      split at h
      · next hfree =>
        cases h
        rw [Bool.and_eq_true] at hfree
        refine ⟨fun n hn => ?_, fun code hc => ?_⟩
        · cases hn
          rw [isValidName, Bool.and_eq_true]
          exact ⟨id.isName, hfree.2⟩
        · cases hc
          exact hprev
      · exact ih h

theorem checkName_valid {requested name : String} (h : checkName hub requested = .ok name) :
    isValidName name ∧ name = toLowerCase requested := by
  simp only [checkName] at h
  split at h
  · cases h
  split at h
  · cases h
  · next hvalid =>
    split at h <;> cases h
    exact ⟨by simpa using hvalid, rfl⟩

theorem allocateId_kept (h : allocateId hub call draw = some (.waits p)) : Kept call p := by
  simp only [allocateId] at h
  split at h
  · exact drawId_kept rfl h
  · exact drawId_kept rfl h
  · split at h
    · cases h
    · next hname =>
      cases h
      refine ⟨fun n hn => ?_, fun code hc => ?_⟩
      · cases hn
        exact (checkName_valid hname).1
      · cases hc
        rfl

theorem newTunnel_made {id : String} {definition : Option Definition} {policy : AccessPolicy}
    (hid : isValidName id) : Made call (newTunnel call (previousFor call) id definition draw policy) := by
  refine ⟨hid, rfl, fun hm => ?_, fun code hc heq => ?_⟩
  · have hfresh : (newTunnel.fresh call draw).isSome := by
      have hm : call.mode = .tcp := hm
      rw [newTunnel.fresh, if_pos hm]
      rfl
    simp only [newTunnel]
    split
    · split
      · rfl
      · exact hfresh
    · exact hfresh
  · have heq : code.id = id := heq
    rw [Option.mem_def] at hc
    simp only [newTunnel, hc, heq, if_true]

/-- What a call has made stays so while the tunnel is attached and its policy changes. -/
theorem Made.of_fixed {tunnel tunnel' : Tunnel} (h : Made call tunnel)
    (hid : tunnel'.id = tunnel.id) (hmode : tunnel'.mode = tunnel.mode)
    (hsecret : tunnel'.secret = tunnel.secret) : Made call tunnel' := by
  obtain ⟨h1, h2, h3, h4⟩ := h
  refine ⟨hid ▸ h1, hmode.trans h2, ?_, ?_⟩
  · rw [hmode, hsecret]
    exact h3
  · rw [hid, hsecret]
    exact h4

theorem publish_made (h : Made call (hub.heap r)) {c : Call} :
    Made call ((publish hub x c r).1.heap r) := by
  have hset : Fixed hub { hub with tunnels := hub.tunnels.set (hub.heap r).id r } := .of_heap rfl
  have hfixed := (hset.trans (@fixed_attach _ x r c)).fixed r
  exact h.of_fixed (congrArg (·.id) hfixed) (congrArg (·.mode) hfixed)
    (congrArg (·.secret) hfixed)

theorem construct_made {id : String} {definition : Option Definition} (hid : isValidName id)
    (h : construct hub x call (previousFor call) id definition draw = (hub', .waits p))
    (hp : p = .policySaved r ∨ p = .returned r false) : Made call (hub'.heap r) := by
  unfold construct at h
  split at h
  · cases h
  · next policy _ =>
    have hmade : Made call ((update hub.heap hub.nextTunnel
        (newTunnel call (previousFor call) id definition draw policy)) hub.nextTunnel) := by
      rw [update_self]
      exact newTunnel_made hid
    split at h
    · cases h
      rcases hp with hp | hp <;> cases hp
      exact hmade
    · cases h
      rcases hp with hp | hp <;> cases hp
      exact publish_made hmade

theorem construct_point {previous : Option ShareCode} {id : String}
    {definition : Option Definition}
    (h : construct hub x call previous id definition draw = (hub', .waits p)) :
    p = .policySaved hub.nextTunnel ∨ p = .returned hub.nextTunnel false := by
  unfold construct at h
  split at h
  · cases h
  · split at h
    · cases h
      exact .inl rfl
    · cases h
      exact .inr rfl

/-- A turn of a call: what it keeps, and what it has made. -/
theorem proceed_made {answer : Answer} (hk : Kept call call.point)
    (hm : ∀ r, call.point = .policySaved r → Made call (hub.heap r))
    (h : Register.proceed hub x call answer draw = some (hub', .waits p)) :
    Kept call p ∧ ∀ r, p = .policySaved r ∨ p = .returned r false → Made call (hub'.heap r) := by
  have hno : ∀ {p : Point}, heldBy p = none → (∀ r, p ≠ .returned r false) →
      ∀ r, p = .policySaved r ∨ p = .returned r false → Made call (hub'.heap r) := by
    rintro p hheld hreturned r (rfl | hr)
    · cases hheld
    · exact absurd hr (hreturned r)
  have hallocated : ∀ {o}, allocateId hub call draw = some (.waits o) → Kept call o ∧
      ∀ r, o = .policySaved r ∨ o = .returned r false → Made call (hub'.heap r) := by
    intro o ho
    obtain ⟨hchecked, hheld⟩ := allocateId_held ho o rfl
    refine ⟨allocateId_kept ho, hno hheld fun r hr => ?_⟩
    rw [hr] at hchecked
    exact hchecked
  have hconstructed : ∀ {id definition}, isValidName id →
      construct hub x call (previousFor call) id definition draw = (hub', .waits p) → Kept call p ∧
        ∀ r, p = .policySaved r ∨ p = .returned r false → Made call (hub'.heap r) := by
    intro id definition hid hc
    refine ⟨?_, fun r hp => construct_made hid hc hp⟩
    rcases construct_point hc with rfl | rfl <;> exact kept_of_none rfl rfl
  unfold Register.proceed at h
  split at h
  -- returned
  · cases h
  -- rejected
  · cases h
  -- resumeSaved
  · cases h
    exact ⟨kept_of_none rfl rfl, hno rfl fun r hr => by cases hr⟩
  -- tunnels
  · split at h <;> cases h
    exact ⟨kept_of_none rfl rfl, hno rfl fun r hr => by cases hr⟩
  -- traffic
  · split at h
    · cases h
      exact ⟨kept_of_none rfl rfl, hno rfl fun r hr => by cases hr⟩
    · obtain ⟨o, ho, h⟩ := Option.map_eq_some_iff.mp h
      cases h
      exact hallocated ho
  -- usage
  · split at h
    · cases h
    · obtain ⟨o, ho, h⟩ := Option.map_eq_some_iff.mp h
      cases h
      exact hallocated ho
  -- named
  · next previous name _ hpoint =>
    split at h
    · cases h
    · rw [hpoint] at hk
      obtain rfl := hk.previous previous rfl
      exact hconstructed (hk.name name rfl) (Option.some.inj h)
  -- random
  · next previous left id _ hpoint =>
    rw [hpoint] at hk
    obtain rfl := hk.previous previous rfl
    split at h
    · obtain ⟨outcome, ho, h⟩ := Option.map_eq_some_iff.mp h
      cases h
      obtain ⟨hchecked, hheld⟩ := drawId_held ho p rfl
      exact ⟨drawId_kept rfl ho, hno hheld fun r hr => by rw [hr] at hchecked; exact hchecked⟩
    · exact hconstructed (hk.name id.1 rfl) (Option.some.inj h)
  -- policySaved
  · next r hpoint =>
    cases h
    refine ⟨kept_of_none rfl rfl, fun q hq => ?_⟩
    rcases hq with hq | hq <;> cases hq
    exact publish_made (hm r hpoint)
  · cases h

/-! ## Reachable hubs -/

/-- A tunnel has a name that may be asked for again and, of TCP, a secret. -/
structure Shared (tunnel : Tunnel) : Prop where
  name : isValidName tunnel.id
  secret : tunnel.mode = .tcp → tunnel.secret.isSome

def hasMade (p : Point) (r : TunnelRef) : Prop := p = .policySaved r ∨ p = .returned r false

structure Sound (hub : Hub) : Prop where
  calls : ∀ x call, callOf hub x = some call → Kept call call.point
  known : ∀ x call r, callOf hub x = some call → hasMade call.point r → r < hub.nextTunnel
  made : ∀ x call r, callOf hub x = some call → hasMade call.point r → Made call (hub.heap r)
  tunnels : ∀ id r, hub.tunnels.get id = some r → Shared (hub.heap r)

theorem Made.shared_of {tunnel : Tunnel} (h : Made call tunnel) : Shared tunnel :=
  ⟨h.name, h.secret⟩

/-- What an event leaves of a tunnel. -/
structure Same (tunnel tunnel' : Tunnel) : Prop where
  id : tunnel'.id = tunnel.id
  mode : tunnel'.mode = tunnel.mode
  secret : tunnel'.secret = tunnel.secret

theorem same_step (hs : step hub e = some hub') (hr : r < hub.nextTunnel) :
    Same (hub.heap r) (hub'.heap r) := by
  cases changes hs hr with
  | same h | web _ h | resets _ h | persists _ h =>
    exact ⟨congrArg (·.id) h, congrArg (·.mode) h, congrArg (·.secret) h⟩

theorem Same.made {tunnel tunnel' : Tunnel} (h : Same tunnel tunnel') (hm : Made call tunnel) :
    Made call tunnel' := hm.of_fixed h.id h.mode h.secret

theorem Same.shared {tunnel tunnel' : Tunnel} (h : Same tunnel tunnel') (hm : Shared tunnel) :
    Shared tunnel' := by
  obtain ⟨hname, hsecret⟩ := hm
  refine ⟨h.id ▸ hname, ?_⟩
  rw [h.mode, h.secret]
  exact hsecret

theorem known_of_made (h : Reachable hub') (hs : step hub e = some hub') (he : turnOf e = some x)
    (hc : callOf hub' x = some call) (hp : hasMade call.point r) : r < hub'.nextTunnel := by
  have hpoint : pointOf hub' x = some call.point := by rw [pointOf_eq_callOf, hc, Option.map_some]
  rcases hp with hp | hp
  · exact lt_of_policySaved (basic h) hc hp
  · rw [hp] at hpoint
    rcases (turns he hs).tunnel with ⟨q, resumed, hq, ht⟩ | ⟨hn, -⟩
    · cases hpoint.symm.trans hq
      exact (placed h).known x r ht
    · rw [settled_of_returned hpoint] at hn
      cases hn

/-- The turn of a call. -/
theorem turn_sound (hi : Sound hub) (h : Comes hub x e hub' call) :
    Kept call call.point ∧ ∀ r, hasMade call.point r → Made call (hub'.heap r) := by
  cases h with
  | begins _ _ hstart =>
    rcases start_point hstart with rfl | ⟨q, rfl | rfl⟩ <;>
      refine ⟨kept_of_none rfl rfl, ?_⟩ <;> rintro r (hr | hr) <;> cases hr
  | goesOn hc hproceed =>
    obtain ⟨hk, hm⟩ := proceed_made (hi.calls _ _ hc)
      (fun r hr => hi.made _ _ r hc (.inl hr)) hproceed
    exact ⟨⟨hk.name, hk.previous⟩, fun r hr =>
      have hmade := hm r hr
      ⟨hmade.name, hmade.mode, hmade.secret, hmade.shared⟩⟩

theorem sound_step (h : Reachable hub) (hi : Sound hub) (hs : step hub e = some hub') :
    Sound hub' := by
  have h' : Reachable hub' := h.step hs
  have hcall : ∀ y call, callOf hub' y = some call →
      Kept call call.point ∧ ∀ r, hasMade call.point r →
        r < hub'.nextTunnel ∧ Made call (hub'.heap r) := by
    intro y call hc
    have hkept : callOf hub y = some call → Kept call call.point ∧
        ∀ r, hasMade call.point r → r < hub'.nextTunnel ∧ Made call (hub'.heap r) := by
      intro hc
      refine ⟨hi.calls y call hc, fun r hr => ?_⟩
      have hlt := hi.known y call r hc hr
      exact ⟨Nat.lt_of_lt_of_le hlt (nextTunnel_le h hs),
        (same_step hs hlt).made (hi.made y call r hc hr)⟩
    cases he : turnOf e with
    | none => exact hkept (callOf_other he hs hc)
    | some x =>
      obtain ⟨-, htakes⟩ := takes he hs
      by_cases hy : y = x
      · subst hy
        obtain ⟨hk, hm⟩ := turn_sound hi (comes htakes hc)
        exact ⟨hk, fun r hr => ⟨known_of_made h' hs he hc hr, hm r hr⟩⟩
      · exact hkept ((callOf_takes htakes hy).symm.trans hc)
  refine ⟨fun y call hc => (hcall y call hc).1, fun y call r hc hr => ((hcall y call hc).2 r hr).1,
    fun y call r hc hr => ((hcall y call hc).2 r hr).2, fun id r hr => ?_⟩
  rcases slot_step (effect h hs) hr with hold | ⟨y, -, hp, -⟩
  · exact (same_step hs (Holders.lt_of_registered (basic h) hold)).shared (hi.tunnels id r hold)
  · rw [pointOf_eq_callOf] at hp
    obtain ⟨call, hc, hp⟩ := Option.map_eq_some_iff.mp hp
    exact ((hcall y call hc).2 r (.inr hp)).2.shared_of

theorem sound (h : Reachable hub) : Sound hub := by
  refine Machine.Reaches.invariant_of h (fun _ hr => hr) ?_ fun s t e hr hi _ hs =>
    sound_step hr hi hs
  rintro _ ⟨config, rfl⟩
  constructor
  all_goals
    intros
    contradiction

/-- A call for a tunnel of TCP that brings a share code, and no name but its own. -/
structure Asks (call : Call) (code : ShareCode) : Prop where
  mode : call.mode = .tcp
  share : splitShareCode call.request.share = some code
  name : ∀ name ∈ call.request.name, name = "" ∨ toLowerCase name = code.id

/-- An answer that lets the call go on; its name is free, and nobody else's. -/
def Granted (hub : Hub) (call : Call) (id : String) (draw : Draw) (answer : Answer) : Prop :=
  match call.point, answer with
  | .tunnels owned, .limit limit => limit = 0 ∨ owned < limit
  | .traffic, .limit limit => limit = 0 → hub.tunnels.get id = none
  | .usage limit, .usage bytes => bytes < limit ∧ hub.tunnels.get id = none
  | .named _ _, .definition definition =>
    (∀ d ∈ definition, d.accountId = call.owner.account.id) ∧
      ∃ policy, policyFor call definition draw = .ok policy
  | .policySaved _, .saved => True
  | _, _ => False

/-- How many answers the call may still need. -/
def rank : Point → Nat
  | .tunnels _ => 5
  | .traffic => 4
  | .usage _ => 3
  | .named .. => 2
  | .policySaved _ => 1
  | _ => 0

/-- The points on the way to a tunnel with that name. -/
def OnWay (hub : Hub) (id : String) : Point → Prop
  | .tunnels _ => True
  | .traffic => True
  | .usage _ => True
  | .named _ name => name = id
  | .policySaved r => (hub.heap r).id = id
  | .returned r resumed => resumed = false ∧ (hub.heap r).id = id
  | _ => False

variable {code : ShareCode} {answer : Answer}

theorem isName_of_valid {id : String} (h : isValidName id) : isName id := by
  rw [isValidName, Bool.and_eq_true] at h
  exact h.1

theorem checkName_free {requested id : String} (hv : isValidName id)
    (hname : toLowerCase requested = id) (hfree : hub.tunnels.get id = none) :
    checkName hub requested = .ok id := by
  have hparts := hv
  rw [isValidName, Bool.and_eq_true, Bool.not_eq_true'] at hparts
  have hhas : hub.tunnels.has id = false := OrderedMap.has_eq_false.mpr hfree
  simp only [checkName, hname, hparts.2, hv, hhas, Bool.not_true, Bool.false_eq_true, if_false]

/-- The name that the share code carries is asked for. -/
theorem allocateId_asks (ha : Asks call code) (hv : isValidName code.id)
    (hfree : hub.tunnels.get code.id = none) :
    allocateId hub call draw = some (.waits (.named (some code) code.id)) := by
  have hprev : previousFor call = some code := by rw [previousFor, if_pos ha.mode, ha.share]
  have hne : code.id ≠ "" := by
    intro he
    rw [he] at hv
    exact absurd hv (by decide)
  have hhas : hub.tunnels.has code.id = false := OrderedMap.has_eq_false.mpr hfree
  have hfreeId : wantedFor.freeId hub (some code) = some code.id := by
    rw [wantedFor.freeId, Option.bind_some, hhas]
    rfl
  have hwanted : ∃ requested, wantedFor hub call (some code) = some requested ∧
      requested ≠ "" ∧ toLowerCase requested = code.id := by
    have hown : toLowerCase code.id = code.id := toLowerCase_name (isName_of_valid hv)
    cases hname : call.request.name with
    | none => exact ⟨code.id, by rw [wantedFor, hname]; exact hfreeId, hne, hown⟩
    | some name =>
      by_cases hempty : name = ""
      · refine ⟨code.id, ?_, hne, hown⟩
        rw [wantedFor, hname]
        simp only [hempty, ne_eq, not_true, if_false]
        exact hfreeId
      · refine ⟨name, ?_, hempty, (ha.name name hname).resolve_left hempty⟩
        rw [wantedFor, hname]
        simp only [ne_eq, hempty, not_false_iff, if_true]
  obtain ⟨requested, hwanted, hrequested, hlower⟩ := hwanted
  simp only [allocateId, hprev, hwanted, checkName_free hv hlower hfree]

theorem publish_id (r : TunnelRef) (c : Call) :
    ((publish hub x c r).1.heap r).id = (hub.heap r).id := by
  have hset : Fixed hub { hub with tunnels := hub.tunnels.set (hub.heap r).id r } := .of_heap rfl
  exact congrArg (·.id) ((hset.trans (@fixed_attach _ x r c)).fixed r)

theorem construct_granted (previous : Option ShareCode) {id : String}
    {definition : Option Definition} {policy : AccessPolicy}
    (h : policyFor call definition draw = .ok policy) :
    ∃ hub' p, construct hub x call previous id definition draw = (hub', .waits p) ∧
      rank p < 2 ∧ OnWay hub' id p := by
  have hid : ((update hub.heap hub.nextTunnel
      (newTunnel call previous id definition draw policy)) hub.nextTunnel).id = id := by
    rw [update_self]
    rfl
  simp only [construct, h]
  split
  · exact ⟨_, _, rfl, Nat.one_lt_two, hid⟩
  · refine ⟨_, _, rfl, Nat.zero_lt_two, rfl, ?_⟩
    exact (publish_id _ _).trans hid

/-- A turn with such an answer brings the call nearer to its tunnel. -/
theorem proceed_granted (ha : Asks call code) (hv : isValidName code.id)
    (hp : OnWay hub code.id call.point) (hg : Granted hub call code.id draw answer) :
    ∃ hub' p, Register.proceed hub x call answer draw = some (hub', .waits p) ∧
      rank p < rank call.point ∧ OnWay hub' code.id p := by
  have hnamed : ∀ {n}, 2 < n → hub.tunnels.get code.id = none →
      ∃ hub' p, (allocateId hub call draw).map (fun outcome => (hub, outcome)) =
        some (hub', .waits p) ∧ rank p < n ∧ OnWay hub' code.id p := by
    intro n hn hfree
    rw [allocateId_asks ha hv hfree]
    exact ⟨hub, _, rfl, hn, rfl⟩
  unfold Granted at hg
  split at hg
  -- tunnels
  · next owned limit hpoint =>
    have hwithin : ¬ (decide (limit ≠ 0) && decide (limit ≤ owned)) = true := by
      simp only [Bool.and_eq_true, decide_eq_true_eq]
      omega
    simp only [Register.proceed, hpoint]
    rw [if_neg hwithin]
    exact ⟨hub, .traffic, rfl, Nat.lt_succ_self 4, trivial⟩
  -- traffic
  · next limit hpoint =>
    simp only [Register.proceed, hpoint]
    by_cases hlimit : limit = 0
    · rw [if_neg (not_not.mpr hlimit)]
      exact hnamed (by decide) (hg hlimit)
    · rw [if_pos hlimit]
      exact ⟨hub, .usage limit, rfl, Nat.lt_succ_self 3, trivial⟩
  -- usage
  · next limit bytes hpoint =>
    simp only [Register.proceed, hpoint]
    rw [if_neg (Nat.not_le.mpr hg.1)]
    exact hnamed (Nat.lt_succ_self 2) hg.2
  -- named
  · next previous name definition hpoint =>
    obtain ⟨hown, policy, hpolicy⟩ := hg
    rw [hpoint] at hp ⊢
    obtain rfl : name = code.id := hp
    have hnone : ¬ (definition.any fun d => d.accountId ≠ call.owner.account.id) = true := by
      rw [Option.any_eq_true]
      rintro ⟨d, hd, hne⟩
      exact of_decide_eq_true hne (hown d hd)
    obtain ⟨hub', p, hc, hrank, hway⟩ := construct_granted previous hpolicy
    refine ⟨hub', p, ?_, hrank, hway⟩
    simp only [Register.proceed, hpoint]
    rw [if_neg hnone, hc]
  -- policySaved
  · next r hpoint =>
    rw [hpoint] at hp ⊢
    simp only [Register.proceed, hpoint]
    exact ⟨_, _, rfl, Nat.zero_lt_one, rfl, (publish_id r call).trans hp⟩
  · exact hg.elim

/-! ## Runs -/

/-- Every answer to the call of that session is one that lets it go on. -/
def Lets (x : SessionRef) (id : String) (hub : Hub) (e : Event) : Prop :=
  e ≠ .reply x ∧ ∀ answer draw call, e = .proceed x answer draw → callOf hub x = some call →
    Granted hub call id draw answer

/-- A call on its way to the tunnel of a share code. -/
structure Underway (hub : Hub) (x : SessionRef) (code : ShareCode) (call : Call) : Prop where
  waiting : callOf hub x = some call
  asks : Asks call code
  onWay : OnWay hub code.id call.point

theorem step_proceed (hx : x < hub.nextSession) (hc : callOf hub x = some call) {p : Point}
    (h : Register.proceed hub x call answer draw = some (hub', .waits p)) :
    step hub (.proceed x answer draw) = some (settle hub' x call (.waits p)) := by
  rw [step, if_pos hx, handleProceed, callOf_eq_some.mp hc]
  simp only [h, Option.map_some]

theorem Underway.turn (hv : isValidName code.id) (h : Reachable hub)
    (hu : Underway hub x code call) (hg : Granted hub call code.id draw answer) :
    ∃ hub' call', step hub (.proceed x answer draw) = some hub' ∧ Underway hub' x code call' ∧
      rank call'.point < rank call.point := by
  have hx : x < hub.nextSession :=
    (basic h).called x call.point (by rw [pointOf_eq_callOf, hu.waiting, Option.map_some])
  obtain ⟨hub₁, p, hp, hrank, hway⟩ := proceed_granted hu.asks hv hu.onWay hg (x := x)
  refine ⟨_, { call with point := p }, step_proceed hx hu.waiting hp, ⟨settle_callOf, ?_, hway⟩,
    hrank⟩
  exact ⟨hu.asks.mode, hu.asks.share, hu.asks.name⟩

/-- A share code as it is given away. -/
def joined (code : ShareCode) : String := code.id ++ .ofList code.secret.1

/-- The tunnel that the call returns has the share code that it was asked with. -/
theorem Underway.returned (h : Reachable hub) (hu : Underway hub x code call) {resumed : Bool}
    (hp : call.point = .returned r resumed) : resumed = false ∧ (hub.heap r).id = code.id ∧
      (hub.heap r).mode = .tcp ∧ (hub.heap r).shareCode = some (joined code) := by
  have hway := hu.onWay
  rw [hp] at hway
  obtain ⟨rfl, hid⟩ := hway
  have hmade := (sound h).made x call r hu.waiting (.inr hp)
  have hprev : previousFor call = some code := by
    rw [previousFor, if_pos hu.asks.mode, hu.asks.share]
  have hsecret := hmade.shared code hprev hid.symm
  refine ⟨rfl, hid, hmade.mode.trans hu.asks.mode, ?_⟩
  rw [Tunnel.shareCode, hsecret, hid]
  rfl

theorem Underway.reply (h : Reachable hub) (hu : Underway hub x code call) {resumed : Bool}
    (hp : call.point = .returned r resumed) : ∃ persistent token, step hub (.reply x) =
      some (hub.onSession x fun session => { session with phase := .ready (.owner call.owner) }.sendControl
        (.registered code.id .tcp persistent (some (joined code)) token false)) := by
  obtain ⟨rfl, hid, hmode, hshare⟩ := hu.returned h hp
  have hx : x < hub.nextSession :=
    (basic h).called x call.point (by rw [pointOf_eq_callOf, hu.waiting, Option.map_some])
  have hphase := callOf_eq_some.mp hu.waiting
  obtain ⟨owner, request, mode, target, point⟩ := call
  obtain rfl : point = .returned r false := hp
  refine ⟨(hub.heap r).persistent, (hub.heap r).resumeToken, ?_⟩
  rw [step, if_pos hx, handleReply]
  simp only [hphase, hid, hmode, hshare]

/-- The call goes on with every answer that lets it, and ends with a tunnel of its share code. -/
structure Regains (hub : Hub) (x : SessionRef) (code : ShareCode) (call : Call) : Prop where
  waiting : callOf hub x = some call
  goesOn : ∀ draw answer, Granted hub call code.id draw answer → ∃ hub' call',
    step hub (.proceed x answer draw) = some hub' ∧ callOf hub' x = some call' ∧
      rank call'.point < rank call.point
  ends : rank call.point = 0 → ∃ r, call.point = .returned r false
  returned : ∀ r resumed, call.point = .returned r resumed → (hub.heap r).id = code.id ∧
    (hub.heap r).mode = .tcp ∧ (hub.heap r).shareCode = some (joined code)
  reply : ∀ r resumed, call.point = .returned r resumed → ∃ persistent token,
    step hub (.reply x) = some (hub.onSession x fun session =>
      { session with phase := .ready (.owner call.owner) }.sendControl
        (.registered code.id .tcp persistent (some (joined code)) token false))

theorem Underway.regains (hv : isValidName code.id) (h : Reachable hub)
    (hu : Underway hub x code call) : Regains hub x code call where
  waiting := hu.waiting
  goesOn draw answer hg := by
    obtain ⟨hub', call', hs, hu', hrank⟩ := hu.turn hv h hg
    exact ⟨hub', call', hs, hu'.waiting, hrank⟩
  ends hr := by
    have hway := hu.onWay
    cases hp : call.point with
    | returned r resumed =>
      rw [hp] at hway
      exact ⟨r, by rw [hway.1]⟩
    | resumeSaved r | random _ _ _ =>
      rw [hp] at hway
      exact hway.elim
    | tunnels _ | traffic | usage _ | named _ _ | policySaved _ =>
      rw [hp] at hr
      cases hr
  returned _ _ hp := (hu.returned h hp).2
  reply _ _ hp := hu.reply h hp

end Tunlit.Registry.Sharing
