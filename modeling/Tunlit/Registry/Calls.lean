import Tunlit.Registry.Fields

/-! # What one turn of a call does

The turns of `register` on the objects themselves: what a tunnel is made of, when its policy
is replaced and when it is attached. -/
namespace Tunlit.Registry.Calls
open Function Tunlit.Access.Policy Tunlit.Registry.Names Tunlit.Registry.State
  Tunlit.Registry.Register Tunlit.Registry.System Tunlit.Registry.Leases Tunlit.Registry.Steps
  Tunlit.Registry.Fields

/-- What a call asks for when it makes a tunnel, and what it was told. -/
structure Creation (before : Option Point) (call : Call) (draw : Draw) where
  previous : Option ShareCode
  id : String
  definition : Option Definition
  policy : AccessPolicy
  claimed : before.bind nameOf = some id
  -- the definition is the caller's own
  own : ∀ d ∈ definition, d.accountId = call.owner.account.id
  built : policyFor call definition draw = .ok policy

def Creation.tunnel {before : Option Point} {call : Call} {draw : Draw}
    (c : Creation before call draw) : Tunnel :=
  newTunnel call c.previous c.id c.definition draw c.policy

/-- The hub with the new tunnel, which is not registered yet. -/
def Creation.on {before : Option Point} {call : Call} {draw : Draw}
    (c : Creation before call draw) (hub : Hub) : Hub :=
  { hub with heap := update hub.heap hub.nextTunnel c.tunnel, nextTunnel := hub.nextTunnel + 1 }

/-- The policy that a message gives the tunnel it resumes. -/
structure Repolicy (hub : Hub) (call : Call) (draw : Draw) (r : TunnelRef)
    (policy : AccessPolicy) : Prop where
  existing : existingFor hub call = some r
  built : ∃ input, call.request.policy = some input ∧
    buildPolicy (fun _ => draw.hash) input emptyPolicy = .ok policy

def withPolicy (hub : Hub) (r : TunnelRef) (policy : AccessPolicy) : Hub :=
  hub.onTunnel r fun tunnel => { tunnel with policy := policy }

/-- A turn, from the point where the call waits (none where it begins). -/
inductive Does (hub : Hub) (x : SessionRef) (call : Call) (draw : Draw) (before : Option Point) :
    Hub → Outcome → Prop
  | stays {outcome} (h : ∀ p, outcome = .waits p → Checked hub p ∧ Reach.heldBy p = none) :
      Does hub x call draw before hub outcome
  | sets {r policy} (h : Repolicy hub call draw r policy) (hb : before = none)
      (hp : (hub.heap r).persistent = true) :
      Does hub x call draw before (withPolicy hub r policy) (.waits (.resumeSaved r))
  | resumes {r} (h : (before = none ∧ existingFor hub call = some r ∧ call.request.policy = none) ∨
        before = some (.resumeSaved r)) :
      Does hub x call draw before (hub.attach r x call) (.waits (.returned r true))
  | resumesWith {r policy} (h : Repolicy hub call draw r policy) (hb : before = none)
      (hp : (hub.heap r).persistent = false) :
      Does hub x call draw before ((withPolicy hub r policy).attach r x call)
        (.waits (.returned r true))
  | creates (c : Creation before call draw) (hp : call.request.policy.isSome = true)
      (hd : c.definition.isSome = true) :
      Does hub x call draw before (c.on hub) (.waits (.policySaved hub.nextTunnel))
  | registers (c : Creation before call draw)
      (hp : call.request.policy = none ∨ c.definition = none) :
      Does hub x call draw before (publish (c.on hub) x call hub.nextTunnel).1
        (.waits (.returned hub.nextTunnel false))
  | publishes {r} (h : before = some (.policySaved r)) :
      Does hub x call draw before (publish hub x call r).1 (.waits (.returned r false))

variable {hub hub' : Hub} {x : SessionRef} {r : TunnelRef} {call : Call} {draw : Draw}
  {before : Option Point} {outcome : Outcome} {e : Event}

theorem construct_does {previous : Option ShareCode} {id : String} {definition : Option Definition}
    (hid : before.bind nameOf = some id) (hown : ∀ d ∈ definition, d.accountId = call.owner.account.id)
    (h : construct hub x call previous id definition draw = (hub', outcome)) :
    Does hub x call draw before hub' outcome := by
  unfold construct at h
  split at h
  · cases h
    exact .stays fun p hp => by cases hp
  · next policy hpolicy =>
    let c : Creation before call draw := ⟨previous, id, definition, policy, hid, hown, hpolicy⟩
    split at h
    · next hboth =>
      cases h
      obtain ⟨hp, hd⟩ := (Bool.and_eq_true ..).mp hboth
      exact .creates c hp hd
    · next hboth =>
      cases h
      refine .registers c ?_
      rw [Bool.and_eq_true, not_and_or] at hboth
      simpa only [Bool.not_eq_true, Option.isSome_eq_false_iff, Option.isNone_iff_eq_none] using hboth

theorem withPolicy_persistent {policy : AccessPolicy} :
    ((withPolicy hub r policy).heap r).persistent = (hub.heap r).persistent := by
  simp [withPolicy, Hub.onTunnel]

theorem start_does (h : start hub x call draw = (hub', outcome)) :
    Does hub x call draw none hub' outcome := by
  unfold start at h
  split at h
  · next r hr =>
    split at h
    · next hnone =>
      cases h
      exact .resumes (.inl ⟨rfl, hr, hnone⟩)
    · next input hinput =>
      split at h
      · cases h
        exact .stays fun p hp => by cases hp
      · next policy hpolicy =>
        have hset : Repolicy hub call draw r policy := ⟨hr, input, hinput, hpolicy⟩
        have hkept := (withPolicy_persistent : ((withPolicy hub r policy).heap r).persistent = _)
        simp only at h
        split at h
        · next hp =>
          cases h
          exact .sets hset rfl (hkept.symm.trans hp)
        · next hp =>
          cases h
          exact .resumesWith hset rfl (hkept.symm.trans (Bool.eq_false_iff.mpr hp))
  · cases h
    refine .stays fun p hp => ?_
    cases hp
    exact ⟨trivial, rfl⟩

/-- What `allocateId` and its loop come to is a name that is still to be looked up. -/
theorem drawId_held {previous : Option ShareCode} {left : Nat} {ids : List RandomId}
    (h : drawId hub previous left ids = some outcome) :
    ∀ p, outcome = .waits p → Checked hub p ∧ Reach.heldBy p = none := by
  intro p hp
  subst hp
  refine ⟨drawId_checked h p rfl, ?_⟩
  induction left generalizing ids with
  | zero => cases h
  | succ left ih =>
    cases ids with
    | nil => cases h
    | cons id ids =>
      unfold drawId at h
      split at h
      · cases h; rfl
      · exact ih h

theorem allocateId_held (h : allocateId hub call draw = some outcome) :
    ∀ p, outcome = .waits p → Checked hub p ∧ Reach.heldBy p = none := by
  intro p hp
  subst hp
  refine ⟨allocateId_checked h p rfl, ?_⟩
  simp only [allocateId] at h
  split at h
  · exact (drawId_held h p rfl).2
  · exact (drawId_held h p rfl).2
  · split at h <;> cases h
    rfl

theorem proceed_does {answer : Answer}
    (h : Register.proceed hub x call answer draw = some (hub', outcome)) :
    Does hub x call draw (some call.point) hub' outcome := by
  have hthrew : ∀ failure, Does hub x call draw (some call.point) hub (.threw failure) :=
    fun failure => .stays fun p hp => by cases hp
  unfold Register.proceed at h
  split at h
  -- returned
  · cases h
  -- rejected
  · cases h
    exact hthrew _
  -- resumeSaved
  · next hp =>
    cases h
    exact .resumes (.inr (by rw [hp]))
  -- tunnels
  · split at h <;> cases h
    · exact hthrew _
    · exact .stays fun p hp => (by cases hp; exact ⟨trivial, rfl⟩)
  -- traffic
  · split at h
    · cases h
      exact .stays fun p hp => (by cases hp; exact ⟨trivial, rfl⟩)
    · obtain ⟨o, ho, h⟩ := Option.map_eq_some_iff.mp h
      cases h
      exact .stays (allocateId_held ho)
  -- usage
  · split at h
    · cases h
      exact hthrew _
    · obtain ⟨o, ho, h⟩ := Option.map_eq_some_iff.mp h
      cases h
      exact .stays (allocateId_held ho)
  -- named
  · next hp =>
    split at h
    · cases h
      exact hthrew _
    · next hown =>
      refine construct_does (by rw [hp]; rfl) (fun d hd => ?_) (Option.some.inj h)
      rw [Option.mem_def] at hd
      simpa [hd] using hown
  -- random
  · next hp =>
    split at h
    · obtain ⟨o, ho, h⟩ := Option.map_eq_some_iff.mp h
      cases h
      exact .stays (drawId_held ho)
    · exact construct_does (by rw [hp]; rfl) (fun d hd => by cases hd) (Option.some.inj h)
  -- policySaved
  · next hp =>
    cases h
    exact .publishes (by rw [hp])
  · cases h

/-! ## The events that take a call on -/

/-- The call of a session takes a turn, or the message that should begin it is refused. -/
inductive Takes (hub : Hub) (x : SessionRef) : Event → Hub → Prop
  | refuses {request draw owner failure} (hp : (hub.sessions x).phase = .setup (.owner owner))
      (hc : callFor hub.config owner request = .error failure) :
      Takes hub x (.register x request draw) (hub.onSession x fun session => session.fail failure)
  | begins {request draw owner call hub' outcome}
      (hp : (hub.sessions x).phase = .setup (.owner owner))
      (hc : callFor hub.config owner request = .ok call)
      (h : start hub x call draw = (hub', outcome)) :
      Takes hub x (.register x request draw) (settle hub' x call outcome)
  | goesOn {answer draw call hub' outcome} (hp : (hub.sessions x).phase = .registering call)
      (h : Register.proceed hub x call answer draw = some (hub', outcome)) :
      Takes hub x (.proceed x answer draw) (settle hub' x call outcome)

theorem takes {e : Event} (he : turnOf e = some x) (hs : step hub e = some hub') :
    x < hub.nextSession ∧ Takes hub x e hub' := by
  cases e <;> cases he
  · rw [step, Option.ite_none_right_eq_some] at hs
    refine ⟨hs.1, ?_⟩
    have hs := hs.2
    unfold handleRegister at hs
    split at hs
    · next owner hphase =>
      split at hs
      · next failure hc => cases hs; exact .refuses hphase hc
      · next call hc => cases hs; exact .begins hphase hc rfl
    · cases hs
  · rw [step, Option.ite_none_right_eq_some] at hs
    refine ⟨hs.1, ?_⟩
    have hs := hs.2
    unfold handleProceed at hs
    split at hs
    · next call hphase =>
      obtain ⟨⟨hub₁, outcome⟩, hp, hs⟩ := Option.map_eq_some_iff.mp hs
      cases hs
      exact .goesOn hphase hp
    · cases hs

/-! ## Sessions -/

/-- A turn changes the seat of no other session, and of its own only the tunnel. -/
theorem Does.ownTunnel (h : Does hub x call draw before hub' outcome) : OwnTunnel x hub hub' := by
  cases h with
  | stays _ => exact Seated.rfl.ownTunnel
  | sets _ _ _ => exact Seated.ownTunnel ⟨fun _ => .rfl⟩
  | creates _ _ _ => exact Seated.ownTunnel ⟨fun _ => .rfl⟩
  | resumes _ => exact ownTunnel_attach (by rfl)
  | resumesWith _ _ _ => exact ownTunnel_attach (by rfl)
  | registers _ _ => exact ownTunnel_attach (by rfl)
  | publishes _ => exact ownTunnel_attach (by rfl)

/-! ## Calls -/

def callOf (hub : Hub) (y : SessionRef) : Option Call :=
  match (hub.sessions y).phase with
  | .registering call => some call
  | _ => none

theorem callOf_eq_some {y : SessionRef} :
    callOf hub y = some call ↔ (hub.sessions y).phase = .registering call := by
  unfold callOf
  split
  · next c hp => simp [hp]
  · next hp => exact iff_of_false (by simp) (hp call)

theorem pointOf_eq_callOf (y : SessionRef) : pointOf hub y = (callOf hub y).map Call.point := by
  unfold pointOf callOf
  cases (hub.sessions y).phase <;> rfl

theorem callOf_of_phase {y : SessionRef} (h : (hub'.sessions y).phase = (hub.sessions y).phase) :
    callOf hub' y = callOf hub y := by
  rw [callOf, callOf, h]

theorem callOf_onSession {f : Session → Session} {y : SessionRef}
    (h : (f (hub.sessions x)).phase = (hub.sessions x).phase ∨
      point (f (hub.sessions x)).phase = none)
    (hc : callOf (hub.onSession x f) y = some call) : callOf hub y = some call := by
  rw [callOf_eq_some] at hc ⊢
  by_cases hy : y = x
  · subst hy
    simp only [Hub.onSession, update_self] at hc
    rcases h with h | h
    · exact h.symm.trans hc
    · rw [hc] at h
      cases h
  · simpa only [Hub.onSession, update_of_ne hy] using hc

theorem callOf_fail {failure : Failure} {y : SessionRef}
    (hc : callOf (hub.onSession x fun session => session.fail failure) y = some call) :
    callOf hub y = some call :=
  callOf_onSession (.inl (sameSeat_fail _ _).phase) hc

/-- Calls begin and go on in turns of their own. -/
theorem callOf_other {y : SessionRef} (he : turnOf e = none) (hs : step hub e = some hub')
    (hc : callOf hub' y = some call) : callOf hub y = some call := by
  have hseated : ∀ {h}, Seated hub h → callOf h y = some call → callOf hub y = some call :=
    fun h hc => (callOf_of_phase (h.seat y).phase).symm.trans hc
  cases e with
  | register _ _ _ | proceed _ _ _ => cases he
  | tick _ | configure _ | sweep => cases hs; exact hc
  | connect ip =>
    cases hs
    rw [callOf_eq_some] at hc ⊢
    by_cases hy : y = hub.nextSession
    · rw [hy] at hc
      simp at hc
    · simpa only [update_of_ne hy] using hc
  | wsCloses x =>
    rw [step, Option.ite_none_right_eq_some] at hs
    obtain ⟨-, hs⟩ := hs
    cases hs
    exact callOf_onSession (.inl rfl) hc
  | bye x =>
    rw [step, Option.ite_none_right_eq_some] at hs
    obtain ⟨-, hs⟩ := hs
    cases hs
    exact callOf_onSession (.inl rfl) hc
  | handshakeTimeout x =>
    rw [step, Option.ite_none_right_eq_some] at hs
    obtain ⟨-, hs⟩ := hs
    cases hs
    exact callOf_fail hc
  | socketClose x =>
    rw [step, Option.ite_none_right_eq_some] at hs
    obtain ⟨-, hs⟩ := hs
    cases hs
    have hl := seated_onCloseAll (hub.onSession x fun session =>
      { session with closed := true, wsOpen := false, closeListeners := [] })
      (hub.sessions x).closeListeners x
    exact callOf_onSession (.inl rfl) ((callOf_of_phase (hl.seat y).phase).symm.trans hc)
  | hello x answer =>
    rw [step, Option.ite_none_right_eq_some] at hs
    obtain ⟨-, hs⟩ := hs
    unfold handleHello at hs
    split at hs
    · cases hs
    · split at hs <;> cases hs
      · exact callOf_fail hc
      · refine callOf_onSession (.inr ?_) hc
        rw [(sameSeat_sendControl _ _).phase]
        rfl
  | unexpected x =>
    rw [step, Option.ite_none_right_eq_some, handleUnexpected] at hs
    obtain ⟨-, hs⟩ := hs
    split at hs <;> cases hs <;> exact callOf_fail hc
  | join x code intel =>
    rw [step, Option.ite_none_right_eq_some, handleJoin] at hs
    obtain ⟨-, hs⟩ := hs
    split at hs
    · split at hs <;> cases hs
      · exact callOf_fail hc
      · next r _ =>
        let joined := hub.onTunnel r fun tunnel => { tunnel with joiners := tunnel.joiners ++ [x] }
        have hj : callOf joined y = some call := by
          refine callOf_onSession (.inr ?_) hc
          rw [(sameSeat_sendControl _ _).phase]
          rfl
        exact hj
    · cases hs
  | reply x =>
    rw [step, Option.ite_none_right_eq_some, handleReply] at hs
    obtain ⟨-, hs⟩ := hs
    split at hs <;> cases hs
    refine callOf_onSession (.inr ?_) hc
    rw [(sameSeat_sendControl _ _).phase]
    rfl
  | graceFires timer =>
    obtain ⟨⟨t, q⟩, -, hs⟩ := Option.map_eq_some_iff.mp hs
    cases hs
    have hr : Seated { hub with timers := hub.timers.filter fun t => t.1 ≠ timer }
        (hub.onGraceTimer timer q) := seated_remove ..
    exact hseated ⟨hr.seat⟩ hc
  | remove id => cases hs; exact hseated (seated_remove ..) hc
  | closeFor accountId => cases hs; exact hseated (seated_removeAll ..) hc
  | closeCredential credential => cases hs; exact hseated (seated_removeAll ..) hc
  | updateAccess id input hash => cases hs; exact hseated seated_updateAccess hc
  | applyLive id policy => cases hs; exact hseated seated_applyLive hc
  | setPersistent q persistent =>
    rw [step, Option.ite_none_right_eq_some] at hs
    obtain ⟨-, hs⟩ := hs
    cases hs
    exact hc

/-! ## Tunnels -/

/-- The tunnel with a new policy. -/
theorem fixed_withPolicy {policy : AccessPolicy} (q : TunnelRef) :
    fixed ((withPolicy hub r policy).heap q) =
      if q = r then { fixed (hub.heap q) with policy := policy } else fixed (hub.heap q) := by
  simp only [withPolicy, Hub.onTunnel, update_apply]
  split
  · next h => rw [h]; rfl
  · rfl

/-- What a turn does to the tunnels there are: the policy of the one that it resumes. -/
theorem Does.tunnels (h : Does hub x call draw before hub' outcome) {r : TunnelRef}
    (hr : r < hub.nextTunnel) : fixed (hub'.heap r) = fixed (hub.heap r) ∨
      ∃ policy, Repolicy hub call draw r policy ∧ before = none ∧
        fixed (hub'.heap r) = { fixed (hub.heap r) with policy := policy } := by
  have hset : ∀ {q policy}, Repolicy hub call draw q policy → before = none →
      ∀ hub', Fixed (withPolicy hub q policy) hub' →
      fixed (hub'.heap r) = fixed (hub.heap r) ∨ ∃ policy, Repolicy hub call draw r policy ∧
        before = none ∧ fixed (hub'.heap r) = { fixed (hub.heap r) with policy := policy } := by
    intro q policy hp hb hub' hf
    rw [hf.fixed, fixed_withPolicy]
    by_cases hq : r = q
    · subst hq
      rw [if_pos rfl]
      exact .inr ⟨policy, hp, hb, rfl⟩
    · rw [if_neg hq]
      exact .inl rfl
  have hcreated : ∀ c : Creation before call draw, (c.on hub).heap r = hub.heap r :=
    fun c => update_of_ne (Nat.ne_of_lt hr) ..
  have hpublish : ∀ (hub : Hub) q, Fixed hub (publish hub x call q).1 := fun hub q =>
    have hset : Fixed hub { hub with tunnels := hub.tunnels.set (hub.heap q).id q } := .of_heap rfl
    hset.trans fixed_attach
  cases h with
  | stays _ => exact .inl rfl
  | sets hp hb _ => exact hset hp hb _ .rfl
  | resumes _ => exact .inl (fixed_attach.fixed r)
  | resumesWith hp hb _ => exact hset hp hb _ fixed_attach
  | creates c _ _ => exact .inl (by rw [hcreated])
  | registers c _ => exact .inl (by rw [(hpublish _ _).fixed, hcreated])
  | publishes _ => exact .inl ((hpublish _ _).fixed r)

/-- The message that gives a tunnel a new policy. -/
def Resets (hub : Hub) (e : Event) (r : TunnelRef) (policy : AccessPolicy) : Prop :=
  ∃ x request draw owner call, e = .register x request draw ∧
    (hub.sessions x).phase = .setup (.owner owner) ∧ callFor hub.config owner request = .ok call ∧
    Repolicy hub call draw r policy

/-- The tunnel whose policy a request of the web UI changes, and the new policy. -/
def webPolicy (hub : Hub) : Event → Option (TunnelRef × AccessPolicy)
  | .updateAccess id input hash => (hub.tunnels.get id).bind fun r =>
      match buildPolicy (fun _ => hash) input (hub.heap r).policy with
      | .ok policy => some (r, policy)
      | .error _ => none
  | .applyLive id policy => (hub.tunnels.get id).map fun r => (r, policy)
  | _ => none

theorem fixed_settle (call : Call) (outcome : Outcome) : Fixed hub (settle hub x call outcome) := by
  cases outcome <;> exact .of_heap rfl

/-- What an event does to the tunnels there are. -/
inductive Changes (hub : Hub) (e : Event) (r : TunnelRef) (tunnel : Tunnel) : Prop
  | same (h : tunnel = fixed (hub.heap r))
  | web {policy} (hw : webPolicy hub e = some (r, policy))
      (h : tunnel = { fixed (hub.heap r) with policy := policy })
  | resets {policy} (hp : Resets hub e r policy)
      (h : tunnel = { fixed (hub.heap r) with policy := policy })
  | persists {persistent} (he : e = .setPersistent r persistent)
      (h : tunnel = { fixed (hub.heap r) with persistent := persistent })

theorem Changes.of_fixed (h : Fixed hub hub') : Changes hub e r (fixed (hub'.heap r)) :=
  .same (h.fixed r)

theorem changes_changePolicy {id : String} {q : TunnelRef} {policy : AccessPolicy}
    (hw : webPolicy hub e = some (q, policy)) :
    Changes hub e r (fixed ((changePolicy hub id q policy).heap r)) := by
  have hf : fixed ((changePolicy hub id q policy).heap r) = fixed ((withPolicy hub q policy).heap r) :=
    rfl
  rw [hf, fixed_withPolicy]
  split
  · next h => subst h; exact .web hw rfl
  · exact .same rfl

theorem changes_takes (hr : r < hub.nextTunnel) (h : Takes hub x e hub') :
    Changes hub e r (fixed (hub'.heap r)) := by
  cases h with
  | refuses _ _ => exact .of_fixed fixed_onSession
  | @begins request draw owner call _ _ hp hc h =>
    rw [(fixed_settle _ _).fixed]
    rcases (start_does h).tunnels hr with hf | ⟨policy, hset, -, hf⟩
    · exact .same hf
    · exact .resets ⟨x, request, draw, owner, call, rfl, hp, hc, hset⟩ hf
  | goesOn hp h =>
    rw [(fixed_settle _ _).fixed]
    rcases (proceed_does h).tunnels hr with hf | ⟨_, _, hb, _⟩
    · exact .same hf
    · cases hb

theorem fixed_handleHello {answer : Except Failure Role}
    (h : handleHello hub x answer = some hub') : Fixed hub hub' := by
  unfold handleHello at h
  split at h
  · cases h
  · split at h <;> cases h <;> exact fixed_onSession

theorem fixed_handleUnexpected (h : handleUnexpected hub x = some hub') : Fixed hub hub' := by
  unfold handleUnexpected at h
  split at h <;> cases h <;> exact fixed_onSession

theorem fixed_handleReply (h : handleReply hub x = some hub') : Fixed hub hub' := by
  unfold handleReply at h
  split at h <;> cases h
  exact fixed_onSession

theorem fixed_handleJoin {code : Option String} {intel : Intel}
    (h : handleJoin hub x code intel = some hub') : Fixed hub hub' := by
  unfold handleJoin at h
  split at h
  · split at h <;> cases h
    · exact fixed_onSession
    · next q _ =>
      have hj : Fixed hub (hub.onTunnel q fun tunnel =>
          { tunnel with joiners := tunnel.joiners ++ [x] }) := fixed_onTunnel (by rfl)
      exact hj.trans fixed_onSession
  · cases h

/-- Every event leaves a tunnel, gives it a policy or says whether it is persistent. -/
theorem changes (hs : step hub e = some hub') (hr : r < hub.nextTunnel) :
    Changes hub e r (fixed (hub'.heap r)) := by
  cases e with
  | tick _ | configure _ | sweep | connect _ => cases hs; exact .same rfl
  | wsCloses x | bye x | handshakeTimeout x =>
    rw [step, Option.ite_none_right_eq_some] at hs
    obtain ⟨-, hs⟩ := hs
    cases hs
    exact .of_fixed fixed_onSession
  | socketClose x =>
    rw [step, Option.ite_none_right_eq_some] at hs
    obtain ⟨-, hs⟩ := hs
    cases hs
    have hc := fixed_onCloseAll (hub.onSession x fun session =>
      { session with closed := true, wsOpen := false, closeListeners := [] })
      (hub.sessions x).closeListeners x
    exact .of_fixed (fixed_onSession.trans hc)
  | hello x answer =>
    rw [step, Option.ite_none_right_eq_some] at hs
    exact .of_fixed (fixed_handleHello hs.2)
  | unexpected x =>
    rw [step, Option.ite_none_right_eq_some] at hs
    exact .of_fixed (fixed_handleUnexpected hs.2)
  | join x code intel =>
    rw [step, Option.ite_none_right_eq_some] at hs
    exact .of_fixed (fixed_handleJoin hs.2)
  | register x request draw => exact changes_takes hr (takes rfl hs).2
  | proceed x answer draw => exact changes_takes hr (takes rfl hs).2
  | reply x =>
    rw [step, Option.ite_none_right_eq_some] at hs
    exact .of_fixed (fixed_handleReply hs.2)
  | graceFires timer =>
    obtain ⟨⟨t, q⟩, -, hs⟩ := Option.map_eq_some_iff.mp hs
    cases hs
    unfold Hub.onGraceTimer
    refine .of_fixed (Fixed.trans (.of_heap ?_) (fixed_remove ..))
    rfl
  | remove id => cases hs; exact .of_fixed (fixed_remove ..)
  | closeFor accountId => cases hs; exact .of_fixed (fixed_removeAll ..)
  | closeCredential credential => cases hs; exact .of_fixed (fixed_removeAll ..)
  | updateAccess id input hash =>
    cases hs
    unfold updateAccess
    split
    · exact .same rfl
    · next q hq =>
      split
      · exact .same rfl
      · next policy hpolicy =>
        exact changes_changePolicy (by simp [webPolicy, hq, hpolicy])
  | applyLive id policy =>
    cases hs
    unfold applyLive
    split
    · exact .same rfl
    · next q hq => exact changes_changePolicy (by simp [webPolicy, hq])
  | setPersistent q persistent =>
    rw [step, Option.ite_none_right_eq_some] at hs
    obtain ⟨-, hs⟩ := hs
    cases hs
    by_cases hq : r = q
    · subst hq
      refine .persists rfl ?_
      simp [Hub.onTunnel, fixed]
    · refine .same ?_
      simp [Hub.onTunnel, hq]

end Tunlit.Registry.Calls
