import Tunlit.Registry.Holders

/-! # Whose sessions tunnels are attached to

A session that has been let in stays its owner's. `_attach` notes the credential of the
session on the tunnel, where `closeCredential` looks for it. -/
namespace Tunlit.Registry.Occupants
open Function Tunlit.Lib.Insertion Tunlit.Lib.Leases Tunlit.Access.Policy Tunlit.Registry.State
  Tunlit.Registry.Register Tunlit.Registry.System Tunlit.Registry.Leases Tunlit.Registry.Steps Tunlit.Registry.Reach
  Tunlit.Registry.Fields Tunlit.Registry.Calls Tunlit.Registry.Holders

def phaseOwner : Phase → Option Owner
  | .setup (.owner owner) | .ready (.owner owner) => some owner
  | .registering call => some call.owner
  | .hello | .setup .joiner | .ready .joiner => none

/-- Who has opened a session, once it has been let in. -/
def ownerOf (hub : Hub) (x : SessionRef) : Option Owner := phaseOwner (hub.sessions x).phase

variable {hub hub' hub'' : Hub} {x y : SessionRef} {r : TunnelRef} {call : Call} {draw : Draw}
  {before : Option Point} {outcome : Outcome} {e : Event} {owner : Owner}

theorem callFor_owner {config : Config} {request : Request}
    (h : callFor config owner request = .ok call) : call.owner = owner := by
  unfold callFor at h
  split at h
  · cases h
  · split at h <;> cases h
    rfl

theorem ownerOf_of_call (h : callOf hub x = some call) : ownerOf hub x = some call.owner := by
  rw [ownerOf, callOf_eq_some.mp h]
  rfl

/-! ## Owners -/

/-- A session stays its owner's, or is new. -/
structure Stays (hub hub' : Hub) (y : SessionRef) : Prop where
  stays : y < hub.nextSession → ∀ owner, ownerOf hub y = some owner → ownerOf hub' y = some owner
  known : ∀ owner, ownerOf hub' y = some owner →
    ownerOf hub y = some owner ∨ y < hub.nextSession

theorem Stays.of_phase (h : (hub'.sessions y).phase = (hub.sessions y).phase) : Stays hub hub' y :=
  have heq : ownerOf hub' y = ownerOf hub y := congrArg phaseOwner h
  ⟨fun _ _ ho => heq.trans ho, fun _ ho => .inl (heq.symm.trans ho)⟩

theorem stays_seated (h : Seated hub hub') : Stays hub hub' y := .of_phase (h.seat y).phase

/-- A handler changes the phase of a session of which it has found out that it is there. -/
theorem stays_onSession {f : Session → Session} (hx : x < hub.nextSession)
    (h : (hub'.sessions y).phase = (hub.sessions y).phase)
    (hf : ∀ owner, ownerOf hub x = some owner → phaseOwner (f (hub'.sessions x)).phase = some owner) :
    Stays hub (hub'.onSession x f) y := by
  by_cases hy : y = x
  · subst hy
    have hself : (hub'.onSession y f).sessions y = f (hub'.sessions y) := update_self ..
    refine ⟨fun _ owner ho => ?_, fun _ _ => .inr hx⟩
    rw [ownerOf, hself]
    exact hf owner ho
  · have hother : (hub'.onSession x f).sessions y = hub'.sessions y := update_of_ne hy ..
    exact .of_phase ((congrArg Session.phase hother).trans h)

theorem stays_settle (hx : x < hub.nextSession) (h : OwnTunnel x hub hub')
    (hc : ∀ owner, ownerOf hub x = some owner → call.owner = owner) :
    Stays hub (settle hub' x call outcome) y := by
  cases outcome with
  | waits point =>
    simp only [settle]
    exact stays_onSession hx (h.phase y) fun owner ho => congrArg some (hc owner ho)
  | threw failure =>
    simp only [settle]
    exact stays_onSession hx (h.phase y) fun owner ho => congrArg some (hc owner ho)

theorem stays_takes (hx : x < hub.nextSession) (h : Takes hub x e hub') : Stays hub hub' y := by
  cases h with
  | refuses _ _ => exact stays_seated (seated_onSession (sameSeat_fail _ _))
  | @begins request _ owner call _ _ hp hc h =>
    refine stays_settle hx (start_does h).ownTunnel fun owner' ho => ?_
    rw [ownerOf, hp] at ho
    rw [callFor_owner hc]
    exact Option.some.inj ho
  | goesOn hp h =>
    refine stays_settle hx (proceed_does h).ownTunnel fun owner' ho => ?_
    rw [ownerOf, hp] at ho
    exact Option.some.inj ho

/-- The owner of a session that is there stays as it is in a step, and only a session that is there
gets one. -/
theorem stays (hs : step hub e = some hub') : Stays hub hub' y := by
  cases e with
  | tick _ | configure _ | sweep => cases hs; exact stays_seated ⟨fun _ => .rfl⟩
  | connect ip =>
    cases hs
    by_cases hy : y = hub.nextSession
    · subst hy
      refine ⟨fun hlt => absurd hlt (Nat.lt_irrefl _), fun owner ho => ?_⟩
      simp [ownerOf, phaseOwner] at ho
    · exact .of_phase (by simp only [update_of_ne hy])
  | wsCloses x =>
    rw [step, Option.ite_none_right_eq_some] at hs
    obtain ⟨-, hs⟩ := hs
    cases hs
    exact stays_seated (seated_onSession (sameSeat_close _))
  | socketClose x =>
    rw [step, Option.ite_none_right_eq_some, Bool.and_eq_true, decide_eq_true_eq] at hs
    obtain ⟨⟨hx, -⟩, hs⟩ := hs
    cases hs
    refine .of_phase (((seated_onCloseAll _ _ x).seat y).phase.trans ?_)
    by_cases hy : y = x
    · subst hy; simp [Hub.onSession]
    · simp [Hub.onSession, update_of_ne hy]
  | hello x answer =>
    rw [step, Option.ite_none_right_eq_some] at hs
    obtain ⟨hx, hs⟩ := hs
    unfold handleHello at hs
    split at hs
    · cases hs
    · next hp =>
      split at hs <;> cases hs
      · exact stays_seated (seated_onSession (sameSeat_fail _ _))
      · refine stays_onSession hx rfl fun owner ho => ?_
        rw [ownerOf, not_not.mp hp] at ho
        cases ho
  | unexpected x =>
    rw [step, Option.ite_none_right_eq_some] at hs
    have hs := hs.2
    unfold handleUnexpected at hs
    split at hs <;> cases hs <;> exact stays_seated (seated_onSession (sameSeat_fail _ _))
  | bye x =>
    rw [step, Option.ite_none_right_eq_some] at hs
    obtain ⟨-, hs⟩ := hs
    cases hs
    exact stays_seated (seated_onSession ⟨rfl, rfl, rfl, rfl⟩)
  | join x code intel =>
    rw [step, Option.ite_none_right_eq_some] at hs
    obtain ⟨hx, hs⟩ := hs
    unfold handleJoin at hs
    split at hs
    · next hp =>
      split at hs <;> cases hs
      · exact stays_seated (seated_onSession (sameSeat_fail _ _))
      · refine stays_onSession hx rfl fun owner ho => ?_
        rw [ownerOf, hp] at ho
        cases ho
    · cases hs
  | register x request draw => exact stays_takes (takes rfl hs).1 (takes rfl hs).2
  | proceed x answer draw => exact stays_takes (takes rfl hs).1 (takes rfl hs).2
  | reply x =>
    rw [step, Option.ite_none_right_eq_some] at hs
    obtain ⟨hx, hs⟩ := hs
    unfold handleReply at hs
    split at hs
    · next hp =>
      cases hs
      refine stays_onSession hx rfl fun owner ho => ?_
      rw [(sameSeat_sendControl _ _).phase]
      rw [ownerOf, hp] at ho
      exact ho
    · cases hs
  | handshakeTimeout x =>
    rw [step, Option.ite_none_right_eq_some] at hs
    obtain ⟨-, hs⟩ := hs
    cases hs
    exact stays_seated (seated_onSession (sameSeat_fail _ _))
  | graceFires timer =>
    obtain ⟨⟨t, r⟩, -, hs⟩ := Option.map_eq_some_iff.mp hs
    cases hs
    refine stays_seated (Seated.trans ?_ (seated_remove ..))
    exact ⟨fun _ => .rfl⟩
  | remove id => cases hs; exact stays_seated (seated_remove ..)
  | closeFor accountId => cases hs; exact stays_seated (seated_removeAll ..)
  | closeCredential credential => cases hs; exact stays_seated (seated_removeAll ..)
  | updateAccess id input hash => cases hs; exact stays_seated seated_updateAccess
  | applyLive id policy => cases hs; exact stays_seated seated_applyLive
  | setPersistent r persistent =>
    rw [step, Option.ite_none_right_eq_some] at hs
    obtain ⟨-, hs⟩ := hs
    cases hs
    exact stays_seated ⟨fun _ => .rfl⟩

/-! ## Tunnels -/

/-- A tunnel may lose its session, but gets none. -/
structure Vacates (hub hub' : Hub) : Prop where
  vacates : ∀ r x, (hub'.heap r).session = some x →
    (hub.heap r).session = some x ∧ (hub'.heap r).credential = (hub.heap r).credential

theorem Vacates.of_heap (h : hub'.heap = hub.heap) : Vacates hub hub' :=
  ⟨fun r x hx => by rw [h] at hx ⊢; exact ⟨hx, rfl⟩⟩

theorem Vacates.rfl : Vacates hub hub := .of_heap (.refl _)

theorem Vacates.trans (h : Vacates hub hub') (h' : Vacates hub' hub'') : Vacates hub hub'' := by
  refine ⟨fun r x hx => ?_⟩
  obtain ⟨hx, hc⟩ := h'.vacates r x hx
  obtain ⟨hx, hc'⟩ := h.vacates r x hx
  exact ⟨hx, hc.trans hc'⟩

theorem vacates_onTunnel {f : Tunnel → Tunnel} (h : ∀ x, (f (hub.heap r)).session = some x →
      (hub.heap r).session = some x ∧ (f (hub.heap r)).credential = (hub.heap r).credential) :
    Vacates hub (hub.onTunnel r f) := by
  refine ⟨fun q x hx => ?_⟩
  by_cases hq : q = r
  · subst hq
    simp only [Hub.onTunnel, update_self] at hx ⊢
    exact h x hx
  · simp only [Hub.onTunnel, update_of_ne hq] at hx ⊢
    exact ⟨hx, trivial⟩

theorem vacates_remove (id reason : String) : Vacates hub (hub.remove id reason) := by
  unfold Hub.remove
  split
  · exact .rfl
  · refine Vacates.trans (Vacates.of_heap ?_) (vacates_onTunnel ?_)
    · rw [endAll_heap, endAll_heap]
      rfl
    · exact fun x hx => ⟨hx, Eq.refl _⟩

theorem vacates_removeAll (tunnels : List TunnelRef) (reason : String) :
    Vacates hub (hub.removeAll tunnels reason) := by
  induction tunnels generalizing hub with
  | nil => exact .rfl
  | cons r tunnels ih => exact (vacates_remove ..).trans ih

theorem vacates_onClose (x : SessionRef) (listener : Listener) :
    Vacates hub (hub.onClose x listener) := by
  cases listener with
  | joiner r =>
    simp only [Hub.onClose]
    exact vacates_onTunnel fun _ hx => ⟨hx, Eq.refl _⟩
  | owner r =>
    have hnone : Vacates hub (hub.onTunnel r fun tunnel => { tunnel with session := none }) :=
      vacates_onTunnel fun _ hx => by cases hx
    simp only [Hub.onClose, Hub.onOwnerClose]
    split
    · exact .rfl
    split
    · exact hnone.trans (vacates_remove ..)
    · simp only [Hub.startGrace]
      split
      · exact hnone.trans (vacates_remove ..)
      · have hgrace : ∀ hub : Hub, Vacates hub (hub.onTunnel r fun tunnel => { tunnel with
            graceUntil := some (hub.now + hub.config.gracePeriod)
            graceTimer := some hub.nextTimer }) :=
          fun _ => vacates_onTunnel fun _ hx => ⟨hx, Eq.refl _⟩
        exact hnone.trans ⟨(hgrace _).vacates⟩

theorem vacates_onCloseAll (hub : Hub) (listeners : List Listener) (x : SessionRef) :
    Vacates hub (listeners.foldl (fun hub listener => hub.onClose x listener) hub) := by
  induction listeners generalizing hub with
  | nil => exact .rfl
  | cons listener listeners ih => exact (vacates_onClose ..).trans (ih _)

theorem vacates_changePolicy {id : String} {policy : AccessPolicy} :
    Vacates hub (changePolicy hub id r policy) :=
  have h : Vacates hub (hub.onTunnel r fun tunnel => { tunnel with policy := policy }) :=
    vacates_onTunnel fun _ hx => ⟨hx, Eq.refl _⟩
  ⟨h.vacates⟩

theorem vacates_applyLive {id : String} {policy : AccessPolicy} :
    Vacates hub (applyLive hub id policy) := by
  unfold applyLive
  split
  · exact .rfl
  · exact vacates_changePolicy

/-- Tunnels get sessions in the turns of calls. -/
theorem vacates_step (he : turnOf e = none) (hs : step hub e = some hub') : Vacates hub hub' := by
  have hsession : ∀ {y f}, Vacates hub (hub.onSession y f) := .of_heap (Eq.refl _)
  cases e with
  | register _ _ _ | proceed _ _ _ => cases he
  | tick _ | configure _ | sweep | connect _ => cases hs; exact .of_heap (Eq.refl _)
  | wsCloses x | bye x | handshakeTimeout x =>
    rw [step, Option.ite_none_right_eq_some] at hs
    obtain ⟨-, hs⟩ := hs
    cases hs
    exact hsession
  | socketClose x =>
    rw [step, Option.ite_none_right_eq_some] at hs
    obtain ⟨-, hs⟩ := hs
    cases hs
    exact hsession.trans (vacates_onCloseAll ..)
  | hello x answer =>
    rw [step, Option.ite_none_right_eq_some] at hs
    have hs := hs.2
    unfold handleHello at hs
    split at hs
    · cases hs
    · split at hs <;> cases hs <;> exact hsession
  | unexpected x =>
    rw [step, Option.ite_none_right_eq_some] at hs
    have hs := hs.2
    unfold handleUnexpected at hs
    split at hs <;> cases hs <;> exact hsession
  | join x code intel =>
    rw [step, Option.ite_none_right_eq_some] at hs
    have hs := hs.2
    unfold handleJoin at hs
    split at hs
    · split at hs <;> cases hs
      · exact hsession
      · next r _ =>
        have hjoins : Vacates hub (hub.onTunnel r fun tunnel =>
            { tunnel with joiners := tunnel.joiners ++ [x] }) :=
          vacates_onTunnel fun _ hx => ⟨hx, Eq.refl _⟩
        exact hjoins.trans (.of_heap (Eq.refl _))
    · cases hs
  | reply x =>
    rw [step, Option.ite_none_right_eq_some] at hs
    have hs := hs.2
    unfold handleReply at hs
    split at hs <;> cases hs
    exact hsession
  | graceFires timer =>
    obtain ⟨⟨t, r⟩, -, hs⟩ := Option.map_eq_some_iff.mp hs
    cases hs
    refine Vacates.trans ?_ (vacates_remove ..)
    exact .of_heap (Eq.refl _)
  | remove id => cases hs; exact vacates_remove ..
  | closeFor accountId => cases hs; exact vacates_removeAll ..
  | closeCredential credential => cases hs; exact vacates_removeAll ..
  | updateAccess id input hash =>
    cases hs
    unfold updateAccess
    split
    · exact .rfl
    split
    · exact .rfl
    · exact vacates_changePolicy
  | applyLive id policy => cases hs; exact vacates_applyLive
  | setPersistent r persistent =>
    rw [step, Option.ite_none_right_eq_some] at hs
    obtain ⟨-, hs⟩ := hs
    cases hs
    exact vacates_onTunnel fun _ hx => ⟨hx, Eq.refl _⟩

/-- A tunnel has had its session before, or has just been attached to it. -/
def Occupied (hub hub' : Hub) (x : SessionRef) (owner : Owner) (attached : TunnelRef → Prop) :
    Prop :=
  ∀ r y, (hub'.heap r).session = some y →
    (hub.heap r).session = some y ∧ (hub'.heap r).credential = (hub.heap r).credential ∨
    y = x ∧ attached r ∧ (hub'.heap r).credential = some owner.credential

theorem Vacates.occupied {attached : TunnelRef → Prop} (h : Vacates hub hub') :
    Occupied hub hub' x owner attached := fun r y hy => .inl (h.vacates r y hy)

theorem occupied_attach (h : Vacates hub hub') :
    Occupied hub (hub'.attach r x call) x call.owner (· = r) := by
  intro q y hy
  by_cases hq : q = r
  · subst hq
    simp only [Hub.attach, Hub.onSession, Hub.onTunnel, update_self] at hy ⊢
    exact .inr ⟨(Option.some.inj hy).symm, trivial, trivial⟩
  · have htake : (hub'.takeOver r x).heap = hub'.heap := endAll_heap _ _
    have hother : (hub'.attach r x call).heap q = hub'.heap q := by
      simp only [Hub.attach, Hub.onSession, Hub.onTunnel, update_of_ne hq, htake]
    rw [hother] at hy ⊢
    exact .inl (h.vacates q y hy)

theorem vacates_creation (c : Creation before call draw) : Vacates hub (c.on hub) := by
  refine ⟨fun r x hx => ?_⟩
  by_cases hr : r = hub.nextTunnel
  · subst hr
    simp only [Creation.on, update_self] at hx
    cases hx
  · simp only [Creation.on, update_of_ne hr] at hx ⊢
    exact ⟨hx, trivial⟩

theorem occupied_publish (h : Vacates hub hub') :
    Occupied hub (publish hub' x call r).1 x call.owner (· = r) :=
  occupied_attach (h.trans (.of_heap rfl))

/-- A turn attaches the tunnel that the call returns. -/
theorem Does.occupied (h : Does hub x call draw before hub' outcome) :
    Occupied hub hub' x call.owner fun r => ∃ resumed, outcome = .waits (.returned r resumed) := by
  have hwith : ∀ {q policy}, Vacates hub (withPolicy hub q policy) :=
    vacates_onTunnel fun _ hx => ⟨hx, rfl⟩
  have hreturned : ∀ {hub' q resumed}, Occupied hub hub' x call.owner (· = q) →
      Occupied hub hub' x call.owner fun r =>
        ∃ resumed', Outcome.waits (.returned q resumed) = .waits (.returned r resumed') := by
    intro hub' q resumed h r y hy
    exact (h r y hy).imp_right fun ⟨hx, hr, hc⟩ => ⟨hx, ⟨resumed, by rw [hr]⟩, hc⟩
  cases h with
  | stays _ => exact Vacates.rfl.occupied
  | sets _ _ _ => exact hwith.occupied
  | creates c _ _ => exact (vacates_creation c).occupied
  | resumes _ => exact hreturned (occupied_attach .rfl)
  | resumesWith _ _ _ => exact hreturned (occupied_attach hwith)
  | registers c _ => exact hreturned (occupied_publish (vacates_creation c))
  | publishes _ => exact hreturned (occupied_publish .rfl)

theorem occupied_settle (h : Does hub x call draw before hub' outcome)
    (hy : ((settle hub' x call outcome).heap r).session = some y) :
    (hub.heap r).session = some y ∧
      ((settle hub' x call outcome).heap r).credential = (hub.heap r).credential ∨
    y = x ∧ ∃ resumed, callOf (settle hub' x call outcome) x =
        some { call with point := .returned r resumed } ∧
      ((settle hub' x call outcome).heap r).credential = some call.owner.credential := by
  have hheap : (settle hub' x call outcome).heap = hub'.heap := by cases outcome <;> rfl
  rw [hheap] at hy ⊢
  refine (Does.occupied h r y hy).imp_right fun ⟨hx, ⟨resumed, ho⟩, hc⟩ => ⟨hx, resumed, ?_, hc⟩
  rw [settle_callOf, ho]

/-- A session that a tunnel is attached to after a step was so before, or its call has just
returned that tunnel. -/
theorem occupied_step (hs : step hub e = some hub') (hy : (hub'.heap r).session = some y) :
    (hub.heap r).session = some y ∧ (hub'.heap r).credential = (hub.heap r).credential ∨
    ∃ call resumed, turnOf e = some y ∧ callOf hub' y = some call ∧
      call.point = .returned r resumed ∧
      (hub'.heap r).credential = some call.owner.credential := by
  cases he : turnOf e with
  | none => exact .inl ((vacates_step he hs).vacates r y hy)
  | some x =>
    obtain ⟨-, htakes⟩ := takes he hs
    have hturn : ∀ {call draw before hub₁ outcome}, Does hub x call draw before hub₁ outcome →
        hub' = settle hub₁ x call outcome →
        (hub.heap r).session = some y ∧ (hub'.heap r).credential = (hub.heap r).credential ∨
        ∃ call resumed, some x = some y ∧ callOf hub' y = some call ∧
          call.point = .returned r resumed ∧
          (hub'.heap r).credential = some call.owner.credential := by
      rintro call draw before hub₁ outcome h rfl
      refine (occupied_settle h hy).imp_right ?_
      rintro ⟨rfl, resumed, hc, hcred⟩
      exact ⟨_, resumed, rfl, hc, rfl, hcred⟩
    cases htakes with
    | refuses _ _ => exact .inl ⟨hy, rfl⟩
    | begins _ _ h => exact hturn (start_does h) rfl
    | goesOn _ h => exact hturn (proceed_does h) rfl

/-! ## Who is attached -/

/-- The session of a call has had its owner before. -/
theorem ownerOf_of_comes (hs : step hub e = some hub') (hx : turnOf e = some x)
    (h : Comes hub x e hub' call) (ho : ownerOf hub' x = some owner) :
    ownerOf hub x = some owner := by
  have hlt := (takes hx hs).1
  have hsome : ∃ owner', ownerOf hub x = some owner' := by
    cases h with
    | begins hp _ _ => exact ⟨_, congrArg phaseOwner hp⟩
    | goesOn hp _ => exact ⟨_, ownerOf_of_call hp⟩
  obtain ⟨owner', ho'⟩ := hsome
  rw [ho', Option.some.inj (((stays hs).stays hlt owner' ho').symm.trans ho)]

/-- The sessions of owners are there, and a tunnel has the credential of its session. -/
structure Seats (hub : Hub) : Prop where
  known : ∀ x owner, ownerOf hub x = some owner → x < hub.nextSession
  credential : ∀ r x, (hub.heap r).session = some x → ∃ owner, ownerOf hub x = some owner ∧
    (hub.heap r).credential = some owner.credential

theorem seats_init (config : Config) : Seats { config := config } :=
  ⟨fun _ _ h => (by cases h), fun _ _ h => (by cases h)⟩

theorem Seats.of_vacates (h : Seats hub) (hs : Seated hub hub')
    (hn : hub.nextSession ≤ hub'.nextSession) (hv : Vacates hub hub') : Seats hub' := by
  have howner : ∀ x, ownerOf hub' x = ownerOf hub x := fun x => congrArg phaseOwner (hs.seat x).phase
  refine ⟨fun x owner ho => ?_, fun r x hx => ?_⟩
  · exact Nat.lt_of_lt_of_le (h.known x owner (howner x ▸ ho)) hn
  · obtain ⟨hold, hc⟩ := hv.vacates r x hx
    rw [howner, hc]
    exact h.credential r x hold

theorem seats_step (hb : Basic hub) (h : Seats hub) (hs : step hub e = some hub') : Seats hub' := by
  have hle := nextSession_le (step_effect hb.unused hs)
  refine ⟨fun x owner ho => ?_, fun r x hx => ?_⟩
  · refine Nat.lt_of_lt_of_le ?_ hle
    exact ((stays hs).known owner ho).elim (h.known x owner) id
  · rcases occupied_step hs hx with ⟨hold, hc⟩ | ⟨call, resumed, -, hcall, -, hc⟩
    · obtain ⟨owner, ho, hcred⟩ := h.credential r x hold
      exact ⟨owner, (stays hs).stays (h.known x owner ho) owner ho, hc.trans hcred⟩
    · exact ⟨call.owner, ownerOf_of_call hcall, hc⟩

/-- The owners of the sessions that the tunnels of the registry are attached to. -/
def attached (hub : Hub) : List Owner :=
  hub.tunnels.values.filterMap fun r => (hub.heap r).session.bind (ownerOf hub)

theorem mem_attached : owner ∈ attached hub ↔ ∃ id r x,
    hub.tunnels.get id = some r ∧ (hub.heap r).session = some x ∧ ownerOf hub x = some owner := by
  simp only [attached, List.mem_filterMap, OrderedMap.mem_values, Option.bind_eq_some_iff]
  exact ⟨fun ⟨r, ⟨id, hr⟩, x, hx, ho⟩ => ⟨id, r, x, hr, hx, ho⟩,
    fun ⟨id, r, x, hr, hx, ho⟩ => ⟨r, ⟨id, hr⟩, x, hx, ho⟩⟩

/-- `closeCredential` finds every tunnel that is attached to a session of the credential. -/
theorem attached_closeCredential {credential reason : String} (hb : Basic hub) (h : Seats hub)
    (ho : owner ∈ attached (hub.closeCredential credential reason)) :
    owner.credential ≠ credential := by
  intro heq
  subst heq
  obtain ⟨id, r, x, hr, hx, hx'⟩ := mem_attached.mp ho
  have hbefore := ((vacates_removeAll _ _).vacates r x hx).1
  have howner : ownerOf hub x = some owner :=
    (congrArg phaseOwner ((seated_removeAll _ _).seat x).phase).symm.trans hx'
  obtain ⟨owner', howner', hc⟩ := h.credential r x hbefore
  obtain rfl := Option.some.inj (howner.symm.trans howner')
  have hslot : (leases (hub.closeCredential owner.credential reason)).slot id = some r := hr
  rw [Hub.closeCredential, leases_removeAll] at hslot
  have hold : hub.tunnels.get id = some r := Table.slot_of_releaseAll hslot
  have hid : (hub.heap r).id = id := (hb.sound.named id r hold).1
  have hmem : id ∈ (hub.tunnels.values.filter fun r =>
      (hub.heap r).credential = some owner.credential).map fun r => (hub.heap r).id :=
    List.mem_map.mpr ⟨r, List.mem_filter.mpr
      ⟨OrderedMap.mem_values.mpr ⟨id, hold⟩, decide_eq_true hc⟩, hid⟩
  rw [Table.releaseAll_slot_mem hmem] at hslot
  cases hslot

end Tunlit.Registry.Occupants
