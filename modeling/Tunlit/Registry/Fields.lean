import Tunlit.Registry.Reach

/-! # What a step leaves of tunnels and sessions

Most of a tunnel is fixed when it is made, its policy is changed by few events, and most of
a session is fixed from `connect` on. -/
namespace Tunlit.Registry.Fields
open Function Tunlit.Access.Policy Tunlit.Registry.Names Tunlit.Registry.State
  Tunlit.Registry.Register Tunlit.Registry.System Tunlit.Registry.Leases

variable {hub hub' : Hub} {x : SessionRef} {r : TunnelRef} {call : Call} {e : Event}

/-! ## Sessions -/

/-- The fields of a session that other sessions and tunnels leave alone. -/
structure SameSeat (s t : Session) : Prop where
  ip : t.ip = s.ip
  phase : t.phase = s.phase
  tunnel : t.tunnel = s.tunnel
  closed : t.closed = s.closed

theorem SameSeat.rfl {s : Session} : SameSeat s s := ⟨.refl _, .refl _, .refl _, .refl _⟩

theorem SameSeat.trans {s t u : Session} (h : SameSeat s t) (h' : SameSeat t u) : SameSeat s u :=
  ⟨h'.ip.trans h.ip, h'.phase.trans h.phase, h'.tunnel.trans h.tunnel, h'.closed.trans h.closed⟩

theorem sameSeat_sendControl (s : Session) (m : Control) : SameSeat s (s.sendControl m) := by
  unfold Session.sendControl
  split <;> exact ⟨rfl, rfl, rfl, rfl⟩

theorem sameSeat_close (s : Session) : SameSeat s s.close := ⟨rfl, rfl, rfl, rfl⟩

theorem sameSeat_fail (s : Session) (failure : Failure) : SameSeat s (s.fail failure) :=
  (sameSeat_sendControl ..).trans (sameSeat_close _)

theorem sameSeat_ended (s : Session) (reason : String) : SameSeat s (s.ended reason) := by
  unfold Session.ended
  split
  · exact .rfl
  · exact (sameSeat_sendControl ..).trans (sameSeat_close _)

/-- Every session keeps its seat. -/
structure Seated (hub hub' : Hub) : Prop where
  seat : ∀ y, SameSeat (hub.sessions y) (hub'.sessions y)

theorem Seated.rfl : Seated hub hub := ⟨fun _ => .rfl⟩

theorem Seated.trans {hub'' : Hub} (h : Seated hub hub') (h' : Seated hub' hub'') :
    Seated hub hub'' := ⟨fun y => (h.seat y).trans (h'.seat y)⟩

theorem seated_onSession {f : Session → Session}
    (h : SameSeat (hub.sessions x) (f (hub.sessions x))) : Seated hub (hub.onSession x f) := by
  refine ⟨fun y => ?_⟩
  by_cases hy : y = x
  · subst hy
    simpa only [Hub.onSession, update_self] using h
  · simp only [Hub.onSession, update_of_ne hy]
    exact .rfl

theorem seated_endAll (h : hub'.sessions = hub.sessions) (sessions : List SessionRef)
    (reason : String) : Seated hub (hub'.endAll sessions reason) := by
  induction sessions generalizing hub hub' with
  | nil => exact ⟨fun y => by rw [Hub.endAll, List.foldl_nil, h]; exact .rfl⟩
  | cons x sessions ih =>
    have hx : Seated hub (hub'.endSession x reason) :=
      ⟨fun y => by rw [← h]; exact (seated_onSession (sameSeat_ended ..)).seat y⟩
    exact hx.trans (ih rfl)

theorem seated_remove (id reason : String) : Seated hub (hub.remove id reason) := by
  unfold Hub.remove
  split
  · exact .rfl
  · refine ⟨fun y => ?_⟩
    show SameSeat _ ((Hub.endAll _ _ _).sessions y)
    refine SameSeat.trans ?_ ((seated_endAll (by rfl) _ _).seat y)
    exact (seated_endAll (by rfl) _ _).seat y

theorem seated_removeAll (tunnels : List TunnelRef) (reason : String) :
    Seated hub (hub.removeAll tunnels reason) := by
  induction tunnels generalizing hub with
  | nil => exact .rfl
  | cons r tunnels ih => exact (seated_remove ..).trans ih

theorem seated_onClose (x : SessionRef) (listener : Listener) :
    Seated hub (hub.onClose x listener) := by
  cases listener with
  | joiner r => exact ⟨fun _ => .rfl⟩
  | owner r =>
    have hnone : Seated hub (hub.onTunnel r fun tunnel => { tunnel with session := none }) :=
      ⟨fun _ => .rfl⟩
    simp only [Hub.onClose, Hub.onOwnerClose]
    split
    · exact .rfl
    split
    · exact hnone.trans (seated_remove ..)
    · simp only [Hub.startGrace]
      split
      · exact hnone.trans (seated_remove ..)
      · exact ⟨fun _ => .rfl⟩

theorem seated_onCloseAll (hub : Hub) (listeners : List Listener) (x : SessionRef) :
    Seated hub (listeners.foldl (fun hub listener => hub.onClose x listener) hub) := by
  induction listeners generalizing hub with
  | nil => exact .rfl
  | cons listener listeners ih => exact (seated_onClose ..).trans (ih _)

theorem seated_changePolicy {id : String} {policy : AccessPolicy} :
    Seated hub (changePolicy hub id r policy) := ⟨fun _ => .rfl⟩

theorem seated_updateAccess {id : String} {input : PolicyInput} {hash : String} :
    Seated hub (updateAccess hub id input hash) := by
  unfold updateAccess
  split
  · exact .rfl
  split
  · exact .rfl
  · exact seated_changePolicy

theorem seated_applyLive {id : String} {policy : AccessPolicy} :
    Seated hub (applyLive hub id policy) := by
  unfold applyLive
  split
  · exact .rfl
  · exact seated_changePolicy

/-- Nothing but the tunnel of one session is new. -/
structure OwnTunnel (x : SessionRef) (hub hub' : Hub) : Prop where
  ip : ∀ y, (hub'.sessions y).ip = (hub.sessions y).ip
  phase : ∀ y, (hub'.sessions y).phase = (hub.sessions y).phase
  closed : ∀ y, (hub'.sessions y).closed = (hub.sessions y).closed
  tunnel : ∀ y, y ≠ x → (hub'.sessions y).tunnel = (hub.sessions y).tunnel

theorem Seated.ownTunnel (h : Seated hub hub') : OwnTunnel x hub hub' :=
  ⟨fun y => (h.seat y).ip, fun y => (h.seat y).phase, fun y => (h.seat y).closed,
    fun y _ => (h.seat y).tunnel⟩

theorem OwnTunnel.trans {hub'' : Hub} (h : OwnTunnel x hub hub') (h' : OwnTunnel x hub' hub'') :
    OwnTunnel x hub hub'' :=
  ⟨fun y => (h'.ip y).trans (h.ip y), fun y => (h'.phase y).trans (h.phase y),
    fun y => (h'.closed y).trans (h.closed y), fun y hy => (h'.tunnel y hy).trans (h.tunnel y hy)⟩

theorem ownTunnel_onSession {f : Session → Session}
    (h : (f (hub.sessions x)).ip = (hub.sessions x).ip ∧
      (f (hub.sessions x)).phase = (hub.sessions x).phase ∧
      (f (hub.sessions x)).closed = (hub.sessions x).closed) :
    OwnTunnel x hub (hub.onSession x f) := by
  obtain ⟨hip, hphase, hclosed⟩ := h
  have hother : ∀ y, y ≠ x → (hub.onSession x f).sessions y = hub.sessions y :=
    fun y hy => update_of_ne hy ..
  have hself : (hub.onSession x f).sessions x = f (hub.sessions x) := update_self ..
  constructor
  · intro y; by_cases hy : y = x
    · rw [hy, hself, hip]
    · rw [hother y hy]
  · intro y; by_cases hy : y = x
    · rw [hy, hself, hphase]
    · rw [hother y hy]
  · intro y; by_cases hy : y = x
    · rw [hy, hself, hclosed]
    · rw [hother y hy]
  · intro y hy; rw [hother y hy]

/-- The session of a call gets a tunnel. -/
theorem ownTunnel_attach (h : hub'.sessions = hub.sessions) :
    OwnTunnel x hub (hub'.attach r x call) := by
  have htake : Seated hub (hub'.takeOver r x) := by
    unfold Hub.takeOver
    exact seated_endAll (by exact h) _ _
  have htunnel : ∀ f, Seated hub ((hub'.takeOver r x).onTunnel r f) := fun _ => ⟨htake.seat⟩
  simp only [Hub.attach]
  exact (htunnel _).ownTunnel.trans (ownTunnel_onSession ⟨rfl, rfl, rfl⟩)

/-! ## Tunnels -/

/-- A tunnel without what its sessions change. -/
def fixed (tunnel : Tunnel) : Tunnel :=
  { tunnel with
    target := ⟨"", 0⟩
    keepHost := false
    session := none
    joiners := []
    graceTimer := none
    graceUntil := none
    credential := none }

/-- No tunnel is changed but by its sessions. -/
structure Fixed (hub hub' : Hub) : Prop where
  fixed : ∀ r, fixed (hub'.heap r) = fixed (hub.heap r)

theorem Fixed.rfl : Fixed hub hub := ⟨fun _ => .refl _⟩

theorem Fixed.trans {hub'' : Hub} (h : Fixed hub hub') (h' : Fixed hub' hub'') : Fixed hub hub'' :=
  ⟨fun r => (h'.fixed r).trans (h.fixed r)⟩

theorem Fixed.of_heap (h : hub'.heap = hub.heap) : Fixed hub hub' := ⟨fun r => by rw [h]⟩

theorem Fixed.policy (h : Fixed hub hub') (r : TunnelRef) :
    (hub'.heap r).policy = (hub.heap r).policy := congrArg (·.policy) (h.fixed r)

theorem Fixed.persistent (h : Fixed hub hub') (r : TunnelRef) :
    (hub'.heap r).persistent = (hub.heap r).persistent := congrArg (·.persistent) (h.fixed r)

theorem Fixed.id (h : Fixed hub hub') (r : TunnelRef) : (hub'.heap r).id = (hub.heap r).id :=
  congrArg (·.id) (h.fixed r)

theorem Fixed.accountId (h : Fixed hub hub') (r : TunnelRef) :
    (hub'.heap r).accountId = (hub.heap r).accountId := congrArg (·.accountId) (h.fixed r)

theorem fixed_onTunnel {f : Tunnel → Tunnel} (h : fixed (f (hub.heap r)) = fixed (hub.heap r)) :
    Fixed hub (hub.onTunnel r f) := by
  refine ⟨fun q => ?_⟩
  by_cases hq : q = r
  · subst hq; simpa only [Hub.onTunnel, update_self] using h
  · simp only [Hub.onTunnel, update_of_ne hq]

theorem endAll_heap (sessions : List SessionRef) (reason : String) :
    (hub.endAll sessions reason).heap = hub.heap := by
  induction sessions generalizing hub with
  | nil => rfl
  | cons x sessions ih => exact @ih (hub.endSession x reason)

theorem fixed_remove (id reason : String) : Fixed hub (hub.remove id reason) := by
  unfold Hub.remove
  split
  · exact .rfl
  · refine Fixed.trans (Fixed.of_heap ?_) (fixed_onTunnel ?_)
    · rw [endAll_heap, endAll_heap]
      rfl
    · rfl

theorem fixed_removeAll (tunnels : List TunnelRef) (reason : String) :
    Fixed hub (hub.removeAll tunnels reason) := by
  induction tunnels generalizing hub with
  | nil => exact .rfl
  | cons r tunnels ih => exact (fixed_remove ..).trans ih

theorem fixed_onClose (x : SessionRef) (listener : Listener) : Fixed hub (hub.onClose x listener) := by
  cases listener with
  | joiner r =>
    simp only [Hub.onClose]
    exact fixed_onTunnel (by rfl)
  | owner r =>
    have hnone : Fixed hub (hub.onTunnel r fun tunnel => { tunnel with session := none }) :=
      fixed_onTunnel (by rfl)
    simp only [Hub.onClose, Hub.onOwnerClose]
    split
    · exact .rfl
    split
    · exact hnone.trans (fixed_remove ..)
    · simp only [Hub.startGrace]
      split
      · exact hnone.trans (fixed_remove ..)
      · have hgrace : ∀ hub : Hub, Fixed hub (hub.onTunnel r fun tunnel => { tunnel with
            graceUntil := some (hub.now + hub.config.gracePeriod)
            graceTimer := some hub.nextTimer }) := fun _ => fixed_onTunnel (by rfl)
        exact hnone.trans ⟨(hgrace _).fixed⟩

theorem fixed_onCloseAll (hub : Hub) (listeners : List Listener) (x : SessionRef) :
    Fixed hub (listeners.foldl (fun hub listener => hub.onClose x listener) hub) := by
  induction listeners generalizing hub with
  | nil => exact .rfl
  | cons listener listeners ih => exact (fixed_onClose ..).trans (ih _)

theorem fixed_attach : Fixed hub (hub.attach r x call) := by
  have htake : Fixed hub (hub.takeOver r x) := .of_heap (endAll_heap _ _)
  simp only [Hub.attach]
  have hset : Fixed (hub.takeOver r x) ((hub.takeOver r x).onTunnel r fun tunnel => { tunnel with
      credential := some call.owner.credential
      graceTimer := none
      graceUntil := none
      session := some x
      target := call.target
      keepHost := call.request.keepHost }) := fixed_onTunnel (by rfl)
  exact htake.trans ⟨hset.fixed⟩

theorem fixed_onSession {f : Session → Session} : Fixed hub (hub.onSession x f) := .of_heap rfl

end Tunlit.Registry.Fields
