import Tunlit.Registry.Joiners
import Tunlit.Registry.Occupants

/-! # The tunnel of an owner's session

`_attach` gives an owner's session its tunnel once, at the end of the session's only
call that returns. The tunnel may lose the session, its name or both, and gets none of
them back. -/
namespace Tunlit.Registry.Seating
open Function Tunlit.Lib.Leases Tunlit.Lib.Runs Tunlit.Access.Policy Tunlit.Registry.State
  Tunlit.Registry.Register Tunlit.Registry.System Tunlit.Registry.Leases Tunlit.Registry.Steps
  Tunlit.Registry.Reach Tunlit.Registry.Fields Tunlit.Registry.Calls Tunlit.Registry.Holders
  Tunlit.Registry.Occupants

/-- A session in this phase has got its tunnel, or has joined one. -/
def settled : Phase → Bool
  | .ready _ => true
  | .registering call =>
    match call.point with
    | .returned .. => true
    | _ => false
  | _ => false

/-- The tunnel of a session that an owner has opened. -/
def seat (session : Session) : Option TunnelRef :=
  (phaseOwner session.phase).bind fun _ => session.tunnel

def tunnelOf (hub : Hub) (x : SessionRef) : Option TunnelRef := seat (hub.sessions x)

/-- A session has no tunnel before it is settled. -/
def Idle (session : Session) : Prop := settled session.phase = false → session.tunnel = none

def Registered (hub : Hub) (r : TunnelRef) : Prop := hub.tunnels.get (hub.heap r).id = some r

/-- The session over which a tunnel of the registry is online. -/
def Current (hub : Hub) (r : TunnelRef) (x : SessionRef) : Prop :=
  Registered hub r ∧ (hub.heap r).session = some x ∧ (hub.sessions x).closed = false

instance (hub : Hub) (r : TunnelRef) : Decidable (Registered hub r) :=
  inferInstanceAs (Decidable (_ = _))

instance (hub : Hub) (r : TunnelRef) (x : SessionRef) : Decidable (Current hub r x) :=
  inferInstanceAs (Decidable (_ ∧ _ ∧ _))

variable {hub hub' : Hub} {x y : SessionRef} {r : TunnelRef} {call : Call} {draw : Draw}
  {before : Option Point} {outcome : Outcome} {e : Event}

/-! ## Sessions outside of a turn -/

/-- The session keeps its seat, and is idle if it was. -/
def Sits (s t : Session) : Prop := Idle s → Idle t ∧ seat t = seat s

theorem sits_of_seat {s t : Session} (h : SameSeat s t) : Sits s t := by
  intro hi
  refine ⟨fun hp => ?_, ?_⟩
  · rw [h.phase] at hp
    rw [h.tunnel]
    exact hi hp
  · rw [seat, seat, h.phase, h.tunnel]

theorem sits_seated (h : Seated hub hub') : Sits (hub.sessions y) (hub'.sessions y) :=
  sits_of_seat (h.seat y)

theorem sits_onSession {f : Session → Session} (hs : hub'.sessions = hub.sessions)
    (h : Sits (hub.sessions x) (f (hub.sessions x))) :
    Sits (hub.sessions y) ((hub'.onSession x f).sessions y) := by
  rw [← hs] at h ⊢
  by_cases hy : y = x
  · subst hy
    simpa only [Hub.onSession, update_self] using h
  · simp only [Hub.onSession, update_of_ne hy]
    exact sits_of_seat .rfl

theorem sits_socketClose : Sits (hub.sessions y) ((hub.onSocketClose x).sessions y) := by
  have hclose : Sits (hub.sessions y) ((hub.onSession x fun session =>
      { session with closed := true, wsOpen := false, closeListeners := [] }).sessions y) :=
    sits_onSession rfl fun hi => ⟨hi, rfl⟩
  have hl := (seated_onCloseAll (hub.onSession x fun session =>
    { session with closed := true, wsOpen := false, closeListeners := [] })
    (hub.sessions x).closeListeners x).seat y
  intro hi
  obtain ⟨hidle, hseat⟩ := hclose hi
  obtain ⟨hidle', hseat'⟩ := sits_of_seat hl hidle
  exact ⟨hidle', hseat'.trans hseat⟩

theorem sits_fail {failure : Failure} :
    Sits (hub.sessions y) ((hub.onSession x fun session => session.fail failure).sessions y) :=
  sits_onSession rfl (sits_of_seat (sameSeat_fail _ _))

theorem sits_hello {answer : Except Failure Role} (h : handleHello hub x answer = some hub') :
    Sits (hub.sessions y) (hub'.sessions y) := by
  unfold handleHello at h
  split at h
  · cases h
  · next hp =>
    split at h <;> cases h
    · exact sits_fail
    · next role =>
      refine sits_onSession rfl fun hi => ?_
      have hs := sameSeat_sendControl { hub.sessions x with phase := .setup role } .hello
      have ht : (hub.sessions x).tunnel = none := hi (by rw [not_not.mp hp]; rfl)
      have ht' := hs.tunnel.trans ht
      refine ⟨fun _ => ht', ?_⟩
      rw [seat, seat, ht', ht, Option.bind_fun_none, Option.bind_fun_none]

theorem sits_reply (h : handleReply hub x = some hub') :
    Sits (hub.sessions y) (hub'.sessions y) := by
  unfold handleReply at h
  split at h
  · next owner _ _ r resumed _ hp =>
    cases h
    refine sits_onSession rfl fun _ => ?_
    have hs := sameSeat_sendControl { hub.sessions x with phase := .ready (.owner owner) }
    refine ⟨fun hready => ?_, ?_⟩
    · rw [(hs _).phase] at hready
      cases hready
    · rw [seat, seat, (hs _).phase, (hs _).tunnel, hp]
      rfl
  · cases h

theorem sits_join {code : Option String} {intel : Intel}
    (h : handleJoin hub x code intel = some hub') : Sits (hub.sessions y) (hub'.sessions y) := by
  unfold handleJoin at h
  split at h
  · next hp =>
    split at h
    · cases h
      exact sits_fail
    · next r _ =>
      cases h
      have hs := sameSeat_sendControl { hub.sessions x with
        tunnel := some r
        closeListeners := (hub.sessions x).closeListeners ++ [.joiner r]
        phase := .ready .joiner }
      refine sits_onSession rfl fun _ => ⟨fun hready => ?_, ?_⟩
      · rw [(hs _).phase] at hready
        cases hready
      · rw [seat, seat, (hs _).phase, hp]
        rfl
  · cases h

/-- Outside of the turns of calls every session keeps its seat. -/
theorem sits (he : turnOf e = none) (hs : step hub e = some hub')
    (hn : ∀ ip, e = .connect ip → y ≠ hub.nextSession) :
    Sits (hub.sessions y) (hub'.sessions y) := by
  cases e with
  | register _ _ _ | proceed _ _ _ => cases he
  | tick _ | configure _ | sweep => cases hs; exact sits_of_seat .rfl
  | connect ip =>
    cases hs
    simp only [update_of_ne (hn ip rfl)]
    exact sits_of_seat .rfl
  | wsCloses x =>
    rw [step, Option.ite_none_right_eq_some] at hs
    obtain ⟨-, hs⟩ := hs
    cases hs
    exact sits_onSession rfl (sits_of_seat (sameSeat_close _))
  | socketClose x =>
    rw [step, Option.ite_none_right_eq_some] at hs
    obtain ⟨-, hs⟩ := hs
    cases hs
    exact sits_socketClose
  | hello x answer =>
    rw [step, Option.ite_none_right_eq_some] at hs
    exact sits_hello hs.2
  | unexpected x =>
    rw [step, Option.ite_none_right_eq_some] at hs
    have hs := hs.2
    unfold handleUnexpected at hs
    split at hs <;> cases hs <;> exact sits_fail
  | bye x =>
    rw [step, Option.ite_none_right_eq_some] at hs
    obtain ⟨-, hs⟩ := hs
    cases hs
    exact sits_onSession rfl (sits_of_seat ⟨rfl, rfl, rfl, rfl⟩)
  | join x code intel =>
    rw [step, Option.ite_none_right_eq_some] at hs
    exact sits_join hs.2
  | reply x =>
    rw [step, Option.ite_none_right_eq_some] at hs
    exact sits_reply hs.2
  | handshakeTimeout x =>
    rw [step, Option.ite_none_right_eq_some] at hs
    obtain ⟨-, hs⟩ := hs
    cases hs
    exact sits_fail
  | graceFires timer =>
    obtain ⟨⟨t, r⟩, -, hs⟩ := Option.map_eq_some_iff.mp hs
    cases hs
    refine sits_seated (Seated.trans ?_ (seated_remove ..))
    exact ⟨fun _ => .rfl⟩
  | remove id => cases hs; exact sits_seated (seated_remove ..)
  | closeFor accountId => cases hs; exact sits_seated (seated_removeAll ..)
  | closeCredential credential => cases hs; exact sits_seated (seated_removeAll ..)
  | updateAccess id input hash => cases hs; exact sits_seated seated_updateAccess
  | applyLive id policy => cases hs; exact sits_seated seated_applyLive
  | setPersistent r persistent =>
    rw [step, Option.ite_none_right_eq_some] at hs
    obtain ⟨-, hs⟩ := hs
    cases hs
    exact sits_of_seat .rfl

/-! ## The session of a turn -/

theorem attach_tunnel : ((hub.attach r x call).sessions x).tunnel = some r := by
  simp only [Hub.attach, Hub.onSession, update_self]

/-- A turn gives the session the tunnel that the call returns. -/
theorem does_tunnel (h : Does hub x call draw before hub' outcome) :
    (∃ r resumed, outcome = .waits (.returned r resumed) ∧
      (hub'.sessions x).tunnel = some r) ∨
    (∀ r resumed, outcome ≠ .waits (.returned r resumed)) ∧
      (hub'.sessions x).tunnel = (hub.sessions x).tunnel := by
  cases h with
  | stays h => exact .inr ⟨fun r resumed ho => (h _ ho).1.elim, rfl⟩
  | sets _ _ _ => exact .inr ⟨fun _ _ ho => (by cases ho), rfl⟩
  | creates _ _ _ => exact .inr ⟨fun _ _ ho => (by cases ho), rfl⟩
  | resumes _ => exact .inl ⟨_, _, rfl, attach_tunnel⟩
  | resumesWith _ _ _ => exact .inl ⟨_, _, rfl, attach_tunnel⟩
  | registers _ _ => exact .inl ⟨_, _, rfl, attach_tunnel⟩
  | publishes _ => exact .inl ⟨_, _, rfl, attach_tunnel⟩

theorem settle_tunnel : ((settle hub x call outcome).sessions y).tunnel = (hub.sessions y).tunnel := by
  by_cases hy : y = x
  · subst hy
    cases outcome with
    | waits point => simp only [settle, Hub.onSession, update_self]
    | threw failure =>
      simp only [settle, Hub.onSession, update_self]
      exact (sameSeat_fail ..).tunnel
  · cases outcome <;> simp only [settle, Hub.onSession, update_of_ne hy]

/-- The session of a turn has no tunnel before it, and the one that its call returns after it. -/
structure Turns (hub hub' : Hub) (x : SessionRef) : Prop where
  unsettled : settled (hub.sessions x).phase = false
  other : ∀ y, y ≠ x → SameSeat (hub.sessions y) (hub'.sessions y)
  tunnel : (∃ r resumed, pointOf hub' x = some (.returned r resumed) ∧
      tunnelOf hub' x = some r) ∨
    settled (hub'.sessions x).phase = false ∧
      (hub'.sessions x).tunnel = (hub.sessions x).tunnel

theorem turns_settle (hp : settled (hub.sessions x).phase = false)
    (h : Does hub x call draw before hub' outcome) :
    Turns hub (settle hub' x call outcome) x := by
  refine ⟨hp, fun y hy => ?_, ?_⟩
  · have hother : (settle hub' x call outcome).sessions y = hub'.sessions y := by
      cases outcome <;> simp only [settle, Hub.onSession, update_of_ne hy]
    have ho := h.ownTunnel
    rw [hother]
    exact ⟨ho.ip y, ho.phase y, ho.tunnel y hy, ho.closed y⟩
  · rcases does_tunnel h with ⟨r, resumed, rfl, ht⟩ | ⟨hne, ht⟩
    · refine .inl ⟨r, resumed, ?_, ?_⟩
      · rw [pointOf_settle, update_self]
        rfl
      · simp only [tunnelOf, seat, settle_tunnel, ht, Option.bind_eq_some_iff, and_true]
        exact ⟨call.owner, by simp [settle, Hub.onSession, phaseOwner]⟩
    · refine .inr ⟨?_, settle_tunnel.trans ht⟩
      cases outcome with
      | waits point =>
        simp only [settle, Hub.onSession, update_self]
        cases point <;> first | rfl | exact absurd rfl (hne _ _)
      | threw failure => simp [settle, Hub.onSession, settled]

theorem turns (he : turnOf e = some x) (hs : step hub e = some hub') : Turns hub hub' x := by
  have ht := (takes he hs).2
  cases ht with
  | refuses hp _ =>
    have hf : ∀ failure, Seated hub (hub.onSession x fun session => session.fail failure) :=
      fun failure => seated_onSession (sameSeat_fail _ failure)
    refine ⟨by rw [hp]; rfl, fun y _ => (hf _).seat y, .inr ⟨?_, ((hf _).seat x).tunnel⟩⟩
    rw [((hf _).seat x).phase, hp]
    rfl
  | begins hp _ h => exact turns_settle (by rw [hp]; rfl) (start_does h)
  | @goesOn _ _ call _ _ hp h =>
    have hret : ∀ r resumed, call.point ≠ .returned r resumed := by
      intro r resumed hc
      simp [Register.proceed, hc] at h
    refine turns_settle ?_ (proceed_does h)
    rw [hp]
    cases hc : call.point with
    | returned r resumed => exact absurd hc (hret r resumed)
    | _ => simp [settled, hc]

theorem settled_of_returned {resumed : Bool} (h : pointOf hub x = some (.returned r resumed)) :
    settled (hub.sessions x).phase = true := by
  unfold pointOf point at h
  split at h
  · next call hp =>
    rw [hp]
    simp [settled, Option.some.inj h]
  · cases h

/-- A session that gets a tunnel has had none, and its call has just returned that tunnel. -/
theorem seat_step (hseats : Seats hub) (hi : ∀ x, Idle (hub.sessions x))
    (hs : step hub e = some hub') : tunnelOf hub' y = tunnelOf hub y ∨
      turnOf e = some y ∧ tunnelOf hub y = none ∧
        ∃ r resumed, pointOf hub' y = some (.returned r resumed) ∧ tunnelOf hub' y = some r := by
  cases he : turnOf e with
  | none =>
    by_cases hn : ∃ ip, e = .connect ip ∧ y = hub.nextSession
    · obtain ⟨ip, rfl, rfl⟩ := hn
      refine .inl ?_
      have hnone : ownerOf hub hub.nextSession = none := by
        cases ho : ownerOf hub hub.nextSession with
        | none => rfl
        | some owner => exact absurd (hseats.known _ _ ho) (Nat.lt_irrefl _)
      have hbefore : tunnelOf hub hub.nextSession = none := by
        have hphase : phaseOwner (hub.sessions hub.nextSession).phase = none := hnone
        rw [tunnelOf, seat, hphase, Option.bind_none]
      cases hs
      rw [hbefore]
      simp [tunnelOf, seat, phaseOwner]
    · have hsits := sits he hs fun ip h hy => hn ⟨ip, h, hy⟩
      exact .inl (hsits (hi y)).2
  | some x =>
    have ht := turns he hs
    by_cases hy : y = x
    · subst hy
      have hnone := hi y ht.unsettled
      have hbefore : tunnelOf hub y = none := by
        rw [tunnelOf, seat, hnone, Option.bind_fun_none]
      rcases ht.tunnel with hret | ⟨-, hsame⟩
      · exact .inr ⟨rfl, hbefore, hret⟩
      · rw [hbefore, tunnelOf, seat, hsame, hnone, Option.bind_fun_none]
        exact .inl rfl
    · exact .inl (sits_of_seat (ht.other y hy) (hi y)).2

theorem idle_step (hi : ∀ x, Idle (hub.sessions x)) (hs : step hub e = some hub') :
    Idle (hub'.sessions y) := by
  cases he : turnOf e with
  | none =>
    by_cases hn : ∃ ip, e = .connect ip ∧ y = hub.nextSession
    · obtain ⟨ip, rfl, rfl⟩ := hn
      cases hs
      intro _
      simp
    · have hsits := sits he hs fun ip h hy => hn ⟨ip, h, hy⟩
      exact (hsits (hi y)).1
  | some x =>
    have ht := turns he hs
    by_cases hy : y = x
    · subst hy
      intro hp
      rcases ht.tunnel with ⟨r, resumed, hret, -⟩ | ⟨-, hsame⟩
      · rw [settled_of_returned hret] at hp
        cases hp
      · exact hsame.trans (hi y ht.unsettled)
    · exact (sits_of_seat (ht.other y hy) (hi y)).1

/-! ## What every reachable hub keeps -/

/-- A tunnel that a session has got has come to be registered: no call still waits to do
that. -/
structure Placed (hub : Hub) : Prop where
  idle : ∀ x, Idle (hub.sessions x)
  held : ∀ r x, (hub.heap r).session = some x → tunnelOf hub x = some r
  known : ∀ x r, tunnelOf hub x = some r → r < hub.nextTunnel
  born : ∀ x y r, tunnelOf hub x = some r → pointOf hub y ≠ some (.policySaved r)
  asked : ∀ x y r, pointOf hub x = some (.resumeSaved r) → pointOf hub y ≠ some (.policySaved r)

theorem known_iff : (leases hub).known r = true ↔ r < hub.nextTunnel := decide_eq_true_iff

/-- A call waits for the policy of a tunnel to be saved that it has found in the registry. -/
theorem resumeSaved_step (he : Effect hub e hub')
    (hx : pointOf hub' x = some (.resumeSaved r)) :
    pointOf hub x = some (.resumeSaved r) ∨ ∃ id, hub.tunnels.get id = some r := by
  cases he with
  | @turn _ _ y _ ht =>
    by_cases hy : x = y
    · subst hy
      have ht := ht.turn
      rw [hx] at ht
      generalize leases hub' = T at ht
      cases ht with
      | goesOn hc => exact .inr (hc _ rfl)
    · exact .inl (ht.point x hy ▸ hx)
  | loses _ _ _ _ hp => exact .inl (hp ▸ hx)
  | fires _ _ _ hp => exact .inl (hp ▸ hx)
  | releases _ _ _ hp => exact .inl (hp ▸ hx)
  | other hq => exact .inl (hq.point x _ hx)

theorem asked_step (hb : Basic hub) (h : Placed hub) (hs : step hub e = some hub') :
    pointOf hub' x = some (.resumeSaved r) → pointOf hub' y ≠ some (.policySaved r) := by
  intro hx hy
  have he := step_effect hb.unused hs
  rcases resumeSaved_step he hx with hx | ⟨id, hid⟩
  · rcases policySaved_step he hy with hy | ⟨hr, -⟩
    · exact h.asked x y r hx hy
    · exact absurd (known_iff.mp (hb.held x _ r hx rfl)) (Nat.not_lt.mpr hr.ge)
  · rcases policySaved_step he hy with hy | ⟨hr, -⟩
    · exact hb.unborn y r id hy hid
    · exact absurd (known_iff.mp (hb.sound.named id r hid).2) (Nat.not_lt.mpr hr.ge)

/-- Where the tunnel comes from that a call returns. -/
theorem origin (hs : step hub e = some hub') (he : turnOf e = some x) {resumed : Bool}
    (hp : pointOf hub' x = some (.returned r resumed)) :
    r = hub.nextTunnel ∨ pointOf hub x = some (.policySaved r) ∨
      pointOf hub x = some (.resumeSaved r) ∨ ∃ id, hub.tunnels.get id = some r := by
  have ht := (takesTurn he hs).turn
  rw [hp] at ht
  generalize leases hub' = T at ht
  cases ht with
  | goesOn hc => exact (hc _ rfl).elim
  | registers _ => exact .inl rfl
  | publishes hb => exact .inr (.inl hb)
  | resumes hb =>
    rcases hb with ⟨-, hid⟩ | hb
    · exact .inr (.inr (.inr hid))
    · exact .inr (.inr (.inl hb))

theorem born_step (hb : Basic hub) (hseats : Seats hub) (h : Placed hub)
    (hs : step hub e = some hub') :
    tunnelOf hub' x = some r → pointOf hub' y ≠ some (.policySaved r) := by
  intro hx hy
  have heff := step_effect hb.unused hs
  rcases seat_step hseats h.idle hs (y := x) with hsame | ⟨he, -, r', resumed, hret, hseat⟩
  · rw [hsame] at hx
    rcases policySaved_step heff hy with hy | ⟨hr, -⟩
    · exact h.born x y r hx hy
    · exact absurd (h.known x r hx) (Nat.not_lt.mpr hr.ge)
  · obtain rfl : r = r' := Option.some.inj (hx.symm.trans hseat)
    rcases policySaved_step heff hy with hold | ⟨-, hturn⟩
    · rcases origin hs he hret with hr | hpol | hres | ⟨id, hid⟩
      · exact absurd (known_iff.mp (hb.held y _ r hold rfl)) (Nat.not_lt.mpr hr.ge)
      · obtain rfl := hb.apart x y r hpol hold
        rw [hret] at hy
        cases hy
      · exact h.asked x y r hres hold
      · exact hb.unborn y r id hold hid
    · obtain rfl : x = y := Option.some.inj (he.symm.trans hturn)
      rw [hret] at hy
      cases hy

/-- The tunnel that a call returns is attached to its session. -/
theorem returned_session (hs : step hub e = some hub') (he : turnOf e = some x) {resumed : Bool}
    (hp : pointOf hub' x = some (.returned r resumed)) : (hub'.heap r).session = some x := by
  rw [pointOf_eq_callOf] at hp
  obtain ⟨call, hc, hp⟩ := Option.map_eq_some_iff.mp hp
  exact (comes (takes he hs).2 hc).session hp

theorem placed_step (hb : Basic hub) (hseats : Seats hub) (h : Placed hub)
    (hs : step hub e = some hub') : Placed hub' := by
  have hb' := basic_step hb hs
  have heff := step_effect hb.unused hs
  refine ⟨fun x => idle_step h.idle hs, fun r x hx => ?_, fun x r hx => ?_,
    fun x y r => born_step hb hseats h hs, fun x y r => asked_step hb h hs⟩
  · rcases occupied_step hs hx with ⟨hold, -⟩ | ⟨call, resumed, he, hc, hp, -⟩
    · have hseat := h.held r x hold
      rcases seat_step hseats h.idle hs (y := x) with hsame | ⟨-, hnone, -⟩
      · exact hsame.trans hseat
      · rw [hnone] at hseat
        cases hseat
    · have hpoint : pointOf hub' x = some (.returned r resumed) := by
        rw [pointOf_eq_callOf, hc, Option.map_some, hp]
      rcases (turns he hs).tunnel with ⟨r', resumed', hret, ht⟩ | ⟨hno, -⟩
      · rw [hpoint] at hret
        cases hret
        exact ht
      · rw [settled_of_returned hpoint] at hno
        cases hno
  · rcases seat_step hseats h.idle hs (y := x) with hsame | ⟨he, -, r', resumed, hret, hseat⟩
    · exact known_iff.mp (known_step heff (known_iff.mpr (h.known x r (hsame ▸ hx))))
    · obtain rfl : r = r' := Option.some.inj (hx.symm.trans hseat)
      exact known_iff.mp (hb'.sound.attached x r (returned_session hs he hret))

theorem placed_init (config : Config) : Placed { config := config } := by
  refine ⟨fun _ _ => rfl, fun r x h => ?_, fun x r h => ?_, fun x y r h => ?_, fun x y r h => ?_⟩
  all_goals cases h

theorem seats_and_placed (h : Reachable hub) : Seats hub ∧ Placed hub := by
  refine Machine.Reaches.invariant_of (J := Basic) (I := fun hub => Seats hub ∧ Placed hub) h
    (fun _ hr => basic hr) ?_ ?_
  · rintro _ ⟨config, rfl⟩
    exact ⟨seats_init config, placed_init config⟩
  · rintro hub hub' e hb ⟨hseats, hp⟩ - hs
    exact ⟨seats_step hb hseats hs, placed_step hb hseats hp hs⟩

theorem seats (h : Reachable hub) : Seats hub := (seats_and_placed h).1

theorem placed (h : Reachable hub) : Placed hub := (seats_and_placed h).2

/-! ## What a step leaves -/

theorem Current.tunnelOf (h : Placed hub) (hc : Current hub r x) : tunnelOf hub x = some r :=
  h.held r x hc.2.1

theorem Current.unique (hx : Current hub r x) (hy : Current hub r y) : x = y :=
  Option.some.inj (hx.2.1.symm.trans hy.2.1)

theorem lt_of_tunnelOf (h : Seats hub) (ht : tunnelOf hub x = some r) : x < hub.nextSession := by
  obtain ⟨owner, ho, -⟩ := Option.bind_eq_some_iff.mp ht
  exact h.known x owner ho

/-- A session keeps the tunnel it has got. -/
theorem tunnelOf_step (h : Reachable hub) (hs : step hub e = some hub')
    (ht : tunnelOf hub x = some r) : tunnelOf hub' x = some r := by
  rcases seat_step (seats h) (placed h).idle hs (y := x) with hsame | ⟨-, hnone, -⟩
  · exact hsame.trans ht
  · rw [hnone] at ht
    cases ht

theorem changes_id {tunnel : Tunnel} (h : Changes hub e r tunnel) :
    tunnel.id = (hub.heap r).id := by
  cases h with
  | same h => rw [h]; rfl
  | web _ h => rw [h]; rfl
  | resets _ h => rw [h]; rfl
  | persists _ h => rw [h]; rfl

/-- A tunnel keeps its id. -/
theorem id_step (hs : step hub e = some hub') (hr : r < hub.nextTunnel) :
    (hub'.heap r).id = (hub.heap r).id := by
  have h := changes_id (changes hs hr)
  exact h

theorem lt_of_registered (h : Reachable hub) (hr : Registered hub r) : r < hub.nextTunnel :=
  known_iff.mp ((basic h).sound.named _ r hr).2

theorem nextTunnel_le (h : Reachable hub) (hs : step hub e = some hub') :
    hub.nextTunnel ≤ hub'.nextTunnel := by
  refine Nat.le_of_not_lt fun hlt => ?_
  have := known_step (effect h hs) (r := hub'.nextTunnel) (known_iff.mpr hlt)
  exact Nat.lt_irrefl _ (known_iff.mp this)

theorem closed_step (hs : step hub e = some hub')
    (hx : x < hub.nextSession) (hc : (hub.sessions x).closed = true) :
    (hub'.sessions x).closed = true := by
  have hn : ∀ ip, e = .connect ip → x ≠ hub.nextSession := fun _ _ => Nat.ne_of_lt hx
  rcases (Joiners.after hs hn).closed with hsame | ⟨-, hclosed⟩
  · exact hsame.trans hc
  · exact hclosed

/-- A tunnel that a session has got does not come to be registered again. -/
theorem registered_step (h : Reachable hub) (hs : step hub e = some hub')
    (ht : tunnelOf hub x = some r) (hr : Registered hub' r) : Registered hub r := by
  have hlt := (placed h).known x r ht
  rw [Registered, id_step hs hlt] at hr
  rcases slot_step (effect h hs) hr with hold | ⟨y, -, -, hnew | hsaved⟩
  · exact hold
  · exact absurd hlt (Nat.not_lt.mpr hnew.ge)
  · exact absurd hsaved ((placed h).born x y r ht)

/-- A session that is not the one of its tunnel any more does not come to be it again. -/
theorem current_step (h : Reachable hub) (hs : step hub e = some hub')
    (ht : tunnelOf hub x = some r) (hc : Current hub' r x) : Current hub r x := by
  obtain ⟨hr, hx, hopen⟩ := hc
  refine ⟨registered_step h hs ht hr, ?_, ?_⟩
  · rcases occupied_step hs hx with ⟨hold, -⟩ | ⟨call, resumed, he, -⟩
    · exact hold
    · have hnone := (placed h).idle x (turns he hs).unsettled
      rw [tunnelOf, seat, hnone, Option.bind_fun_none] at ht
      cases ht
  · cases hclosed : (hub.sessions x).closed with
    | false => rfl
    | true =>
      rw [closed_step hs (lt_of_tunnelOf (seats h) ht) hclosed] at hopen
      cases hopen

end Tunlit.Registry.Seating
