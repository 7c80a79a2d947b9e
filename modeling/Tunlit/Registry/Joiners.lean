import Tunlit.Registry.Calls

/-! # Sessions that have joined a tunnel

A session joins a tunnel with the one event that is judged by the rules of the tunnel, and
stays joined to it. -/
namespace Tunlit.Registry.Joiners
open Function Tunlit.Lib.Runs Tunlit.Access.Policy Tunlit.Registry.Names Tunlit.Registry.State
  Tunlit.Registry.Register Tunlit.Registry.System Tunlit.Registry.Leases Tunlit.Registry.Steps
  Tunlit.Registry.Fields Tunlit.Registry.Calls

variable {hub hub' : Hub} {x y : SessionRef} {r : TunnelRef} {e : Event}

/-- The tunnel that a session has joined. -/
def joinedTo (hub : Hub) (x : SessionRef) : Option TunnelRef :=
  match (hub.sessions x).phase with
  | .ready .joiner => (hub.sessions x).tunnel
  | _ => none

/-- A `join` that the code and the rules let through. -/
def Joins (hub : Hub) (x : SessionRef) (r : TunnelRef) (e : Event) : Prop :=
  ∃ code intel, e = .join x code intel ∧ joinedBy hub code (hub.sessions x).ip intel = .ok r

theorem joinedTo_of_seat (h : SameSeat (hub.sessions y) (hub'.sessions y)) :
    joinedTo hub' y = joinedTo hub y := by
  simp only [joinedTo, h.phase, h.tunnel]

theorem joinedTo_eq_some : joinedTo hub x = some r ↔
    (hub.sessions x).phase = .ready .joiner ∧ (hub.sessions x).tunnel = some r := by
  unfold joinedTo
  split
  · next hp => rw [and_iff_right hp]
  · next hp => exact iff_of_false (Option.some_ne_none r).symm fun h => hp h.1

theorem joinedTo_of_phase (h : (hub.sessions x).phase ≠ .ready .joiner) : joinedTo hub x = none := by
  cases hj : joinedTo hub x with
  | none => rfl
  | some r => exact absurd (joinedTo_eq_some.mp hj).1 h

/-- What a step does to a session: it may close, and it may join a tunnel. -/
structure After (hub : Hub) (e : Event) (hub' : Hub) (y : SessionRef) : Prop where
  ip : (hub'.sessions y).ip = (hub.sessions y).ip
  closed : (hub'.sessions y).closed = (hub.sessions y).closed ∨
    e = .socketClose y ∧ (hub'.sessions y).closed = true
  joined : ∀ r, joinedTo hub' y = some r → joinedTo hub y = some r ∨ Joins hub y r e

theorem After.of_seat (h : SameSeat (hub.sessions y) (hub'.sessions y)) : After hub e hub' y :=
  ⟨h.ip, .inl h.closed, fun _ hj => .inl (joinedTo_of_seat h ▸ hj)⟩

theorem after_seated (h : Seated hub hub') : After hub e hub' y := .of_seat (h.seat y)

/-- The session of a turn comes to a phase in which it has joined nothing. -/
theorem after_turn {f : Session → Session} (h : OwnTunnel x hub hub')
    (hip : (f (hub'.sessions x)).ip = (hub'.sessions x).ip)
    (hc : (f (hub'.sessions x)).closed = (hub'.sessions x).closed)
    (hp : (f (hub'.sessions x)).phase ≠ .ready .joiner) : After hub e (hub'.onSession x f) y := by
  by_cases hy : y = x
  · subst hy
    have hself : (hub'.onSession y f).sessions y = f (hub'.sessions y) := update_self ..
    refine ⟨hself ▸ hip.trans (h.ip y), .inl (hself ▸ hc.trans (h.closed y)), fun r hj => ?_⟩
    rw [joinedTo_of_phase (hself ▸ hp)] at hj
    cases hj
  · have hother : (hub'.onSession x f).sessions y = hub'.sessions y := update_of_ne hy ..
    refine .of_seat ⟨?_, ?_, ?_, ?_⟩ <;> rw [hother]
    · exact h.ip y
    · exact h.phase y
    · exact h.tunnel y hy
    · exact h.closed y

theorem after_settle {call : Call} {outcome : Outcome} (h : OwnTunnel x hub hub') :
    After hub e (settle hub' x call outcome) y := by
  cases outcome with
  | waits point =>
    simp only [settle]
    exact after_turn h rfl rfl fun hp => by cases hp
  | threw failure =>
    have hs := sameSeat_fail (hub'.sessions x) failure
    simp only [settle]
    refine after_turn h ?_ ?_ ?_
    · exact hs.ip
    · exact hs.closed
    · exact fun hp => by cases hp

theorem after_fail {failure : Failure} :
    After hub e (hub.onSession x fun session => session.fail failure) y := by
  refine after_seated (seated_onSession ?_)
  exact sameSeat_fail ..

theorem after_hello {answer : Except Failure Role} (h : handleHello hub x answer = some hub') :
    After hub e hub' y := by
  unfold handleHello at h
  split at h
  · cases h
  · split at h <;> cases h
    · exact after_fail
    · next role =>
      have hs := sameSeat_sendControl { hub.sessions x with phase := .setup role } .hello
      exact after_turn Seated.rfl.ownTunnel hs.ip hs.closed (by rw [hs.phase]; simp)

theorem after_reply (h : handleReply hub x = some hub') : After hub e hub' y := by
  unfold handleReply at h
  split at h
  · next owner _ _ r resumed _ _ =>
    cases h
    have hs := sameSeat_sendControl { hub.sessions x with phase := .ready (.owner owner) }
    exact after_turn Seated.rfl.ownTunnel (hs _).ip (hs _).closed (by rw [(hs _).phase]; simp)
  · cases h

theorem after_join {code : Option String} {intel : Intel}
    (h : handleJoin hub x code intel = some hub') : After hub (.join x code intel) hub' y := by
  unfold handleJoin at h
  split at h
  · split at h
    · cases h
      exact after_fail
    · next r hjoined =>
      cases h
      have hs := sameSeat_sendControl { hub.sessions x with
        tunnel := some r
        closeListeners := (hub.sessions x).closeListeners ++ [.joiner r]
        phase := .ready .joiner }
      by_cases hy : y = x
      · subst hy
        have hself : ∀ (hub : Hub) f, (hub.onSession y f).sessions y = f (hub.sessions y) :=
          fun _ _ => update_self ..
        refine ⟨?_, .inl ?_, fun r' hj => .inr ⟨code, intel, rfl, ?_⟩⟩
        · rw [hself]; exact (hs _).ip
        · rw [hself]; exact (hs _).closed
        · have ht := (joinedTo_eq_some.mp hj).2
          rw [hself] at ht
          obtain rfl : r = r' := Option.some.inj ((hs _).tunnel.symm.trans ht)
          exact hjoined
      · refine .of_seat ?_
        have hother : ∀ (hub : Hub) f, (hub.onSession x f).sessions y = hub.sessions y :=
          fun _ _ => update_of_ne hy ..
        rw [hother]
        exact .rfl
  · cases h

theorem after_socketClose : After hub (.socketClose x) (hub.onSocketClose x) y := by
  have hl := (seated_onCloseAll (hub.onSession x fun session =>
    { session with closed := true, wsOpen := false, closeListeners := [] })
    (hub.sessions x).closeListeners x).seat y
  by_cases hy : y = x
  · subst hy
    have hself : ∀ (hub : Hub) f, (hub.onSession y f).sessions y = f (hub.sessions y) :=
      fun _ _ => update_self ..
    rw [hself] at hl
    refine ⟨hl.ip, .inr ⟨rfl, hl.closed⟩, fun r hj => .inl ?_⟩
    obtain ⟨hp, ht⟩ := joinedTo_eq_some.mp hj
    exact joinedTo_eq_some.mpr ⟨hl.phase.symm.trans hp, hl.tunnel.symm.trans ht⟩
  · have hother : ∀ (hub : Hub) f, (hub.onSession x f).sessions y = hub.sessions y :=
      fun _ _ => update_of_ne hy ..
    rw [hother] at hl
    exact .of_seat hl

theorem after_takes (h : Takes hub x e hub') : After hub e hub' y := by
  cases h with
  | refuses _ _ => exact after_fail
  | begins _ _ h => exact after_settle (start_does h).ownTunnel
  | goesOn _ h => exact after_settle (proceed_does h).ownTunnel

/-- The sessions of `connect` are new; every other event leaves a session as `After` says. -/
theorem after (hs : step hub e = some hub') (hn : ∀ ip, e = .connect ip → y ≠ hub.nextSession) :
    After hub e hub' y := by
  cases e with
  | tick _ | configure _ | sweep => cases hs; exact after_seated ⟨fun _ => .rfl⟩
  | connect ip =>
    cases hs
    refine .of_seat ?_
    simp only [update_of_ne (hn ip rfl)]
    exact .rfl
  | wsCloses x =>
    rw [step, Option.ite_none_right_eq_some] at hs
    obtain ⟨-, hs⟩ := hs
    cases hs
    exact after_seated (seated_onSession (sameSeat_close _))
  | socketClose x =>
    rw [step, Option.ite_none_right_eq_some] at hs
    obtain ⟨-, hs⟩ := hs
    cases hs
    exact after_socketClose
  | hello x answer =>
    rw [step, Option.ite_none_right_eq_some] at hs
    exact after_hello hs.2
  | unexpected x =>
    rw [step, Option.ite_none_right_eq_some] at hs
    have hs := hs.2
    unfold handleUnexpected at hs
    split at hs <;> cases hs <;> exact after_fail
  | bye x =>
    rw [step, Option.ite_none_right_eq_some] at hs
    obtain ⟨-, hs⟩ := hs
    cases hs
    exact after_seated (seated_onSession ⟨rfl, rfl, rfl, rfl⟩)
  | join x code intel =>
    rw [step, Option.ite_none_right_eq_some] at hs
    exact after_join hs.2
  | register x request draw => exact after_takes (takes rfl hs).2
  | proceed x answer draw => exact after_takes (takes rfl hs).2
  | reply x =>
    rw [step, Option.ite_none_right_eq_some] at hs
    exact after_reply hs.2
  | handshakeTimeout x =>
    rw [step, Option.ite_none_right_eq_some] at hs
    obtain ⟨-, hs⟩ := hs
    cases hs
    exact after_fail
  | graceFires timer =>
    obtain ⟨⟨t, r⟩, -, hs⟩ := Option.map_eq_some_iff.mp hs
    cases hs
    refine after_seated ?_
    unfold Hub.onGraceTimer
    refine Seated.trans ?_ (seated_remove ..)
    exact ⟨fun _ => .rfl⟩
  | remove id => cases hs; exact after_seated (seated_remove ..)
  | closeFor accountId => cases hs; exact after_seated (seated_removeAll ..)
  | closeCredential credential => cases hs; exact after_seated (seated_removeAll ..)
  | updateAccess id input hash => cases hs; exact after_seated seated_updateAccess
  | applyLive id policy => cases hs; exact after_seated seated_applyLive
  | setPersistent r persistent =>
    rw [step, Option.ite_none_right_eq_some] at hs
    obtain ⟨-, hs⟩ := hs
    cases hs
    exact after_seated ⟨fun _ => .rfl⟩

theorem after_of_joined (hs : step hub e = some hub') (hj : joinedTo hub' y = some r) :
    After hub e hub' y := by
  refine after hs ?_
  rintro ip rfl rfl
  cases hs
  simp [joinedTo] at hj

theorem closed_after (hs : step hub e = some hub') (hc : (hub'.sessions y).closed = true) :
    (hub.sessions y).closed = true ∨ e = .socketClose y := by
  by_cases hn : ∃ ip, e = .connect ip ∧ y = hub.nextSession
  · obtain ⟨ip, rfl, rfl⟩ := hn
    cases hs
    simp at hc
  · have ha : After hub e hub' y := after hs fun ip he hy => hn ⟨ip, he, hy⟩
    exact ha.closed.imp (fun h => h.symm.trans hc) And.left

theorem joinedTo_lt (h : Reachable hub) : ∀ x r, joinedTo hub x = some r → x < hub.nextSession := by
  refine Machine.Reaches.invariant_of (J := Reach.Basic)
    (I := fun hub => ∀ x r, joinedTo hub x = some r → x < hub.nextSession) h
    (fun _ hr => Reach.basic hr) ?_ ?_
  · rintro _ ⟨config, rfl⟩ x r hj
    cases hj
  · intro hub hub' e hb ih _ hs x r hj
    have hle := Reach.nextSession_le (step_effect hb.unused hs)
    rcases (after_of_joined hs hj).joined r hj with hj | ⟨code, intel, rfl, -⟩
    · exact Nat.lt_of_lt_of_le (ih x r hj) hle
    · rw [show machine.step = step from rfl, step, Option.ite_none_right_eq_some] at hs
      exact Nat.lt_of_lt_of_le hs.1 hle

/-- A `join` changes no rules. -/
theorem join_policy {code : Option String} {intel : Intel}
    (h : step hub (.join x code intel) = some hub') (r : TunnelRef) :
    (hub'.heap r).policy = (hub.heap r).policy := by
  rw [step, Option.ite_none_right_eq_some] at h
  have h := h.2
  unfold handleJoin at h
  split at h
  · split at h
    · cases h; rfl
    · next r' _ =>
      cases h
      simp only [Hub.onSession, Hub.onTunnel, update_apply]
      split
      · next hr => rw [hr]
      · rfl
  · cases h

/-- The rules have let the address of a session through when it joins. -/
theorem joinedBy_admits {code : Option String} {ip : String} {intel : Intel}
    (h : joinedBy hub code ip intel = .ok r) :
    evaluate (hub.heap r).policy ip intel = none := by
  unfold joinedBy at h
  split at h
  · cases h
  · split at h
    · cases h
    · simp only at h
      split at h
      · cases h
      · split at h
        · cases h
        · next hn => cases h; simpa using hn

end Tunlit.Registry.Joiners
