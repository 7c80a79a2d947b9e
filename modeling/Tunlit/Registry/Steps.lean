import Tunlit.Registry.Leases

/-! # What one event does

Each event as an operation on the leases and on the points where the calls of `register`
wait. `Turn` is a turn of one call, `Effect` an event; both say under which check of the
code a call came to where it is. -/
namespace Tunlit.Registry.Steps
open Function Tunlit.Lib.Insertion Tunlit.Lib.Leases Tunlit.Lib.Runs Tunlit.Registry.Names
  Tunlit.Registry.State Tunlit.Registry.Register Tunlit.Registry.System Tunlit.Registry.Leases

/-- The name that a call has checked and not yet taken. -/
def nameOf : Point → Option String
  | .named _ name => some name
  | .random _ _ id => some id.1
  | _ => none

/-- What the code has just checked when a call begins to wait at a point. -/
def Checked (hub : Hub) : Point → Prop
  | .resumeSaved r => ∃ id, hub.tunnels.get id = some r
  | .named _ name => hub.tunnels.get name = none
  | .random _ _ id => hub.tunnels.get id.1 = none
  | .policySaved _ => False
  | .returned .. => False
  | _ => True

/-- A turn of the call of `x`, from a point (none where it begins) to the next (none where
it has thrown). -/
inductive Turn (hub : Hub) (x : SessionRef) (before : Option Point) :
    Table String TunnelRef SessionRef → Option Point → Prop
  | goesOn {after} (h : ∀ p, after = some p → Checked hub p) : Turn hub x before (leases hub) after
  | creates {n} (h : before.bind nameOf = some n) :
      Turn hub x before ((leases hub).create hub.nextTunnel n) (some (.policySaved hub.nextTunnel))
  | registers {n} (h : before.bind nameOf = some n) :
      Turn hub x before
        ((((leases hub).create hub.nextTunnel n).insert hub.nextTunnel).attach hub.nextTunnel x)
        (some (.returned hub.nextTunnel false))
  | publishes {r} (h : before = some (.policySaved r)) :
      Turn hub x before (((leases hub).insert r).attach r x) (some (.returned r false))
  | resumes {r} (h : (before = none ∧ ∃ id, hub.tunnels.get id = some r) ∨
        before = some (.resumeSaved r)) :
      Turn hub x before ((leases hub).attach r x) (some (.returned r true))

variable {hub hub' : Hub} {x : SessionRef} {call : Call} {before : Option Point}
  {outcome : Outcome} {draw : Draw} {r : TunnelRef}

/-! ## The turns of a call -/

theorem drawId_checked {previous : Option ShareCode} {left : Nat} {ids : List RandomId}
    (h : drawId hub previous left ids = some outcome) :
    ∀ p, Outcome.point outcome = some p → Checked hub p := by
  induction left generalizing ids with
  | zero =>
    cases h
    intro p hp
    cases hp
  | succ left ih =>
    cases ids with
    | nil => cases h
    | cons id ids =>
      rw [drawId] at h
      split at h
      · rename_i hid
        cases h
        intro p hp
        cases hp
        rw [Bool.and_eq_true, Bool.not_eq_true', OrderedMap.has_eq_false] at hid
        exact hid.1
      · exact ih h

theorem checkName_checked {requested name : String} (h : checkName hub requested = .ok name) :
    hub.tunnels.get name = none := by
  unfold checkName at h
  simp only at h
  split at h
  · cases h
  split at h
  · cases h
  split at h
  · cases h
  · rename_i hn
    cases h
    rwa [Bool.not_eq_true, OrderedMap.has_eq_false] at hn

theorem allocateId_checked (h : allocateId hub call draw = some outcome) :
    ∀ p, Outcome.point outcome = some p → Checked hub p := by
  unfold allocateId at h
  simp only at h
  split at h
  · exact drawId_checked h
  · exact drawId_checked h
  · split at h
    · cases h
      intro p hp
      cases hp
    · rename_i hn
      cases h
      intro p hp
      cases hp
      exact checkName_checked hn

theorem leases_publish : leases (publish hub x call r).1 = ((leases hub).insert r).attach r x := by
  refine (leases_attach ..).trans ?_
  congr 1
  ext : 1 <;> try rfl
  funext n
  simp only [leases, Table.insert, update_apply, OrderedMap.get_set]
  grind

theorem leases_newTunnel {tunnel : Tunnel} (hs : tunnel.session = none)
    (ht : tunnel.graceTimer = none) (hu : tunnel.graceUntil = none) :
    leases { hub with
      heap := update hub.heap hub.nextTunnel tunnel
      nextTunnel := hub.nextTunnel + 1 } = (leases hub).create hub.nextTunnel tunnel.id := by
  ext : 1 <;> try rfl
  case known =>
    funext r
    by_cases hr : r = hub.nextTunnel
    · simp [leases, Table.create, hr]
    · have hlt : r < hub.nextTunnel + 1 ↔ r < hub.nextTunnel := by
        rw [Nat.lt_succ_iff, Nat.le_iff_lt_or_eq, or_iff_left hr]
      simp only [leases, Table.create, update_of_ne hr, hlt]
  all_goals
    funext r
    simp only [leases, Table.create, update_apply]
    grind

theorem construct_turn {previous : Option ShareCode} {id : String} {definition : Option Definition}
    (hid : before.bind nameOf = some id)
    (h : construct hub x call previous id definition draw = (hub', outcome)) :
    Turn hub x before (leases hub') (Outcome.point outcome) := by
  unfold construct at h
  split at h
  · cases h
    refine .goesOn fun p hp => ?_
    cases hp
  rename_i policy _
  have hnew := @leases_newTunnel hub (newTunnel call previous id definition draw policy) rfl rfl rfl
  simp only at h
  split at h
  · cases h
    rw [hnew]
    exact .creates hid
  · have hp := congrArg (fun p => leases p.1) h
    have ho := congrArg (fun p => Outcome.point p.2) h
    simp only [leases_publish] at hp
    rw [← hp, ← ho, hnew]
    exact .registers hid

theorem resume_turn (hr : (before = none ∧ ∃ id, hub.tunnels.get id = some r) ∨
      before = some (.resumeSaved r)) :
    Turn hub x before (leases (resume hub x call r).1) (Outcome.point (resume hub x call r).2) := by
  rw [show leases (resume hub x call r).1 = (leases hub).attach r x from leases_attach ..]
  exact .resumes hr

theorem publish_turn (hr : before = some (.policySaved r)) :
    Turn hub x before (leases (publish hub x call r).1)
      (Outcome.point (publish hub x call r).2) := by
  rw [leases_publish]
  exact .publishes hr

theorem existingFor_registered (h : existingFor hub call = some r) :
    ∃ id, hub.tunnels.get id = some r := by
  unfold existingFor at h
  split at h
  · cases h
  · cases h
  · rw [Option.filter_eq_some_iff] at h
    exact OrderedMap.mem_values.mp (List.mem_of_find?_eq_some h.1)

theorem start_turn :
    Turn hub x none (leases (start hub x call draw).1)
      (Outcome.point (start hub x call draw).2) := by
  unfold start
  split
  · rename_i r hr
    have hreg := existingFor_registered hr
    split
    · exact resume_turn (.inl ⟨rfl, hreg⟩)
    split
    · refine .goesOn fun p hp => ?_
      cases hp
    rename_i policy _
    have hl : leases (hub.onTunnel r fun tunnel => { tunnel with policy := policy }) =
        leases hub := leases_onTunnel rfl rfl rfl rfl
    simp only
    split
    · rw [hl]
      refine .goesOn fun p hp => ?_
      cases hp
      exact hreg
    · rw [show leases (resume _ x call r).1 = (leases _).attach r x from leases_attach .., hl]
      exact .resumes (.inl ⟨rfl, hreg⟩)
  · refine .goesOn fun p hp => ?_
    cases hp
    trivial

theorem proceed_turn {answer : Answer}
    (h : Register.proceed hub x call answer draw = some (hub', outcome)) :
    Turn hub x (some call.point) (leases hub') (Outcome.point outcome) := by
  unfold Register.proceed at h
  split at h
  -- returned
  · cases h
  -- rejected
  · cases h
    exact .goesOn fun p hp => by cases hp
  -- resumeSaved
  · rename_i hp
    rw [hp]
    cases h
    exact resume_turn (.inr rfl)
  -- tunnels
  · split at h <;> cases h
    · exact .goesOn fun p hp => by cases hp
    · refine .goesOn fun p hp => ?_
      cases hp
      trivial
  -- traffic
  · split at h
    · cases h
      refine .goesOn fun p hp => ?_
      cases hp
      trivial
    · obtain ⟨o, ho, h⟩ := Option.map_eq_some_iff.mp h
      cases h
      exact .goesOn (allocateId_checked ho)
  -- usage
  · split at h
    · cases h
      exact .goesOn fun p hp => by cases hp
    · obtain ⟨o, ho, h⟩ := Option.map_eq_some_iff.mp h
      cases h
      exact .goesOn (allocateId_checked ho)
  -- named
  · rename_i hp
    rw [hp]
    split at h
    · cases h
      exact .goesOn fun p hp => by cases hp
    · exact construct_turn rfl (Option.some.inj h)
  -- random
  · rename_i hp
    rw [hp]
    split at h
    · obtain ⟨o, ho, h⟩ := Option.map_eq_some_iff.mp h
      cases h
      exact .goesOn (drawId_checked ho)
    · exact construct_turn rfl (Option.some.inj h)
  -- policySaved
  · rename_i r hp
    rw [hp]
    cases h
    exact publish_turn rfl
  · cases h

/-! ## What a call leaves alone -/

/-- The parts of a hub that no turn of `register` changes before its outcome is settled. -/
structure Frame (hub hub' : Hub) : Prop where
  config : hub'.config = hub.config
  nextSession : hub'.nextSession = hub.nextSession
  access : hub'.access = hub.access
  now : hub'.now = hub.now
  phase : ∀ y, (hub'.sessions y).phase = (hub.sessions y).phase

theorem Frame.rfl : Frame hub hub := ⟨.refl _, .refl _, .refl _, .refl _, fun _ => .refl _⟩

theorem Frame.trans {hub'' : Hub} (h : Frame hub hub') (h' : Frame hub' hub'') :
    Frame hub hub'' where
  config := h'.config.trans h.config
  nextSession := h'.nextSession.trans h.nextSession
  access := h'.access.trans h.access
  now := h'.now.trans h.now
  phase := fun y => (h'.phase y).trans (h.phase y)

theorem frame_onSession {f : Session → Session}
    (h : (f (hub.sessions x)).phase = (hub.sessions x).phase) : Frame hub (hub.onSession x f) := by
  refine { Frame.rfl with phase := fun y => ?_ }
  simp only [Hub.onSession, update_apply]
  split
  · rename_i hy
    rw [h, hy]
  · rfl

theorem frame_endAll (sessions : List SessionRef) (reason : String) :
    Frame hub (hub.endAll sessions reason) := by
  induction sessions generalizing hub with
  | nil => exact .rfl
  | cons x sessions ih =>
    exact (frame_onSession (ended_phase ..)).trans (@ih (hub.endSession x reason))

theorem frame_onTunnel {f : Tunnel → Tunnel} : Frame hub (hub.onTunnel r f) := { Frame.rfl with }

theorem frame_attach : Frame hub (hub.attach r x call) := by
  have hstop : Frame hub (hub.clearTimeout (hub.heap r).graceTimer) := { Frame.rfl with }
  have htake : Frame hub (hub.takeOver r x) := hstop.trans (frame_endAll ..)
  simp only [Hub.attach]
  exact (htake.trans frame_onTunnel).trans (frame_onSession rfl)

theorem frame_publish : Frame hub (publish hub x call r).1 := by
  have h : Frame hub { hub with tunnels := hub.tunnels.set (hub.heap r).id r } :=
    { Frame.rfl with }
  exact h.trans frame_attach

theorem frame_construct {previous : Option ShareCode} {id : String}
    {definition : Option Definition} :
    Frame hub (construct hub x call previous id definition draw).1 := by
  unfold construct
  split
  · exact .rfl
  rename_i policy _
  have h : Frame hub { hub with
      heap := update hub.heap hub.nextTunnel (newTunnel call previous id definition draw policy)
      nextTunnel := hub.nextTunnel + 1 } := { Frame.rfl with }
  simp only
  split
  · exact h
  · exact h.trans frame_publish

theorem frame_start : Frame hub (start hub x call draw).1 := by
  unfold start
  split
  · rename_i r _
    split
    · exact frame_attach
    split
    · exact .rfl
    rename_i policy _
    have h : Frame hub (hub.onTunnel r fun tunnel => { tunnel with policy := policy }) :=
      frame_onTunnel
    simp only
    split
    · exact h
    · exact h.trans frame_attach
  · exact .rfl

theorem frame_proceed {answer : Answer}
    (h : Register.proceed hub x call answer draw = some (hub', outcome)) : Frame hub hub' := by
  unfold Register.proceed at h
  split at h
  · cases h
  · cases h
    exact .rfl
  · cases h
    exact frame_attach
  · split at h <;> cases h <;> exact .rfl
  · split at h
    · cases h
      exact .rfl
    · obtain ⟨o, -, h⟩ := Option.map_eq_some_iff.mp h
      cases h
      exact .rfl
  · split at h
    · cases h
      exact .rfl
    · obtain ⟨o, -, h⟩ := Option.map_eq_some_iff.mp h
      cases h
      exact .rfl
  · split at h
    · cases h
      exact .rfl
    · obtain rfl : (construct ..).1 = hub' := congrArg Prod.fst (Option.some.inj h)
      exact frame_construct
  · split at h
    · obtain ⟨o, -, h⟩ := Option.map_eq_some_iff.mp h
      cases h
      exact .rfl
    · obtain rfl : (construct ..).1 = hub' := congrArg Prod.fst (Option.some.inj h)
      exact frame_construct
  · cases h
    exact frame_publish
  · cases h

theorem Frame.point (h : Frame hub hub') : pointOf hub' = pointOf hub := by
  funext y
  rw [pointOf, pointOf, h.phase]

theorem settle_nextSession (call : Call) (outcome : Outcome) :
    (settle hub x call outcome).nextSession = hub.nextSession := by
  cases outcome <;> rfl

/-! ## The effect of an event -/

/-- The names that a request of the web UI or of the server itself takes away. -/
def Names (hub : Hub) (n : String) : Event → Prop
  | .remove id => n = id
  | .closeFor accountId => ∃ id r, hub.tunnels.get id = some r ∧
      (hub.heap r).accountId = accountId ∧ (hub.heap r).id = n
  | .closeCredential credential => ∃ id r, hub.tunnels.get id = some r ∧
      (hub.heap r).credential = some credential ∧ (hub.heap r).id = n
  | _ => False

/-- The session whose call an event takes on. -/
def turnOf : Event → Option SessionRef
  | .register x _ _ => some x
  | .proceed x _ _ => some x
  | _ => none

/-- The call of a session takes its turn, or the message that should begin it is refused. -/
structure TakesTurn (hub : Hub) (x : SessionRef) (hub' : Hub) : Prop where
  lt : x < hub.nextSession
  nextSession : hub'.nextSession = hub.nextSession
  turn : Turn hub x (pointOf hub x) (Leases.leases hub') (pointOf hub' x)
  point : ∀ y, y ≠ x → pointOf hub' y = pointOf hub y

/-- Nothing happens to the leases, and no call comes to a point. -/
structure Quiet (hub hub' : Hub) : Prop where
  nextSession : hub.nextSession ≤ hub'.nextSession
  leases : leases hub' = leases hub
  point : ∀ y p, pointOf hub' y = some p → pointOf hub y = some p

/-- What an event is for the leases and for the calls. -/
inductive Effect (hub : Hub) : Event → Hub → Prop
  | turn {e : Event} {hub' : Hub} {x : SessionRef} (he : turnOf e = some x)
      (h : TakesTurn hub x hub') : Effect hub e hub'
  | loses {hub' : Hub} {x : SessionRef} (hx : x < hub.nextSession) (hn : hub'.nextSession = hub.nextSession)
      (hg : (leases hub).gone x = false)
      (h : leases hub' = (leases hub).lose x (graceEnd hub x))
      (hp : pointOf hub' = pointOf hub) : Effect hub (.socketClose x) hub'
  | fires {hub' : Hub} {t : TimerRef} {r : TunnelRef} (hn : hub'.nextSession = hub.nextSession) (ht : (t, r) ∈ hub.timers)
      (h : leases hub' = (leases hub).fire t r) (hp : pointOf hub' = pointOf hub) :
      Effect hub (.graceFires t) hub'
  | releases {e : Event} {hub' : Hub} {names : List String} (hn : hub'.nextSession = hub.nextSession)
      (hnames : ∀ n ∈ names, Names hub n e)
      (h : leases hub' = (leases hub).releaseAll names) (hp : pointOf hub' = pointOf hub) :
      Effect hub e hub'
  | other {e : Event} {hub' : Hub} (h : Quiet hub hub') : Effect hub e hub'

/-- A session that does not exist yet has not closed and hears of nothing. -/
def Unused (hub : Hub) : Prop :=
  ∀ x, hub.nextSession ≤ x → (leases hub).gone x = false ∧ (leases hub).hears x = []

theorem leases_connect (hu : Unused hub) (ip : String) :
    leases { hub with
      sessions := update hub.sessions hub.nextSession { ip := ip }
      nextSession := hub.nextSession + 1 } = leases hub := by
  obtain ⟨hg, hh⟩ := hu hub.nextSession (Nat.le_refl _)
  ext : 1 <;> try rfl
  case gone =>
    funext y
    by_cases hy : y = hub.nextSession
    · subst hy
      rw [hg]
      simp [leases]
    · simp [leases, hy]
  case hears =>
    funext y
    by_cases hy : y = hub.nextSession
    · subst hy
      rw [hh]
      simp [leases, owners]
    · simp [leases, hy]

theorem pointOf_update_none {s : Session} (hs : point s.phase = none) :
    ∀ y p, pointOf { hub with sessions := update hub.sessions x s } y = some p →
      pointOf hub y = some p := by
  intro y p h
  simp only [pointOf, update_apply] at h ⊢
  split at h
  · rw [hs] at h
    cases h
  · exact h

theorem Quiet.trans {hub'' : Hub} (h : Quiet hub hub') (h' : Quiet hub' hub'') :
    Quiet hub hub'' where
  nextSession := h.nextSession.trans h'.nextSession
  leases := h'.leases.trans h.leases
  point := fun y p hp => h.point y p (h'.point y p hp)

theorem Quiet.rfl : Quiet hub hub := ⟨Nat.le_refl _, .refl _, fun _ _ h => h⟩

theorem quiet_onSession {f : Session → Session}
    (h : SameEars (hub.sessions x) (f (hub.sessions x)))
    (hp : point (f (hub.sessions x)).phase = none ∨
      (f (hub.sessions x)).phase = (hub.sessions x).phase) : Quiet hub (hub.onSession x f) := by
  refine ⟨Nat.le_refl _, leases_onSession h, ?_⟩
  rcases hp with hp | hp
  · exact pointOf_update_none hp
  · rw [pointOf_onSession hp]
    exact fun _ _ => id

theorem quiet_onTunnel {f : Tunnel → Tunnel} (hid : (f (hub.heap r)).id = (hub.heap r).id)
    (hs : (f (hub.heap r)).session = (hub.heap r).session)
    (ht : (f (hub.heap r)).graceTimer = (hub.heap r).graceTimer)
    (hu : (f (hub.heap r)).graceUntil = (hub.heap r).graceUntil) : Quiet hub (hub.onTunnel r f) :=
  ⟨Nat.le_refl _, leases_onTunnel hid hs ht hu, fun _ _ => id⟩

theorem quiet_fail {failure} : Quiet hub (hub.onSession x fun session => session.fail failure) :=
  quiet_onSession (sameEars_fail ..) (.inr (fail_phase ..))

/-- A turn of `register`, once its outcome is settled. -/
theorem takesTurn_settle {hub₁ : Hub} {call : Call} {outcome : Outcome}
    (hx : x < hub.nextSession) (hf : Frame hub hub₁)
    (h : Turn hub x (pointOf hub x) (leases hub₁) (Outcome.point outcome)) :
    TakesTurn hub x (settle hub₁ x call outcome) := by
  refine ⟨hx, (settle_nextSession ..).trans hf.nextSession, ?_, fun y hy => ?_⟩
  · rw [leases_settle, pointOf_settle, update_self]
    exact h
  · rw [pointOf_settle, update_of_ne hy, hf.point]

theorem register_takesTurn {request : Request} (hx : x < hub.nextSession)
    (h : handleRegister hub x request draw = some hub') : TakesTurn hub x hub' := by
  unfold handleRegister at h
  split at h
  · rename_i owner hphase
    have hpoint : pointOf hub x = none := by simp [pointOf, hphase, point]
    split at h
    · cases h
      refine ⟨hx, rfl, ?_, fun y hy => ?_⟩
      · rw [pointOf_onSession (fail_phase ..), hpoint, leases_onSession (sameEars_fail ..)]
        exact .goesOn fun p hp => by cases hp
      · rw [pointOf_onSession (fail_phase ..)]
    · cases h
      refine takesTurn_settle hx frame_start ?_
      rw [hpoint]
      exact start_turn
  · cases h

theorem proceed_takesTurn {answer : Answer} (hx : x < hub.nextSession)
    (h : handleProceed hub x answer draw = some hub') : TakesTurn hub x hub' := by
  unfold handleProceed at h
  split at h
  · rename_i call hphase
    have hpoint : pointOf hub x = some call.point := by simp [pointOf, hphase, point]
    obtain ⟨⟨hub₁, outcome⟩, hp, h⟩ := Option.map_eq_some_iff.mp h
    cases h
    refine takesTurn_settle hx (frame_proceed hp) ?_
    rw [hpoint]
    exact proceed_turn hp
  · cases h

theorem takesTurn {e : Event} (he : turnOf e = some x) (h : step hub e = some hub') :
    TakesTurn hub x hub' := by
  cases e <;> cases he
  · rw [step, Option.ite_none_right_eq_some] at h
    exact register_takesTurn h.1 h.2
  · rw [step, Option.ite_none_right_eq_some] at h
    exact proceed_takesTurn h.1 h.2

theorem reply_quiet (h : handleReply hub x = some hub') : Quiet hub hub' := by
  unfold handleReply at h
  split at h
  · cases h
    exact quiet_onSession (sameEars_sendControl ..) (.inl (by rw [sendControl_phase]; rfl))
  · cases h

theorem join_quiet {code : Option String} {intel}
    (h : handleJoin hub x code intel = some hub') : Quiet hub hub' := by
  unfold handleJoin at h
  split at h
  · split at h
    · cases h
      exact quiet_fail
    · rename_i r _
      cases h
      have ht : Quiet hub (hub.onTunnel r fun tunnel =>
          { tunnel with joiners := tunnel.joiners ++ [x] }) := quiet_onTunnel rfl rfl rfl rfl
      refine ht.trans (quiet_onSession ?_ (.inl (by rw [sendControl_phase]; rfl)))
      refine And.imp_right (fun h => h.trans ?_) (sameEars_sendControl ..)
      exact (List.filterMap_append ..).trans (List.append_nil _)
  · cases h

theorem hello_quiet {answer} (h : handleHello hub x answer = some hub') : Quiet hub hub' := by
  unfold handleHello at h
  split at h
  · cases h
  · split at h
    · cases h
      exact quiet_fail
    · cases h
      exact quiet_onSession (sameEars_sendControl ..) (.inl (by rw [sendControl_phase]; rfl))

theorem unexpected_quiet (h : handleUnexpected hub x = some hub') : Quiet hub hub' := by
  unfold handleUnexpected at h
  split at h <;> cases h <;> exact quiet_fail

theorem quiet_changePolicy {id : String} {policy} : Quiet hub (changePolicy hub id r policy) := by
  have h : Quiet hub (hub.onTunnel r fun tunnel => { tunnel with policy := policy }) :=
    quiet_onTunnel rfl rfl rfl rfl
  exact ⟨h.nextSession, h.leases, h.point⟩

theorem updateAccess_quiet {id : String} {input} {hash : String} :
    Quiet hub (updateAccess hub id input hash) := by
  unfold updateAccess
  split
  · exact .rfl
  split
  · exact .rfl
  · exact quiet_changePolicy

theorem applyLive_quiet {id : String} {policy} : Quiet hub (applyLive hub id policy) := by
  unfold applyLive
  split
  · exact .rfl
  · exact quiet_changePolicy

theorem mem_values {n : String} {p : Tunnel → Bool}
    (h : n ∈ (hub.tunnels.values.filter fun r => p (hub.heap r)).map fun r => (hub.heap r).id) :
    ∃ id r, hub.tunnels.get id = some r ∧ p (hub.heap r) = true ∧ (hub.heap r).id = n := by
  obtain ⟨r, hr, hid⟩ := List.mem_map.mp h
  obtain ⟨hv, hp⟩ := List.mem_filter.mp hr
  obtain ⟨id, hget⟩ := OrderedMap.mem_values.mp hv
  exact ⟨id, r, hget, hp, hid⟩

/-- The inversion of a step, from a state whose unused sessions are as new. -/
theorem step_effect {e : Event} (hu : Unused hub) (h : step hub e = some hub') :
    Effect hub e hub' := by
  cases e with
  | tick ms =>
    cases h
    exact .other ⟨Nat.le_refl _, rfl, fun _ _ h => h⟩
  | configure config =>
    cases h
    exact .other ⟨Nat.le_refl _, rfl, fun _ _ h => h⟩
  | sweep =>
    cases h
    exact .other ⟨Nat.le_refl _, rfl, fun _ _ h => h⟩
  | connect ip =>
    cases h
    exact .other ⟨Nat.le_succ _, leases_connect hu ip, pointOf_update_none rfl⟩
  | wsCloses x =>
    rw [step, Option.ite_none_right_eq_some] at h
    obtain ⟨-, h⟩ := h
    cases h
    exact .other (quiet_onSession ⟨rfl, rfl⟩ (.inr rfl))
  | socketClose x =>
    rw [step, Option.ite_none_right_eq_some] at h
    obtain ⟨hx, h⟩ := h
    rw [Bool.and_eq_true, decide_eq_true_eq, Bool.not_eq_true'] at hx
    cases h
    exact .loses hx.1 (onCloseAll_nextSession ..) hx.2 (leases_onSocketClose hx.2)
      (pointOf_onSocketClose x)
  | hello x answer =>
    rw [step, Option.ite_none_right_eq_some] at h
    exact .other (hello_quiet h.2)
  | unexpected x =>
    rw [step, Option.ite_none_right_eq_some] at h
    exact .other (unexpected_quiet h.2)
  | bye x =>
    rw [step, Option.ite_none_right_eq_some] at h
    obtain ⟨-, h⟩ := h
    cases h
    exact .other (quiet_onSession ⟨rfl, rfl⟩ (.inr rfl))
  | join x code intel =>
    rw [step, Option.ite_none_right_eq_some] at h
    exact .other (join_quiet h.2)
  | register x request draw => exact .turn rfl (takesTurn rfl h)
  | proceed x answer draw => exact .turn rfl (takesTurn rfl h)
  | reply x =>
    rw [step, Option.ite_none_right_eq_some] at h
    exact .other (reply_quiet h.2)
  | handshakeTimeout x =>
    rw [step, Option.ite_none_right_eq_some] at h
    obtain ⟨-, h⟩ := h
    cases h
    exact .other quiet_fail
  | graceFires timer =>
    obtain ⟨⟨t, r⟩, ht, h⟩ := Option.map_eq_some_iff.mp h
    cases h
    have hm := List.mem_of_find?_eq_some ht
    have he := List.find?_some ht
    simp only [decide_eq_true_eq] at he
    subst he
    exact .fires (remove_nextSession ..) hm (leases_onGraceTimer ..) (pointOf_remove ..)
  | remove id =>
    cases h
    have hl : leases (hub.remove id "closed from the web UI") = (leases hub).releaseAll [id] :=
      leases_remove ..
    exact .releases (remove_nextSession ..) (fun n hn => List.mem_singleton.mp hn) hl
      (pointOf_remove ..)
  | closeFor accountId =>
    cases h
    refine .releases (removeAll_nextSession ..) ?_ (leases_removeAll ..) (pointOf_removeAll ..)
    intro n hn
    obtain ⟨id, r, hget, hp, hid⟩ := @mem_values _ _ (fun tunnel => tunnel.accountId = accountId) hn
    exact ⟨id, r, hget, of_decide_eq_true hp, hid⟩
  | closeCredential credential =>
    cases h
    refine .releases (removeAll_nextSession ..) ?_ (leases_removeAll ..) (pointOf_removeAll ..)
    intro n hn
    obtain ⟨id, r, hget, hp, hid⟩ :=
      @mem_values _ _ (fun tunnel => tunnel.credential = some credential) hn
    exact ⟨id, r, hget, of_decide_eq_true hp, hid⟩
  | updateAccess id input hash =>
    cases h
    exact .other updateAccess_quiet
  | applyLive id policy =>
    cases h
    exact .other applyLive_quiet
  | setPersistent r persistent =>
    rw [step, Option.ite_none_right_eq_some] at h
    obtain ⟨-, h⟩ := h
    cases h
    exact .other (quiet_onTunnel rfl rfl rfl rfl)

end Tunlit.Registry.Steps
