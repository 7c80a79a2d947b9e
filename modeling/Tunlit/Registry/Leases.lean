import Tunlit.Lib.Leases
import Tunlit.Registry.System

/-! # The tunnels as leases of their names

What a hub is as a table of leases: a tunnel is the lease of its id, a session holds it,
and a close listener is told when the session is lost. Every function of the registry is
the operation of the table that it stands for, and an event is a few of these. -/
namespace Tunlit.Registry.Leases
open Function Tunlit.Lib.Insertion Tunlit.Lib.Leases Tunlit.Registry.State
  Tunlit.Registry.Register Tunlit.Registry.System

def owners (listeners : List Listener) : List TunnelRef :=
  listeners.filterMap fun
    | .owner r => some r
    | .joiner _ => none

theorem owners_append (l : List Listener) (r : TunnelRef) :
    owners (l ++ [.owner r]) = owners l ++ [r] := List.filterMap_append ..

def leases (hub : Hub) : Table String TunnelRef SessionRef where
  slot := hub.tunnels.get
  name r := (hub.heap r).id
  known r := decide (r < hub.nextTunnel)
  holder r := (hub.heap r).session
  timer r := (hub.heap r).graceTimer
  deadline r := (hub.heap r).graceUntil
  gone x := (hub.sessions x).closed
  hears x := if (hub.sessions x).closed then [] else owners (hub.sessions x).closeListeners
  timers := hub.timers
  nextTimer := hub.nextTimer

/-- The end of the grace period that a tunnel gets when its session is lost, if it gets one. -/
def graceEnd (hub : Hub) (x : SessionRef) : Option Nat :=
  if (hub.sessions x).saidBye || hub.config.gracePeriod = 0 then none
  else some (hub.now + hub.config.gracePeriod)

/-! ## Changes that are none to the leases -/

variable {hub hub' : Hub} {x : SessionRef} {r : TunnelRef}

/-- The session hears of its loss as before. -/
def SameEars (s t : Session) : Prop :=
  t.closed = s.closed ∧ owners t.closeListeners = owners s.closeListeners

theorem sameEars_sendControl (s : Session) (m : Control) : SameEars s (s.sendControl m) := by
  unfold Session.sendControl
  split <;> exact ⟨rfl, rfl⟩

theorem sameEars_ended (s : Session) (reason : String) : SameEars s (s.ended reason) := by
  unfold Session.ended
  split
  · exact ⟨rfl, rfl⟩
  · exact sameEars_sendControl s _

theorem sameEars_fail (s : Session) (failure) : SameEars s (s.fail failure) :=
  sameEars_sendControl s _

theorem leases_onSession {f : Session → Session}
    (h : SameEars (hub.sessions x) (f (hub.sessions x))) :
    leases (hub.onSession x f) = leases hub := by
  ext : 1 <;> try rfl
  all_goals
    funext y
    simp only [leases, Hub.onSession, update_apply]
    split
    · rename_i hy
      subst hy
      simp only [h.1, h.2]
    · rfl

theorem leases_onTunnel {f : Tunnel → Tunnel} (hid : (f (hub.heap r)).id = (hub.heap r).id)
    (hs : (f (hub.heap r)).session = (hub.heap r).session)
    (ht : (f (hub.heap r)).graceTimer = (hub.heap r).graceTimer)
    (hu : (f (hub.heap r)).graceUntil = (hub.heap r).graceUntil) :
    leases (hub.onTunnel r f) = leases hub := by
  ext : 1 <;> try rfl
  all_goals
    funext r'
    simp only [leases, Hub.onTunnel, update_apply]
    split
    · rename_i hr
      subst hr
      assumption
    · rfl

theorem leases_endSession (reason : String) : leases (hub.endSession x reason) = leases hub :=
  leases_onSession (sameEars_ended ..)

theorem leases_endAll (sessions : List SessionRef) (reason : String) :
    leases (hub.endAll sessions reason) = leases hub := by
  induction sessions generalizing hub with
  | nil => rfl
  | cons x sessions ih => exact (@ih (hub.endSession x reason)).trans (leases_endSession reason)

/-! ## The operations -/

theorem leases_remove (id reason : String) :
    leases (hub.remove id reason) = (leases hub).release id := by
  unfold Hub.remove
  split
  · rename_i h
    ext : 1 <;> try rfl
    · funext n
      simp only [leases, Table.release, update_apply]
      split
      · rename_i hn
        exact hn ▸ h
      · rfl
    · simp [leases, Table.release, Table.stop, h]
  · rename_i r h
    refine (leases_onTunnel rfl rfl rfl rfl).trans ?_
    rw [leases_endAll, leases_endAll]
    ext : 1 <;> try rfl
    · funext n
      simp only [leases, Table.release, update_apply, OrderedMap.get_delete, Hub.clearTimeout]
      grind
    · simp [leases, Table.release, Table.stop, h, Hub.clearTimeout]

theorem leases_attach (x : SessionRef) (call : Call) :
    leases (hub.attach r x call) = (leases hub).attach r x := by
  unfold Hub.attach
  have h : leases (hub.takeOver r x) = (leases hub).stop ((leases hub).timer r) := leases_endAll ..
  generalize hub.takeOver r x = hub' at h
  refine Eq.trans (b := { leases hub' with
    timer := update (leases hub').timer r none
    deadline := update (leases hub').deadline r none
    holder := update (leases hub').holder r (some x)
    hears := if (leases hub').gone x then (leases hub').hears
      else update (leases hub').hears x ((leases hub').hears x ++ [r]) }) ?_ (by rw [h]; rfl)
  ext : 1 <;> try rfl
  case hears =>
    funext y
    cases hc : (hub'.sessions x).closed <;> by_cases hy : y = x <;>
      simp [leases, Hub.onSession, Hub.onTunnel, update_apply, hc, hy, owners_append]
  all_goals
    simp only [leases, Hub.onSession, Hub.onTunnel, update_apply]
    funext y
    grind

theorem leases_startGrace :
    leases (hub.startGrace r) =
      if hub.config.gracePeriod = 0 then (leases hub).release (hub.heap r).id
      else (leases hub).arm r (hub.now + hub.config.gracePeriod) := by
  by_cases h : hub.config.gracePeriod = 0
  · simp only [Hub.startGrace, h, if_true]
    exact leases_remove ..
  · simp only [Hub.startGrace, h, if_false]
    ext : 1 <;> try rfl
    all_goals
      simp only [leases, Hub.onTunnel, Table.arm, update_apply]
      funext r'
      grind

theorem leases_detach :
    leases (hub.onTunnel r fun tunnel => { tunnel with session := none }) =
      (leases hub).detach r := by
  ext : 1 <;> try rfl
  all_goals
    simp only [leases, Hub.onTunnel, Table.detach, update_apply]
    funext r'
    grind

theorem leases_onOwnerClose (x : SessionRef) (r : TunnelRef) :
    leases (hub.onOwnerClose x r) = (leases hub).notify x (graceEnd hub x) r := by
  have hname : ((hub.onTunnel r fun tunnel => { tunnel with session := none }).heap r).id =
      (leases hub).name r := by simp [Hub.onTunnel, leases]
  unfold Hub.onOwnerClose Table.notify
  split
  · rename_i h
    rw [if_pos (show (leases hub).holder r ≠ some x from h)]
  rename_i h
  rw [if_neg (show ¬ (leases hub).holder r ≠ some x from h)]
  have hbye : ((hub.onTunnel r fun tunnel => { tunnel with session := none }).sessions x).saidBye =
      (hub.sessions x).saidBye := rfl
  have hperiod : (hub.onTunnel r fun tunnel => { tunnel with session := none }).config.gracePeriod =
      hub.config.gracePeriod := rfl
  simp only [hbye, graceEnd, Bool.or_eq_true, decide_eq_true_eq]
  split
  · rename_i hb
    rw [if_pos (.inl hb), leases_remove, leases_detach, hname]
  rename_i hb
  rw [leases_startGrace, hperiod, leases_detach, hname]
  split
  · rename_i hp
    rw [if_pos (.inr hp)]
  · rename_i hp
    rw [if_neg (not_or.mpr ⟨hb, hp⟩)]
    rfl

/-! ### What a listener leaves alone -/

theorem endAll_saidBye (sessions : List SessionRef) (reason : String) (y : SessionRef) :
    ((hub.endAll sessions reason).sessions y).saidBye = (hub.sessions y).saidBye := by
  induction sessions generalizing hub with
  | nil => rfl
  | cons x sessions ih =>
    refine (@ih (hub.endSession x reason)).trans ?_
    simp only [Hub.endSession, Hub.onSession, update_apply]
    split
    · rename_i hy
      subst hy
      unfold Session.ended Session.sendControl
      split
      · rfl
      · split <;> rfl
    · rfl

theorem endAll_config (sessions : List SessionRef) (reason : String) :
    (hub.endAll sessions reason).config = hub.config := by
  induction sessions generalizing hub with
  | nil => rfl
  | cons x sessions ih => exact @ih (hub.endSession x reason)

theorem endAll_now (sessions : List SessionRef) (reason : String) :
    (hub.endAll sessions reason).now = hub.now := by
  induction sessions generalizing hub with
  | nil => rfl
  | cons x sessions ih => exact @ih (hub.endSession x reason)

theorem endAll_nextSession (sessions : List SessionRef) (reason : String) :
    (hub.endAll sessions reason).nextSession = hub.nextSession := by
  induction sessions generalizing hub with
  | nil => rfl
  | cons x sessions ih => exact @ih (hub.endSession x reason)

theorem remove_nextSession (id reason : String) :
    (hub.remove id reason).nextSession = hub.nextSession := by
  unfold Hub.remove
  split
  · rfl
  · simp only [Hub.onTunnel, endAll_nextSession, Hub.clearTimeout]

theorem removeAll_nextSession (tunnels : List TunnelRef) (reason : String) :
    (hub.removeAll tunnels reason).nextSession = hub.nextSession := by
  induction tunnels generalizing hub with
  | nil => rfl
  | cons r tunnels ih =>
    exact (@ih (hub.remove (hub.heap r).id reason)).trans (remove_nextSession ..)

theorem onClose_nextSession (x : SessionRef) (listener : Listener) :
    (hub.onClose x listener).nextSession = hub.nextSession := by
  cases listener with
  | joiner r => rfl
  | owner r =>
    simp only [Hub.onClose, Hub.onOwnerClose]
    split
    · rfl
    split
    · exact remove_nextSession ..
    · simp only [Hub.startGrace]
      split
      · exact remove_nextSession ..
      · rfl

theorem onCloseAll_nextSession (listeners : List Listener) (x : SessionRef) :
    (listeners.foldl (fun hub listener => hub.onClose x listener) hub).nextSession =
      hub.nextSession := by
  induction listeners generalizing hub with
  | nil => rfl
  | cons listener listeners ih =>
    exact (@ih (hub.onClose x listener)).trans (onClose_nextSession ..)

theorem graceEnd_remove (id reason : String) (x : SessionRef) :
    graceEnd (hub.remove id reason) x = graceEnd hub x := by
  unfold Hub.remove
  split
  · rfl
  · simp only [graceEnd, Hub.onTunnel, endAll_saidBye, endAll_config, endAll_now, Hub.clearTimeout]

theorem graceEnd_onClose (x : SessionRef) (listener : Listener) (y : SessionRef) :
    graceEnd (hub.onClose x listener) y = graceEnd hub y := by
  cases listener with
  | joiner r => rfl
  | owner r =>
    simp only [Hub.onClose, Hub.onOwnerClose]
    split
    · rfl
    split
    · exact graceEnd_remove ..
    · simp only [Hub.startGrace]
      split
      · exact graceEnd_remove ..
      · rfl

theorem leases_onCloseAll (listeners : List Listener) (x : SessionRef) :
    leases (listeners.foldl (fun hub listener => hub.onClose x listener) hub) =
      (owners listeners).foldl (fun T r => T.notify x (graceEnd hub x) r) (leases hub) := by
  induction listeners generalizing hub with
  | nil => rfl
  | cons listener listeners ih =>
    rw [List.foldl_cons, ih, graceEnd_onClose]
    cases listener with
    | owner r =>
      rw [Hub.onClose, leases_onOwnerClose]
      rfl
    | joiner r =>
      rw [Hub.onClose, leases_onTunnel rfl rfl rfl rfl]
      rfl

theorem leases_onSocketClose (h : (hub.sessions x).closed = false) :
    leases (hub.onSocketClose x) = (leases hub).lose x (graceEnd hub x) := by
  unfold Hub.onSocketClose Table.lose
  rw [leases_onCloseAll]
  have hears : (leases hub).hears x = owners (hub.sessions x).closeListeners := by
    simp [leases, h]
  have hend : graceEnd (hub.onSession x fun session =>
      { session with closed := true, wsOpen := false, closeListeners := [] }) x =
      graceEnd hub x := by
    simp only [graceEnd, Hub.onSession, update_self]
    rfl
  have hmark : leases (hub.onSession x fun session =>
      { session with closed := true, wsOpen := false, closeListeners := [] }) =
      (leases hub).mark x := by
    ext : 1 <;> try rfl
    all_goals
      simp only [leases, Hub.onSession, Table.mark, update_apply]
      funext y
      grind
  rw [hears, hend, hmark]

theorem leases_onGraceTimer (timer : TimerRef) :
    leases (hub.onGraceTimer timer r) = (leases hub).fire timer r :=
  leases_remove ..

theorem leases_removeAll (tunnels : List TunnelRef) (reason : String) :
    leases (hub.removeAll tunnels reason) =
      (leases hub).releaseAll (tunnels.map fun r => (hub.heap r).id) := by
  induction tunnels generalizing hub with
  | nil => rfl
  | cons r tunnels ih =>
    have hname : ∀ r', ((hub.remove (hub.heap r).id reason).heap r').id = (hub.heap r').id :=
      fun r' => congrFun (congrArg Table.name (@leases_remove hub (hub.heap r).id reason)) r'
    refine (@ih (hub.remove (hub.heap r).id reason)).trans ?_
    simp only [hname, leases_remove, List.map_cons]
    rfl

/-! ## Where the calls of `register` are -/

def point : Phase → Option Point
  | .registering call => some call.point
  | _ => none

def pointOf (hub : Hub) (x : SessionRef) : Option Point := point (hub.sessions x).phase

theorem pointOf_onSession_eq {f : Session → Session} :
    pointOf (hub.onSession x f) = update (pointOf hub) x (point (f (hub.sessions x)).phase) := by
  funext y
  simp only [pointOf, Hub.onSession, update_apply]
  split <;> rfl

theorem pointOf_onSession {f : Session → Session}
    (h : (f (hub.sessions x)).phase = (hub.sessions x).phase) :
    pointOf (hub.onSession x f) = pointOf hub := by
  rw [pointOf_onSession_eq, h]
  exact update_eq_self ..

theorem sendControl_phase (s : Session) (m : Control) : (s.sendControl m).phase = s.phase := by
  unfold Session.sendControl
  split <;> rfl

theorem ended_phase (s : Session) (reason : String) : (s.ended reason).phase = s.phase := by
  unfold Session.ended
  split
  · rfl
  · exact sendControl_phase ..

theorem fail_phase (s : Session) (failure) : (s.fail failure).phase = s.phase :=
  sendControl_phase ..

theorem pointOf_endAll (sessions : List SessionRef) (reason : String) :
    pointOf (hub.endAll sessions reason) = pointOf hub := by
  induction sessions generalizing hub with
  | nil => rfl
  | cons x sessions ih =>
    exact (@ih (hub.endSession x reason)).trans (pointOf_onSession (ended_phase ..))

theorem pointOf_remove (id reason : String) : pointOf (hub.remove id reason) = pointOf hub := by
  unfold Hub.remove
  split
  · rfl
  · refine Eq.trans (b := pointOf (Hub.endAll _ _ _)) rfl ?_
    rw [pointOf_endAll, pointOf_endAll]
    rfl

theorem pointOf_removeAll (tunnels : List TunnelRef) (reason : String) :
    pointOf (hub.removeAll tunnels reason) = pointOf hub := by
  induction tunnels generalizing hub with
  | nil => rfl
  | cons r tunnels ih =>
    exact (@ih (hub.remove (hub.heap r).id reason)).trans (pointOf_remove ..)

theorem pointOf_onClose (x : SessionRef) (listener : Listener) :
    pointOf (hub.onClose x listener) = pointOf hub := by
  cases listener with
  | joiner r => rfl
  | owner r =>
    simp only [Hub.onClose, Hub.onOwnerClose]
    split
    · rfl
    split
    · exact pointOf_remove ..
    · simp only [Hub.startGrace]
      split
      · exact pointOf_remove ..
      · rfl

theorem pointOf_onCloseAll (listeners : List Listener) (x : SessionRef) :
    pointOf (listeners.foldl (fun hub listener => hub.onClose x listener) hub) = pointOf hub := by
  induction listeners generalizing hub with
  | nil => rfl
  | cons listener listeners ih =>
    exact (@ih (hub.onClose x listener)).trans (pointOf_onClose ..)

theorem pointOf_onSocketClose (x : SessionRef) : pointOf (hub.onSocketClose x) = pointOf hub :=
  (pointOf_onCloseAll ..).trans (pointOf_onSession rfl)

theorem pointOf_attach (x : SessionRef) (call : Call) :
    pointOf (hub.attach r x call) = pointOf hub := by
  unfold Hub.attach Hub.takeOver
  refine (pointOf_onSession rfl).trans ?_
  exact pointOf_endAll ..

/-- Where a call is after its turn. -/
def Outcome.point : Outcome → Option Point
  | .waits point => some point
  | .threw _ => none

theorem pointOf_settle (call : Call) (outcome : Outcome) :
    pointOf (settle hub x call outcome) = update (pointOf hub) x (Outcome.point outcome) := by
  cases outcome <;> rw [settle, pointOf_onSession_eq] <;> rfl

theorem leases_settle (call : Call) (outcome : Outcome) :
    leases (settle hub x call outcome) = leases hub := by
  cases outcome with
  | waits point => exact leases_onSession ⟨rfl, rfl⟩
  | threw failure => exact leases_onSession (sameEars_fail ..)

end Tunlit.Registry.Leases
