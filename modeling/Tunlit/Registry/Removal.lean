import Tunlit.Registry.Online

/-! # Whose tunnel is removed

`remove` is called with an id, long after the tunnel that causes the call was registered.
It takes away another tunnel only when the id was given out again while the session or the
grace timer of the first one could still call it. -/
namespace Tunlit.Registry.Removal
open Function Tunlit.Lib.Insertion Tunlit.Lib.Leases Tunlit.Lib.Runs Tunlit.Registry.State
  Tunlit.Registry.Register Tunlit.Registry.System Tunlit.Registry.Leases Tunlit.Registry.Steps
  Tunlit.Registry.Reach Tunlit.Registry.Online

/-- The event is the close of the tunnel's own session, its own grace timer, or a request
to close this tunnel. -/
def Own (hub : Hub) (r : TunnelRef) : Event → Prop
  | .socketClose x => (hub.heap r).session = some x
  | .graceFires t => (t, r) ∈ hub.timers
  | .remove id => (hub.heap r).id = id
  | .closeFor accountId => (hub.heap r).accountId = accountId
  | .closeCredential credential => (hub.heap r).credential = some credential
  | _ => False

/-- The tunnel is online or its grace timer is armed, registered or not. -/
def canAct (hub : Hub) (r : TunnelRef) : Bool := hub.online r || hub.timers.any fun t => t.2 = r

/-- When a call returns, it registers an id that is free and that no tunnel that can still
act had, or it resumes a tunnel that is registered or whose id is free. -/
def NameAtRest (hub : Hub) (e : Event) : Prop :=
  ∀ q ∈ returning hub e,
    if q.resumed then hub.tunnels.get q.id = none ∨ hub.tunnels.get q.id = some q.tunnel
    else hub.tunnels.get q.id = none ∧
      ∀ r < hub.nextTunnel, (hub.heap r).id = q.id → canAct hub r = false

instance (hub : Hub) (e : Event) : Decidable (NameAtRest hub e) :=
  inferInstanceAs (Decidable (∀ q ∈ returning hub e, _))

variable {hub hub' : Hub} {e : Event}

theorem canAct_iff {r : TunnelRef} : canAct hub r = true ↔ (leases hub).Acts r := by
  simp only [canAct, Bool.or_eq_true, online_iff, Table.Acts, List.any_eq_true, decide_eq_true_eq]
  refine or_congr_right ⟨?_, ?_⟩
  · rintro ⟨⟨t, r'⟩, ht, rfl⟩
    exact ⟨t, ht⟩
  · rintro ⟨t, ht⟩
    exact ⟨(t, r), ht, rfl⟩

/-- The tunnels that had the id of a new one are at rest. -/
theorem not_acts_of_atRest {q : Return} (hb : Basic hub)
    (h : ∀ r < hub.nextTunnel, (hub.heap r).id = q.id → canAct hub r = false) :
    ∀ r, (leases hub).name r = q.id → ¬ (leases hub).Acts r := by
  intro r hr ha
  have := h r (of_decide_eq_true (ha.known hb.sound)) hr
  rw [canAct_iff.mpr ha] at this
  cases this

theorem undisputed_returning {q : Return} (hb : Basic hub) (h : (leases hub).Undisputed)
    (ho : NameAtRest hub e) (hs : step hub e = some hub') (hq : returning hub e = some q) :
    (leases hub').Undisputed ∧
      ∀ id r, hub.tunnels.get id = some r → hub'.tunnels.get id = some r := by
  have ho := ho q hq
  rcases returning_cases hs hq with ⟨hr, hf, ht, -⟩ | ⟨hf, hn, hp, ht⟩ | ⟨hf, hn, ht, -⟩
  · rw [hf] at ho
    have hfresh : (leases hub).known q.tunnel = false := hr ▸ known_nextTunnel
    have hname : ((leases hub).create q.tunnel q.id).name q.tunnel = q.id := update_self ..
    have hrest := not_acts_of_atRest hb ho.2
    have hu : (((leases hub).create q.tunnel q.id).insert q.tunnel).Undisputed := by
      refine (h.create hb.sound hfresh).insert fun r hr ha => ?_
      obtain ⟨ha, hne⟩ := Table.create_acts hb.sound hfresh ha
      refine hrest r ?_ ha
      rw [hname] at hr
      exact (update_of_ne hne ..).symm.trans hr
    refine ⟨ht ▸ hu.attach (.inr (Table.insert_slot_self ..)) _, fun id r hr => ?_⟩
    have hne : id ≠ ((leases hub).create q.tunnel q.id).name q.tunnel := by
      rw [hname]
      rintro rfl
      rw [ho.1] at hr
      cases hr
    have : (leases hub').slot id = some r := by
      rw [ht]
      exact (Table.insert_slot_ne _ _ hne).trans hr
    exact this
  · rw [hf] at ho
    have hrest := not_acts_of_atRest hb ho.2
    have hu : ((leases hub).insert q.tunnel).Undisputed :=
      h.insert fun r hr => hrest r (hr.trans hn)
    refine ⟨ht ▸ hu.attach (.inr (Table.insert_slot_self ..)) _, fun id r hr => ?_⟩
    have hne : id ≠ (leases hub).name q.tunnel := by
      rw [hn]
      rintro rfl
      rw [ho.1] at hr
      cases hr
    have : (leases hub').slot id = some r := by
      rw [ht]
      exact (Table.insert_slot_ne _ _ hne).trans hr
    exact this
  · rw [if_pos hf] at ho
    have hown : (leases hub).Owns q.tunnel := by
      unfold Table.Owns
      rw [hn]
      exact ho
    refine ⟨ht ▸ h.attach hown _, fun id r hr => ?_⟩
    have : (leases hub').slot id = some r := ht ▸ hr
    exact this

/-- A request that names a registered tunnel is a request to close it. -/
theorem own_of_names (hb : Basic hub) {id : String} {r : TunnelRef}
    (hr : hub.tunnels.get id = some r) (h : Names hub id e) : Own hub r e := by
  have hid : ∀ id' r', hub.tunnels.get id' = some r' → (hub.heap r').id = id → r' = r := by
    intro id' r' hr' he
    have : id = id' := he.symm.trans (hb.sound.named id' r' hr').1
    subst this
    exact Option.some.inj (hr'.symm.trans hr)
  cases e with
  | remove id' =>
    have : id = id' := h
    subst this
    exact (hb.sound.named id r hr).1
  | closeFor accountId =>
    obtain ⟨id', r', hr', ha, he⟩ := h
    exact hid id' r' hr' he ▸ ha
  | closeCredential credential =>
    obtain ⟨id', r', hr', hc, he⟩ := h
    exact hid id' r' hr' he ▸ hc
  | _ => exact h.elim

/-- One event, from a state in which every tunnel that can act has its id or nobody has. -/
theorem undisputed_step (hb : Basic hub) (h : (leases hub).Undisputed) (ho : NameAtRest hub e)
    (hs : step hub e = some hub') :
    (leases hub').Undisputed ∧
      ∀ id r, hub.tunnels.get id = some r → hub'.tunnels.get id = some r ∨ Own hub r e := by
  cases step_effect hb.unused hs with
  | turn he _ =>
    cases hq : returning hub e with
    | some q => exact (undisputed_returning hb h ho hs hq).imp_right fun h id r hr => .inl (h id r hr)
    | none =>
      rcases leases_of_waiting he hs hq with ht | ⟨n, ht⟩
      · refine ⟨ht ▸ h, fun id r hr => .inl ?_⟩
        exact (congrFun (congrArg Table.slot ht) id).trans hr
      · refine ⟨ht ▸ h.create hb.sound known_nextTunnel, fun id r hr => .inl ?_⟩
        exact (congrFun (congrArg Table.slot ht) id).trans hr
  | @loses _ x _ _ _ ht _ =>
    refine ⟨ht ▸ h.lose hb.sound _ _, fun id r hr => ?_⟩
    have hl := Table.lose_slot (x := x) (d := graceEnd hub x) h hb.sound hr
    rw [← ht] at hl
    exact hl
  | @fires _ t r' _ hm ht _ =>
    refine ⟨ht ▸ h.fire _ _, fun id r hr => ?_⟩
    have hl := Table.fire_slot h hm hr
    rw [← ht] at hl
    refine hl.imp_right ?_
    rintro rfl
    exact hm
  | @releases _ _ names _ hnames ht _ =>
    refine ⟨ht ▸ h.releaseAll _, fun id r hr => ?_⟩
    by_cases hm : id ∈ names
    · exact .inr (own_of_names hb hr (hnames id hm))
    · have hl : (leases hub').slot id = some r := ht ▸ (Table.releaseAll_slot hm).trans hr
      exact .inl hl
  | other hq =>
    refine ⟨hq.leases ▸ h, fun id r hr => .inl ?_⟩
    exact (congrFun (congrArg Table.slot hq.leases) id).trans hr

theorem undisputed (h : machine.Reaches NameAtRest hub) : (leases hub).Undisputed := by
  refine Machine.Reaches.invariant_of (I := fun s => (leases s).Undisputed) (J := Basic) h
    (fun s hr => basic hr.reachable) ?_ ?_
  · rintro _ ⟨config, rfl⟩ r ha
    exact .inl rfl
  · exact fun s t e hb hu ho hs => (undisputed_step hb hu ho hs).1

/-- In a run in which no id is given out again while a tunnel that had it can still act, a
tunnel leaves the registry only by an event of its own; and it stays there as long as there
is none. -/
theorem removed_by_own {hub : Hub} (h : machine.Reaches NameAtRest hub) {id : String}
    {r : TunnelRef} (hr : hub.tunnels.get id = some r) :
    (∀ e hub', NameAtRest hub e → step hub e = some hub' →
      hub'.tunnels.get id = some r ∨ Own hub r e) ∧
    ∀ hub', (machine.startingIn hub).Reaches (fun s e => NameAtRest s e ∧ ¬ Own s r e) hub' →
      hub'.tunnels.get id = some r := by
  have hstep : ∀ hub, machine.Reaches NameAtRest hub → ∀ e hub', NameAtRest hub e →
      step hub e = some hub' → ∀ id r, hub.tunnels.get id = some r →
        hub'.tunnels.get id = some r ∨ Own hub r e :=
    fun hub h e hub' ho hs => (undisputed_step (basic h.reachable) (undisputed h) ho hs).2
  refine ⟨fun e hub' ho hs => hstep hub h e hub' ho hs id r hr, fun hub' hrun => ?_⟩
  induction hrun with
  | init hi => exact hi ▸ hr
  | step hrun ho hs ih =>
    have hreach := h.append hrun fun _ _ => And.left
    exact (hstep _ hreach _ _ ho.1 hs id r ih).resolve_right ho.2

theorem removed_by_own_granted :
    ∃ hub hub', machine.exec {} (asking 0 alice ++ granted 0 "t") = some hub ∧
      step hub (.remove "api") = some hub' ∧
      (hub'.tunnels.get "web" = some 0 ∨ Own hub 0 (.remove "api")) ∧
      { hub with now := hub.now + 5 }.tunnels.get "web" = some 0 := by
  have h : ((machine.exec {} (asking 0 alice ++ granted 0 "t")).map fun hub =>
      hub.tunnels.get "web") = some (some 0) := by decide
  obtain ⟨hub, he, h⟩ := Option.map_eq_some_iff.mp h
  have hreach : machine.Reaches NameAtRest hub :=
    Machine.Reaches.exec (.init ⟨{}, rfl⟩) _ (by decide) he
  have htick : NameAtRest hub (.tick 5) ∧ ¬ Own hub 0 (.tick 5) := ⟨fun q hq => (by cases hq), id⟩
  refine ⟨hub, _, he, rfl, (removed_by_own hreach h).1 _ _ (fun q hq => by cases hq) rfl,
    (removed_by_own hreach h).2 _ (.step (.init rfl) htick rfl)⟩

/-- The web UI closes a tunnel, its name is registered again, and only then does the socket
of the first session close: a grace period begins for a tunnel that is gone. -/
def closedLate : List Event :=
  asking 0 alice ++ granted 0 "a" ++ [.remove "web"] ++ asking 1 bob ++ granted 1 "b" ++
    [.socketClose 0]

theorem late_hub : ∃ hub hub', machine.exec {} closedLate = some hub ∧
    step hub (.graceFires 0) = some hub' ∧ hub.tunnels.get "web" = some 1 ∧
    hub'.tunnels.get "web" = none ∧ hub.timers = [(0, 0)] := by
  have h : ((machine.exec {} closedLate).map fun hub =>
      (hub.tunnels.get "web", hub.timers, (step hub (.graceFires 0)).map fun hub' =>
        hub'.tunnels.get "web")) = some (some 1, [(0, 0)], some none) := by decide
  obtain ⟨hub, he, h⟩ := Option.map_eq_some_iff.mp h
  simp only [Prod.mk.injEq, Option.map_eq_some_iff] at h
  obtain ⟨hweb, htimers, hub', hs, hnone⟩ := h
  exact ⟨hub, hub', he, hs, hweb, hnone, htimers⟩

theorem removed_by_other :
    ¬ ∀ hub, Reachable hub → ∀ e hub', step hub e = some hub' →
      ∀ id r, hub.tunnels.get id = some r → hub'.tunnels.get id = some r ∨ Own hub r e := by
  intro h
  obtain ⟨hub, hub', he, hs, hweb, hnone, htimers⟩ := late_hub
  have hr : Reachable hub := Machine.Reachable.exec (.init ⟨{}, rfl⟩) closedLate he
  rcases h hub hr _ hub' hs "web" 1 hweb with hweb' | hown
  · rw [hnone] at hweb'
    cases hweb'
  · rw [Own, htimers] at hown
    simp at hown

end Tunlit.Registry.Removal
