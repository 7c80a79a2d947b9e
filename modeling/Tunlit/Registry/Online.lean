import Tunlit.Registry.Reach

/-! # No tunnel without an owner

A registered tunnel is online, or its grace period runs and a timer will end it. What can
go wrong is that a session whose socket has closed gets a tunnel: the listener that would
start the grace period is added after the `close` event. -/
namespace Tunlit.Registry.Online
open Function Tunlit.Lib.Insertion Tunlit.Lib.Leases Tunlit.Lib.Runs Tunlit.Registry.Names Tunlit.Registry.State
  Tunlit.Registry.Register Tunlit.Registry.System Tunlit.Registry.Leases Tunlit.Registry.Steps
  Tunlit.Registry.Reach

/-- The grace period: no session, a timer that is armed, and the time it ends at. -/
def InGrace (hub : Hub) (r : TunnelRef) : Prop :=
  (hub.heap r).session = none ∧
    (∃ t, (hub.heap r).graceTimer = some t ∧ (t, r) ∈ hub.timers) ∧
    (hub.heap r).graceUntil.isSome

def Kept (hub : Hub) : Prop :=
  ∀ id r, hub.tunnels.get id = some r → hub.online r = true ∨ InGrace hub r

/-- When a call returns, the socket of its session has not closed; or it has resumed a
tunnel that is not registered any more. -/
def AttachesOpen (hub : Hub) (e : Event) : Prop :=
  ∀ q ∈ returning hub e, (hub.sessions q.session).closed = false ∨
    q.resumed = true ∧ q.tunnel ∉ hub.tunnels.values

instance (hub : Hub) (e : Event) : Decidable (AttachesOpen hub e) :=
  inferInstanceAs (Decidable (∀ q ∈ returning hub e, _))

variable {hub hub' : Hub} {e : Event}

theorem online_iff {r : TunnelRef} : hub.online r = true ↔ (leases hub).Live r := by
  unfold Hub.online
  simp only [Table.Live, leases]
  split
  · rename_i x hx
    simp [hx]
  · rename_i hx
    simp [hx]

theorem kept_iff : Kept hub ↔ (leases hub).Covered := by
  simp only [Kept, online_iff]
  rfl

theorem covered_returning {q : Return} (hb : Basic hub) (h : (leases hub).Covered)
    (ho : AttachesOpen hub e) (hs : step hub e = some hub') (hq : returning hub e = some q) :
    (leases hub').Covered := by
  have ho := ho q hq
  rcases returning_cases hs hq with ⟨hr, hf, ht, -⟩ | ⟨hf, -, hp, ht⟩ | ⟨-, -, ht, hp⟩
  · have hx : (leases hub).gone q.session = false :=
      ho.resolve_right fun h => by simp [hf] at h
    have hfresh : (leases hub).known q.tunnel = false := hr ▸ known_nextTunnel
    rw [ht]
    exact (h.create hb.sound hfresh).publish (hb.sound.create hfresh) (update_self ..) hx
  · have hx : (leases hub).gone q.session = false :=
      ho.resolve_right fun h => by simp [hf] at h
    rw [ht]
    exact h.publish hb.sound (hb.held _ _ _ hp rfl) hx
  · rw [ht]
    refine Table.Covered.attach (fun n r' _ hn => h n r' hn) hb.sound (ho.imp_right fun h => ?_)
    intro n hn
    exact h.2 (OrderedMap.mem_values.mpr ⟨n, hn⟩)

theorem covered_step (hb : Basic hub) (h : (leases hub).Covered) (ho : AttachesOpen hub e)
    (hs : step hub e = some hub') : (leases hub').Covered := by
  cases step_effect hb.unused hs with
  | turn he _ =>
    cases hq : returning hub e with
    | some q => exact covered_returning hb h ho hs hq
    | none =>
      rcases leases_of_waiting he hs hq with ht | ⟨n, ht⟩
      · exact ht ▸ h
      · exact ht ▸ h.create hb.sound known_nextTunnel
  | loses _ _ _ ht _ => exact ht ▸ h.lose hb.sound _ _
  | fires _ hm ht _ => exact ht ▸ h.fire hb.sound hm
  | releases _ _ ht _ => exact ht ▸ h.releaseAll hb.sound _
  | other hq => exact hq.leases ▸ h

theorem covered (h : machine.Reaches AttachesOpen hub) : (leases hub).Covered := by
  refine Machine.Reaches.invariant_of (I := fun s => (leases s).Covered) (J := Basic) h
    (fun s hr => basic hr.reachable) ?_ ?_
  · rintro _ ⟨config, rfl⟩ n r hn
    cases hn
  · exact fun s t e hb hc ho hs => covered_step hb hc ho hs

/-- A tunnel that a session gets after its socket has closed is neither. -/
theorem not_covered_step (ho : ¬ AttachesOpen hub e) (hs : step hub e = some hub') :
    ¬ (leases hub').Covered := by
  simp only [AttachesOpen, Option.mem_def, not_forall, not_or, not_and, Bool.not_eq_false] at ho
  obtain ⟨q, hq, hx, ho⟩ := ho
  have hx : (leases hub).gone q.session = true := hx
  rcases returning_cases hs hq with ⟨-, -, ht, -⟩ | ⟨-, -, -, ht⟩ | ⟨hf, -, ht, -⟩
  · rw [ht]
    exact Table.attach_gone (Table.insert_slot_self ..) hx
  · rw [ht]
    exact Table.attach_gone (Table.insert_slot_self ..) hx
  · rw [ht]
    obtain ⟨n, hn⟩ := OrderedMap.mem_values.mp (not_not.mp (ho hf))
    exact Table.attach_gone hn hx

/-- Every registered tunnel is online or in its grace period, in every run in which no
session gets a tunnel after its socket has closed; the first time one does, it is not. -/
theorem tunnels_kept (hub : Hub) :
    (machine.Reaches AttachesOpen hub → Kept hub) ∧
    ∀ e hub', step hub e = some hub' → ¬ AttachesOpen hub e → ¬ Kept hub' := by
  refine ⟨fun h => kept_iff.mpr (covered h), fun e hub' hs ho hk => ?_⟩
  exact not_covered_step ho hs (kept_iff.mp hk)

/-- The socket closes while `register` waits for the first limit. -/
def closedWhileAsking : List Event := asking 0 alice ++ [.socketClose 0] ++ granted 0 "t"

theorem closed_hub : ∃ hub, machine.exec {} closedWhileAsking = some hub ∧
    hub.tunnels.get "web" = some 0 ∧ hub.online 0 = false ∧ (hub.heap 0).session = some 0 := by
  have h : (machine.exec {} closedWhileAsking).map
      (fun hub => (hub.tunnels.get "web", hub.online 0, (hub.heap 0).session)) =
      some (some 0, false, some 0) := by decide
  obtain ⟨hub, he, h⟩ := Option.map_eq_some_iff.mp h
  simp only [Prod.mk.injEq] at h
  exact ⟨hub, he, h⟩

theorem kept_not_always : ¬ ∀ hub, Reachable hub → Kept hub := by
  intro h
  obtain ⟨hub, he, hweb, hoff, hs⟩ := closed_hub
  have hr : Reachable hub := Machine.Reachable.exec (.init ⟨{}, rfl⟩) closedWhileAsking he
  rcases h hub hr "web" 0 hweb with hon | ⟨hn, -⟩
  · rw [hoff] at hon
    cases hon
  · rw [hs] at hn
    cases hn

theorem tunnels_kept_granted :
    (∃ hub, machine.exec {} (asking 0 alice ++ granted 0 "t" ++ [.socketClose 0]) = some hub ∧
      hub.tunnels.get "web" = some 0 ∧ Kept hub) ∧
    ∃ hub hub', machine.exec {} (closedWhileAsking.dropLast) = some hub ∧
      step hub (.proceed 0 (.definition none) (drawn "t")) = some hub' ∧ ¬ Kept hub' := by
  constructor
  · have h : ((machine.exec {} (asking 0 alice ++ granted 0 "t" ++ [.socketClose 0])).map
        fun hub => hub.tunnels.get "web") = some (some 0) := by decide
    obtain ⟨hub, he, hweb⟩ := Option.map_eq_some_iff.mp h
    refine ⟨hub, he, hweb, (tunnels_kept hub).1 (Machine.Reaches.exec (.init ⟨{}, rfl⟩) _ ?_ he)⟩
    decide
  · have h : ((machine.exec {} closedWhileAsking.dropLast).map fun hub =>
        ((step hub (.proceed 0 (.definition none) (drawn "t"))).isSome,
          decide (AttachesOpen hub (.proceed 0 (.definition none) (drawn "t"))))) =
        some (true, false) := by decide
    obtain ⟨hub, he, h⟩ := Option.map_eq_some_iff.mp h
    simp only [Prod.mk.injEq, decide_eq_false_iff_not] at h
    obtain ⟨hub', hs⟩ := Option.isSome_iff_exists.mp h.1
    exact ⟨hub, hub', he, hs, (tunnels_kept hub).2 _ hub' hs h.2⟩

end Tunlit.Registry.Online
