import Tunlit.Registry.Reach

/-! # What `register` returns and what the map holds

A call checks that a name is free, or finds the tunnel of a resume token, and acts on it
after its awaits. It returns the tunnel that the map holds exactly if what it found is
still so, which it is when no other call that found the same id free has registered it and
no tunnel was removed while a call waited to resume it. -/
namespace Tunlit.Registry.Agreement
open Function Tunlit.Lib.Insertion Tunlit.Lib.Leases Tunlit.Lib.Runs Tunlit.Registry.State
  Tunlit.Registry.Register Tunlit.Registry.System Tunlit.Registry.Leases Tunlit.Registry.Steps
  Tunlit.Registry.Reach

/-- The map holds the returned tunnel, the session has it, and no other registered tunnel
had to make room for it. -/
structure Agrees (hub hub' : Hub) (q : Return) : Prop where
  registered : hub'.tunnels.get q.id = some q.tunnel
  attached : (hub'.heap q.tunnel).session = some q.session
  replaced : ∀ r, hub.tunnels.get q.id = some r → r = q.tunnel

/-- The id that a waiting call has found free. -/
def claimed (hub : Hub) : Point → Option String
  | .policySaved r => some (hub.heap r).id
  | p => nameOf p

/-- The tunnel that a waiting call is to resume. -/
def resuming : Point → Option TunnelRef
  | .resumeSaved r => some r
  | _ => none

/-- What the waiting call of a session has found is still so. -/
structure StillHolds (hub : Hub) (x : SessionRef) : Prop where
  free : ∀ p n, pointOf hub x = some p → claimed hub p = some n → hub.tunnels.get n = none
  registered : ∀ p r, pointOf hub x = some p → resuming p = some r →
    hub.tunnels.get (hub.heap r).id = some r

/-- No new tunnel is registered under an id that another waiting call has found free. -/
def LeavesClaims (hub : Hub) (e : Event) : Prop :=
  ∀ q ∈ returning hub e, q.resumed = false → ∀ y < hub.nextSession, y ≠ q.session →
    ∀ p ∈ pointOf hub y, claimed hub p ≠ some q.id

/-- No tunnel leaves the registry while a call waits to resume it. -/
def LeavesResumed (hub : Hub) (e : Event) : Prop :=
  ∀ hub' ∈ step hub e, ∀ y < hub.nextSession, ∀ p ∈ pointOf hub y, ∀ r ∈ resuming p,
    hub.tunnels.get (hub.heap r).id = some r → hub'.tunnels.get (hub.heap r).id = some r

instance (hub : Hub) (e : Event) : Decidable (LeavesClaims hub e) :=
  inferInstanceAs (Decidable (∀ q ∈ returning hub e, _))

instance (hub : Hub) (e : Event) : Decidable (LeavesResumed hub e) :=
  inferInstanceAs (Decidable (∀ hub' ∈ step hub e, _))

def Exclusive (hub : Hub) (e : Event) : Prop := LeavesClaims hub e ∧ LeavesResumed hub e

instance (hub : Hub) (e : Event) : Decidable (Exclusive hub e) :=
  inferInstanceAs (Decidable (_ ∧ _))

variable {hub hub' : Hub} {e : Event} {q : Return} {x : SessionRef}

/-! ## The call that returns -/

theorem claimed_of_nameOf {p : Point} {n : String} (h : nameOf p = some n) :
    claimed hub p = some n := by
  cases p <;> cases h <;> rfl

theorem agrees_of_inserted {T : Table String TunnelRef SessionRef}
    (hl : leases hub' = (T.insert q.tunnel).attach q.tunnel q.session) (hn : T.name q.tunnel = q.id) :
    hub'.tunnels.get q.id = some q.tunnel ∧ (hub'.heap q.tunnel).session = some q.session := by
  constructor
  · have hslot : (leases hub').slot (T.name q.tunnel) = some q.tunnel :=
      hl ▸ Table.insert_slot_self T q.tunnel
    exact hn ▸ hslot
  · have hheld : (leases hub').holder q.tunnel = some q.session := hl ▸ update_self ..
    exact hheld

/-- A new tunnel replaces another one exactly if its id is not free. -/
theorem agrees_iff_free {T : Table String TunnelRef SessionRef}
    (hl : leases hub' = (T.insert q.tunnel).attach q.tunnel q.session) (hn : T.name q.tunnel = q.id)
    (hnew : hub.tunnels.get q.id ≠ some q.tunnel) :
    Agrees hub hub' q ↔ hub.tunnels.get q.id = none := by
  obtain ⟨hreg, hatt⟩ := agrees_of_inserted hl hn
  constructor
  · intro h
    rw [Option.eq_none_iff_forall_ne_some]
    intro r hr
    exact hnew (h.replaced r hr ▸ hr)
  · intro h
    refine ⟨hreg, hatt, fun r hr => ?_⟩
    rw [h] at hr
    cases hr

/-- A call that returns agrees with the map exactly if what it found before its awaits is
still so. -/
theorem agrees_iff (h : Reachable hub) (hs : step hub e = some hub')
    (hq : returning hub e = some q) : Agrees hub hub' q ↔ StillHolds hub q.session := by
  have hb := basic h
  rcases returning_cases hs hq with ⟨hr, -, hl, hp⟩ | ⟨-, hn, hp, hl⟩ | ⟨-, hn, hl, hp⟩
  · have hname : ((leases hub).create q.tunnel q.id).name q.tunnel = q.id := update_self ..
    have hnew : hub.tunnels.get q.id ≠ some q.tunnel := by
      intro hm
      have hk := hb.known_of_registered hm
      rw [hr, known_nextTunnel] at hk
      cases hk
    rw [agrees_iff_free hl hname hnew]
    obtain ⟨p, hp, hnp⟩ := Option.bind_eq_some_iff.mp hp
    refine ⟨fun hf => ⟨fun p' n hp' hc => ?_, fun p' r hp' hc => ?_⟩, fun hf => ?_⟩
    · obtain rfl : p = p' := Option.some.inj (hp.symm.trans hp')
      obtain rfl : q.id = n := Option.some.inj ((claimed_of_nameOf hnp).symm.trans hc)
      exact hf
    · obtain rfl : p = p' := Option.some.inj (hp.symm.trans hp')
      cases p <;> cases hc
      cases hnp
    · exact hf.free p q.id hp (claimed_of_nameOf hnp)
  · rw [agrees_iff_free hl hn (hb.unborn _ _ _ hp)]
    refine ⟨fun hf => ⟨fun p n hp' hc => ?_, fun p r hp' hc => ?_⟩, fun hf => ?_⟩
    · obtain rfl : .policySaved q.tunnel = p := Option.some.inj (hp.symm.trans hp')
      obtain rfl : q.id = n := hn.symm.trans (Option.some.inj hc)
      exact hf
    · obtain rfl : .policySaved q.tunnel = p := Option.some.inj (hp.symm.trans hp')
      cases hc
    · exact hf.free _ q.id hp (congrArg some hn)
  · have hslot : ∀ n, hub'.tunnels.get n = hub.tunnels.get n := fun n =>
      congrFun (congrArg Table.slot hl) n
    have hheld : (leases hub').holder q.tunnel = some q.session := hl ▸ update_self ..
    have hiff : Agrees hub hub' q ↔ hub.tunnels.get q.id = some q.tunnel := by
      refine ⟨fun ha => hslot q.id ▸ ha.registered, fun hg => ?_⟩
      exact ⟨(hslot q.id).trans hg, hheld, fun r hr => Option.some.inj (hr.symm.trans hg)⟩
    rw [hiff]
    rcases hp with ⟨hnone, id, hid⟩ | hp
    · have hname : q.id = id := hn.symm.trans (hb.sound.named id _ hid).1
      refine iff_of_true (hname ▸ hid) ⟨fun p n hp' _ => ?_, fun p r hp' _ => ?_⟩
      · rw [hnone] at hp'
        cases hp'
      · rw [hnone] at hp'
        cases hp'
    · refine ⟨fun hg => ⟨fun p n hp' hc => ?_, fun p r hp' hc => ?_⟩, fun hf => ?_⟩
      · obtain rfl : .resumeSaved q.tunnel = p := Option.some.inj (hp.symm.trans hp')
        cases hc
      · obtain rfl : .resumeSaved q.tunnel = p := Option.some.inj (hp.symm.trans hp')
        obtain rfl : q.tunnel = r := Option.some.inj hc
        exact (congrArg hub.tunnels.get hn).trans hg
      · exact hn ▸ hf.registered _ _ hp rfl

/-! ## The other calls -/

theorem claimed_step (h : Basic hub) (hs : step hub e = some hub') {p : Point}
    (hp : pointOf hub x = some p) : claimed hub' p = claimed hub p := by
  cases p with
  | policySaved r =>
    exact congrArg some (name_step (step_effect h.unused hs) (h.held x _ r hp rfl))
  | _ => rfl

/-- What a waiting call has found is still so after an event that is not its turn. -/
theorem stillHolds_waiting (h : Basic hub) (hx : StillHolds hub x) (ho : Exclusive hub e)
    (hs : step hub e = some hub') (hp : pointOf hub' x = pointOf hub x) : StillHolds hub' x := by
  have he := step_effect h.unused hs
  constructor
  · intro p n hp' hc
    have hpx := hp ▸ hp'
    rw [claimed_step h hs hpx] at hc
    rw [Option.eq_none_iff_forall_ne_some]
    intro r hr
    rcases slot_step he hr with hr' | ⟨y, hy, hret, -⟩
    · have hfree := (hx.free p n hpx hc).symm.trans hr'
      cases hfree
    · -- the id is registered by the call of another session
      have hq := (returning_eq_some (q := ⟨y, r, (hub'.heap r).id, false⟩) hs).mpr ⟨hy, hret, rfl⟩
      have hn : (hub'.heap r).id = n := ((basic_step h hs).sound.named n r hr).1
      refine ho.1 _ hq rfl x (h.called x p hpx) ?_ p hpx (hc.trans (congrArg some hn.symm))
      rintro rfl
      obtain rfl := Option.some.inj (hp'.symm.trans hret)
      cases hc
  · intro p r hp' hc
    have hpx := hp ▸ hp'
    have hk : (leases hub).known r = true := by
      cases p <;> cases hc
      exact h.held x _ r hpx rfl
    rw [name_step he hk]
    exact ho.2 hub' hs x (h.called x p hpx) p hpx r hc (hx.registered p r hpx hc)

/-- What a call has just found is so. -/
theorem stillHolds_turn (h : Basic hub) (hx : StillHolds hub x) (ht : TakesTurn hub x hub') :
    StillHolds hub' x := by
  have ht := ht.turn
  generalize hb : pointOf hub x = p, hl : leases hub' = T, ha : pointOf hub' x = p' at ht
  cases ht with
  | goesOn hc =>
    have hslot : ∀ n, hub'.tunnels.get n = hub.tunnels.get n := fun n =>
      congrFun (congrArg Table.slot hl) n
    have hname : ∀ r, (hub'.heap r).id = (hub.heap r).id := fun r =>
      congrFun (congrArg Table.name hl) r
    constructor
    · intro p n hp hn
      rw [hslot]
      have hc := hc p (ha.symm.trans hp)
      cases p <;> cases hn
      · exact hc
      · exact hc
      · cases hc
    · intro p r hp hr
      rw [hslot, hname]
      have hc := hc p (ha.symm.trans hp)
      cases p <;> cases hr
      obtain ⟨id, hid⟩ := hc
      exact (congrArg hub.tunnels.get (h.sound.named id r hid).1).trans hid
  | @creates m hm =>
    obtain ⟨q, hq, hm⟩ := Option.bind_eq_some_iff.mp hm
    have hfree : hub.tunnels.get m = none := hx.free q m (hb.trans hq) (claimed_of_nameOf hm)
    constructor
    · intro p n hp hn
      obtain rfl := Option.some.inj (ha.symm.trans hp)
      obtain rfl : m = n := by
        have hname : (leases hub').name hub.nextTunnel = m := hl ▸ update_self ..
        exact hname.symm.trans (Option.some.inj hn)
      have hslot : (leases hub').slot m = none := hl ▸ hfree
      exact hslot
    · intro p r hp hr
      obtain rfl := Option.some.inj (ha.symm.trans hp)
      cases hr
  | registers _ => exact returned ha
  | publishes _ => exact returned ha
  | resumes _ => exact returned ha
where
  returned {r : TunnelRef} {resumed : Bool} (ha : pointOf hub' x = some (.returned r resumed)) :
      StillHolds hub' x := by
    constructor
    · intro p n hp hn
      obtain rfl := Option.some.inj (ha.symm.trans hp)
      cases hn
    · intro p r hp hr
      obtain rfl := Option.some.inj (ha.symm.trans hp)
      cases hr

theorem stillHolds_step (h : Basic hub) (hx : ∀ x, StillHolds hub x) (ho : Exclusive hub e)
    (hs : step hub e = some hub') : ∀ x, StillHolds hub' x := by
  intro x
  by_cases hp : pointOf hub' x = pointOf hub x
  · exact stillHolds_waiting h (hx x) ho hs hp
  · cases step_effect h.unused hs with
    | @turn _ _ y _ ht =>
      obtain rfl : x = y := by
        by_contra hxy
        exact hp (ht.point x hxy)
      exact stillHolds_turn h (hx x) ht
    | loses _ _ _ _ hpoint => exact absurd (congrFun hpoint x) hp
    | fires _ _ _ hpoint => exact absurd (congrFun hpoint x) hp
    | releases _ _ _ hpoint => exact absurd (congrFun hpoint x) hp
    | other hq =>
      -- the call is over: its session takes no message any more
      have hnone : pointOf hub' x = none := by
        cases hp' : pointOf hub' x with
        | none => rfl
        | some p => exact absurd (hp'.trans (hq.point x p hp').symm) hp
      constructor
      · intro p n hp'
        rw [hnone] at hp'
        cases hp'
      · intro p r hp'
        rw [hnone] at hp'
        cases hp'

theorem stillHolds (h : machine.Reaches Exclusive hub) : ∀ x, StillHolds hub x := by
  refine Machine.Reaches.invariant_of (I := fun s => ∀ x, StillHolds s x) (J := Basic) h
    (fun s hr => basic hr.reachable) ?_ ?_
  · rintro _ ⟨config, rfl⟩ x
    exact ⟨fun p n hp => (by cases hp), fun p r hp => (by cases hp)⟩
  · exact fun s t e hb hx ho hs => stillHolds_step hb hx ho hs

/-- In a run in which nobody registers an id that a waiting call has found free, nor takes
away a tunnel that a call waits to resume, every call that returns agrees with the map; and
in any run one does exactly if what it found is still so. -/
theorem register_agrees {hub hub' : Hub} {e : Event} {q : Return} (hs : step hub e = some hub')
    (hq : returning hub e = some q) :
    (machine.Reaches Exclusive hub → Agrees hub hub' q) ∧
    (Reachable hub → (Agrees hub hub' q ↔ StillHolds hub q.session)) :=
  ⟨fun h => (agrees_iff h.reachable hs hq).mpr (stillHolds h q.session),
    fun h => agrees_iff h hs hq⟩

/-- The last answer of `granted`, and the run up to it. -/
def lastAnswer (x : SessionRef) (token : String) : Event :=
  .proceed x (.definition none) (drawn token)

theorem register_agrees_granted :
    ∃ hub hub', machine.exec {} (asking 0 alice ++ (granted 0 "t").dropLast) = some hub ∧
      step hub (lastAnswer 0 "t") = some hub' ∧ Agrees hub hub' ⟨0, 0, "web", false⟩ ∧
      StillHolds hub 0 := by
  have h : ((machine.exec {} (asking 0 alice ++ (granted 0 "t").dropLast)).map fun hub =>
      ((step hub (lastAnswer 0 "t")).isSome, returning hub (lastAnswer 0 "t"))) =
      some (true, some ⟨0, 0, "web", false⟩) := by decide
  obtain ⟨hub, he, h⟩ := Option.map_eq_some_iff.mp h
  simp only [Prod.mk.injEq] at h
  obtain ⟨hub', hs⟩ := Option.isSome_iff_exists.mp h.1
  have hrun : machine.Reaches Exclusive hub :=
    Machine.Reaches.exec (.init ⟨{}, rfl⟩) _ (by decide) he
  have ha := (register_agrees hs h.2).1 hrun
  exact ⟨hub, hub', he, hs, ha, ((register_agrees hs h.2).2 hrun.reachable).mp ha⟩

/-- Two sessions ask for the same free name, both find it free, and both get it. -/
def bothAsking : List Event :=
  asking 0 alice ++ asking 1 bob ++ (granted 1 "b").dropLast ++ granted 0 "a"

theorem both_hub : ∃ hub hub', machine.exec {} bothAsking = some hub ∧
    step hub (lastAnswer 1 "b") = some hub' ∧
    returning hub (lastAnswer 1 "b") = some ⟨1, 1, "web", false⟩ ∧
    hub.tunnels.get "web" = some 0 ∧ hub.online 0 = true := by
  have h : ((machine.exec {} bothAsking).map fun hub =>
      ((step hub (lastAnswer 1 "b")).isSome, returning hub (lastAnswer 1 "b"),
        hub.tunnels.get "web", hub.online 0)) =
      some (true, some ⟨1, 1, "web", false⟩, some 0, true) := by decide
  obtain ⟨hub, he, h⟩ := Option.map_eq_some_iff.mp h
  simp only [Prod.mk.injEq] at h
  obtain ⟨hub', hs⟩ := Option.isSome_iff_exists.mp h.1
  exact ⟨hub, hub', he, hs, h.2⟩

theorem not_always_agrees :
    ¬ ∀ hub, Reachable hub → ∀ e hub' q, step hub e = some hub' → returning hub e = some q →
      Agrees hub hub' q := by
  intro h
  obtain ⟨hub, hub', he, hs, hq, hweb, -⟩ := both_hub
  have hr : Reachable hub := Machine.Reachable.exec (.init ⟨{}, rfl⟩) bothAsking he
  have := (h hub hr _ hub' _ hs hq).replaced 0 hweb
  cases this

end Tunlit.Registry.Agreement
