import Tunlit.Control.Relays

/-! # Address rules at the time of a stream

A session is judged once, when it joins. The streams that it opens later are judged by
nothing, so they are admitted as long as no change of the rules, or of what is known about
an address, turns away a session that has joined. -/
namespace Tunlit.Control.Rules
open Function Tunlit.Lib.Runs Tunlit.Access.Policy Tunlit.Registry.Names Tunlit.Registry.State
  Tunlit.Registry.Register Tunlit.Registry.Joiners Tunlit.Control.Relays

variable {s t : Server} {x y : SessionRef} {r : TunnelRef} {i : RelayRef}

/-! ## What relays leave alone -/

/-- The relays and the log change, and nothing else. -/
structure Aside (s t : Server) : Prop where
  hub : t.hub = s.hub
  intel : t.intel = s.intel

theorem Aside.rfl : Aside s s := ⟨.refl _, .refl _⟩

theorem Aside.trans {u : Server} (h : Aside s t) (h' : Aside t u) : Aside s u :=
  ⟨h'.hub.trans h.hub, h'.intel.trans h.intel⟩

theorem aside_destroy (side) (error : Bool) : Aside s (s.destroy i side error) := by
  unfold Server.destroy
  split <;> exact ⟨rfl, rfl⟩

theorem aside_autoDestroy (side) : Aside s (s.autoDestroy i side) := by
  simp only [Server.autoDestroy]
  split
  · exact aside_destroy ..
  · exact .rfl

theorem aside_dropStream (side) : Aside s (s.dropStream x i side) := by
  unfold Server.dropStream
  split
  · exact aside_destroy ..
  · exact .rfl

theorem aside_dropAll : Aside s (s.dropAll x) := by
  unfold Server.dropAll
  generalize List.range s.nextRelay = l
  induction l generalizing s with
  | nil => exact .rfl
  | cons i l ih => exact ((aside_dropStream _).trans (aside_dropStream _)).trans ih

theorem aside_announce (event : Announcement) : Aside s (s.announce i event) := ⟨rfl, rfl⟩

theorem aside_opened : Aside s (s.opened i) := by
  unfold Server.opened
  split
  · exact .rfl
  · exact ⟨rfl, rfl⟩

theorem aside_finish (cause : String) : Aside s (s.finish i cause) := by
  simp only [Server.finish]
  split
  · exact ⟨rfl, rfl⟩
  · refine Aside.trans ?_ (aside_announce _)
    refine Aside.trans ?_ aside_opened
    exact ⟨rfl, rfl⟩

theorem aside_onClose (side) : Aside s (s.onClose i side) := by
  cases side <;> exact (aside_finish _).trans (aside_destroy ..)

theorem aside_onError {side} (h : s.onError i side = some t) : Aside s t := by
  cases side with
  | joiner => cases h; exact (aside_finish _).trans (aside_destroy ..)
  | owner =>
    obtain ⟨y, -, rfl⟩ := Option.map_eq_some_iff.mp h
    exact (aside_finish _).trans (aside_destroy ..)

theorem aside_run (tick : Tick) : Aside s (s.run tick) := by
  unfold Server.run
  split
  · split
    · exact .rfl
    · next u hu => exact (aside_onError hu).trans (aside_onClose _)
  · exact aside_onClose _

theorem aside_onOpen (protocol client details : String) :
    Aside s (s.onOpen x protocol client details) := by
  unfold Server.onOpen
  split
  · exact ⟨rfl, rfl⟩
  · exact .rfl

theorem aside_observe {direction} {length : Nat} {found : Option String} :
    Aside s (s.observe i direction length found) := by
  simp only [Server.observe]
  split
  · refine Aside.trans ?_ aside_opened
    exact ⟨rfl, rfl⟩
  · exact ⟨rfl, rfl⟩

theorem aside_logStep {event} (h : logStep s event = some t) : Aside s t := by
  unfold logStep at h
  split at h
  · cases h
  · cases h
  · cases h
  · obtain ⟨log, -, rfl⟩ := Option.map_eq_some_iff.mp h
    exact ⟨rfl, rfl⟩

/-- A step that is not the registry's and learns nothing about an address. -/
theorem aside_step {e : Event} (hs : step s e = some t) (hh : ∀ event, e ≠ .hub event)
    (hi : ∀ intel, e ≠ .refresh intel) : Aside s t := by
  unfold step at hs
  split at hs
  · split at hs
    · cases hs
      refine Aside.trans ?_ (aside_run _)
      exact ⟨rfl, rfl⟩
    · cases hs
  · cases e with
    | tick => cases hs
    | hub event => exact absurd rfl (hh event)
    | refresh intel => exact absurd rfl (hi intel)
    | log event => exact aside_logStep hs
    | opens x protocol client details =>
      rw [handle, Option.ite_none_right_eq_some] at hs
      obtain ⟨-, hs⟩ := hs
      cases hs
      exact aside_onOpen ..
    | fails i side =>
      rw [handle, Option.ite_none_right_eq_some] at hs
      obtain ⟨-, hs⟩ := hs
      cases hs
      exact aside_destroy ..
    | closes i side =>
      rw [handle, Option.ite_none_right_eq_some] at hs
      obtain ⟨-, hs⟩ := hs
      cases hs
      exact ⟨rfl, rfl⟩
    | reads i side =>
      simp only [handle, Option.ite_none_right_eq_some] at hs
      obtain ⟨-, hs⟩ := hs
      cases hs
      refine Aside.trans ?_ (aside_autoDestroy _)
      exact ⟨rfl, rfl⟩
    | finishes i side =>
      simp only [handle, Option.ite_none_right_eq_some] at hs
      obtain ⟨-, hs⟩ := hs
      cases hs
      refine Aside.trans ?_ (aside_autoDestroy _)
      exact ⟨rfl, rfl⟩
    | data i direction length found =>
      rw [handle, Option.ite_none_right_eq_some] at hs
      obtain ⟨-, hs⟩ := hs
      cases hs
      exact aside_observe
    | announceTimer i =>
      rw [handle, Option.ite_none_right_eq_some] at hs
      obtain ⟨-, hs⟩ := hs
      cases hs
      exact aside_opened

/-- What the registry's part of an event is. -/
theorem hubStep_cases {event} (h : hubStep s event = some t) :
    Registry.System.step s.hub event = some t.hub ∧ t.intel = s.intel ∧
      ∀ x code intel, event = .join x code intel → intel = s.intel (s.hub.sessions x).ip := by
  unfold hubStep at h
  split at h
  · next x code intel =>
    rw [Option.ite_none_right_eq_some] at h
    obtain ⟨hi, h⟩ := h
    obtain ⟨hub, hs, rfl⟩ := Option.map_eq_some_iff.mp h
    exact ⟨hs, rfl, fun y c i he => by cases he; exact hi⟩
  · next x =>
    obtain ⟨hub, hs, rfl⟩ := Option.map_eq_some_iff.mp h
    have ha := aside_dropAll (s := s) (x := x)
    exact ⟨ha.hub ▸ hs, ha.intel, fun _ _ _ he => by cases he⟩
  · next hj _ =>
    obtain ⟨hub, hs, rfl⟩ := Option.map_eq_some_iff.mp h
    exact ⟨hs, rfl, fun x c i he => absurd he (hj x c i)⟩

theorem hub_step {e : Event} (hs : step s e = some t) :
    t.hub = s.hub ∨ ∃ event, e = .hub event ∧ hubStep s event = some t := by
  by_cases hh : ∃ event, e = .hub event
  · obtain ⟨event, rfl⟩ := hh
    unfold step at hs
    split at hs
    · cases hs
    · exact .inr ⟨event, rfl, hs⟩
  · by_cases hi : ∃ intel, e = .refresh intel
    · obtain ⟨intel, rfl⟩ := hi
      unfold step at hs
      split at hs <;> cases hs
      exact .inl rfl
    · refine .inl (aside_step hs (fun event he => ?_) fun intel he => ?_).hub
      · exact hh ⟨event, he⟩
      · exact hi ⟨intel, he⟩

theorem hub_reachable (h : machine.Reachable s) : Registry.System.Reachable s.hub := by
  refine Machine.Reaches.invariant (I := fun s => Registry.System.Reachable s.hub) h ?_ ?_
  · rintro _ ⟨config, intel, now, rfl⟩
    exact .init ⟨config, rfl⟩
  · intro s t e ih _ hs
    rcases hub_step hs with heq | ⟨event, -, hst⟩
    · exact heq ▸ ih
    · exact ih.step (hubStep_cases hst).1

/-! ## Who is admitted -/

/-- The rules of the tunnel let the address of the session through. -/
def Admitted (s : Server) (x : SessionRef) (r : TunnelRef) : Prop :=
  evaluate (s.hub.heap r).policy (s.hub.sessions x).ip (s.intel (s.hub.sessions x).ip) = none

/-- A session that has joined a tunnel and is still connected. -/
def Attached (s : Server) (x : SessionRef) (r : TunnelRef) : Prop :=
  joinedTo s.hub x = some r ∧ (s.hub.sessions x).closed = false

/-- The rules of a tunnel, or what is known about an address, are not what they were. -/
def Rejudges (s t : Server) (x : SessionRef) (r : TunnelRef) : Prop :=
  (t.hub.heap r).policy ≠ (s.hub.heap r).policy ∨
    t.intel (s.hub.sessions x).ip ≠ s.intel (s.hub.sessions x).ip

/-- A change of the rules, or of what is known about an address, admits who has joined. -/
def Spares (s : Server) (e : Event) : Prop :=
  ∀ t, step s e = some t → ∀ x r, Attached s x r → Attached t x r → Rejudges s t x r →
    Admitted s x r → Admitted t x r

/-- What a step does to a session that has joined a tunnel when it is over. -/
theorem attached_step {e : Event} (hs : step s e = some t) (ha : Attached t x r) :
    (t.hub.sessions x).ip = (s.hub.sessions x).ip ∧
      (Attached s x r ∨ Admitted s x r ∧ ¬ Rejudges s t x r) := by
  rcases hub_step hs with hhub | ⟨event, rfl, hst⟩
  · exact ⟨by rw [hhub], .inl (by simpa only [Attached, hhub] using ha)⟩
  · obtain ⟨hst, hi, hj⟩ := hubStep_cases hst
    have haft := after_of_joined hst ha.1
    have hopen : (s.hub.sessions x).closed = false := by
      rcases haft.closed with hc | ⟨-, hc⟩
      · exact hc ▸ ha.2
      · exact absurd (hc.symm.trans ha.2) (by simp)
    refine ⟨haft.ip, (haft.joined r ha.1).imp (fun hj => ⟨hj, hopen⟩) ?_⟩
    rintro ⟨code, intel, rfl, hby⟩
    have hadm := joinedBy_admits hby
    rw [hj x code intel rfl] at hadm
    exact ⟨hadm, fun hr => hr.elim (· (join_policy hst r)) (· (congrFun hi _))⟩

theorem admitted_of_not_rejudges (hip : (t.hub.sessions x).ip = (s.hub.sessions x).ip)
    (hr : ¬ Rejudges s t x r) (ha : Admitted s x r) : Admitted t x r := by
  obtain ⟨hp, hi⟩ := not_or.mp hr
  rw [Admitted, hip, not_not.mp hp, not_not.mp hi]
  exact ha

/-- In a run in which every change of the rules, and of what is known about an address, admits
who has joined, whoever has joined is admitted. -/
theorem attached_admitted (h : machine.Reaches Spares s) : ∀ x r, Attached s x r → Admitted s x r := by
  refine Machine.Reaches.invariant (I := fun s => ∀ x r, Attached s x r → Admitted s x r) h ?_ ?_
  · rintro _ ⟨config, intel, now, rfl⟩ x r ⟨hj, -⟩
    cases hj
  · intro s t e ih hok hs x r ha
    obtain ⟨hip, hbefore⟩ := attached_step hs ha
    by_cases hr : Rejudges s t x r
    · obtain hbefore := hbefore.resolve_right fun h => h.2 hr
      exact hok t hs x r hbefore ha hr (ih x r hbefore)
    · exact admitted_of_not_rejudges hip hr (hbefore.elim (ih x r) And.left)

theorem attached_of_target (hc : (s.hub.sessions x).closed = false)
    (ht : s.target x = some (r, y)) : Attached s x r := by
  obtain ⟨r', hj, ht⟩ := Option.bind_eq_some_iff.mp ht
  rw [Option.ite_none_right_eq_some] at ht
  obtain ⟨y', -, he⟩ := Option.map_eq_some_iff.mp ht.2
  cases he
  exact ⟨hj, hc⟩

/-- A stream to the owner is opened for nobody whose address the rules turn away, in every run
in which no change of the rules or of what is known turns away a session that has joined; and
the first change that does leaves a session whose streams reach an owner that is online. -/
theorem streams_admitted (s : Server) :
    (machine.Reaches Spares s → ∀ x r y, (s.hub.sessions x).closed = false →
      s.target x = some (r, y) →
      evaluate (s.hub.heap r).policy (s.hub.sessions x).ip (s.intel (s.hub.sessions x).ip) = none) ∧
    ∀ e t, step s e = some t → ¬ Spares s e → ∃ x r, (t.hub.sessions x).closed = false ∧
      evaluate (t.hub.heap r).policy (t.hub.sessions x).ip (t.intel (t.hub.sessions x).ip) ≠ none ∧
      (t.hub.online r = true → ∃ y, t.target x = some (r, y)) := by
  refine ⟨fun h x r y hc ht => attached_admitted h x r (attached_of_target hc ht), ?_⟩
  intro e t hs hok
  simp only [Spares, not_forall] at hok
  obtain ⟨u, hu, x, r, -, ha, -, -, hn⟩ := hok
  obtain rfl : t = u := Option.some.inj (hs.symm.trans hu)
  refine ⟨x, r, ha.2, hn, fun ho => ?_⟩
  cases hsess : (t.hub.heap r).session with
  | none => simp [Hub.online, hsess] at ho
  | some y =>
    refine ⟨y, ?_⟩
    rw [Server.target, ha.1, Option.bind_some, if_pos ho, hsess]
    rfl

/-! ## A run -/

/-- The events of the registry, one after the other. -/
def hubEvents (events : List Registry.System.Event) : List Event := events.map .hub

/-- Alice opens a tcp tunnel `web`, and a session from elsewhere joins it. -/
def joining : List Event := hubEvents [
  .connect "192.0.2.1", .hello 0 (.ok (.owner Registry.System.alice)),
  .register 0 { mode := "tcp", target := some "25565", name := some "web" }
    (Registry.System.drawn "t"),
  .proceed 0 (.limit 0) (Registry.System.drawn "t"),
  .proceed 0 (.limit 0) (Registry.System.drawn "t"),
  .proceed 0 (.definition none) (Registry.System.drawn "t"), .reply 0,
  .connect "203.0.113.9", .hello 1 (.ok .joiner),
  .join 1 (some ("web" ++ String.ofList (Registry.System.drawn "t").secret.1)) {}]

/-- The web UI lets nobody in but a private range. -/
def restricting : Event :=
  .hub (.updateAccess "web" { allowIps := some (.text "10.0.0.0/8") } "")

def start : Server := { log := { now := 1 } }

theorem start_init : machine.init start := ⟨{}, fun _ => {}, 1, rfl⟩

theorem streams_admitted_joining : ∃ s, machine.exec start joining = some s ∧
    s.target 1 = some (0, 0) ∧
    evaluate (s.hub.heap 0).policy (s.hub.sessions 1).ip (s.intel (s.hub.sessions 1).ip) = none := by
  have h : ((machine.exec start joining).map fun s => (s.target 1, s.isClosed 1)) =
      some (some (0, 0), false) := by decide
  obtain ⟨s, he, h⟩ := Option.map_eq_some_iff.mp h
  simp only [Prod.mk.injEq] at h
  -- nobody has joined before the last event
  have hok : ∀ s e, machine.Reachable s → (∀ x < s.hub.nextSession, joinedTo s.hub x = none) →
      Spares s e := by
    intro s e hr hn t _ x r ha
    have hlt := joinedTo_lt (hub_reachable hr) x r ha.1
    exact absurd (ha.1.symm.trans (hn x hlt)) (Option.some_ne_none r)
  have ha : machine.Allowed (fun s _ => ∀ x < s.hub.nextSession, joinedTo s.hub x = none) start
      joining := by decide
  have hrun : machine.Reaches Spares s :=
    Machine.Reaches.exec_of (.init start_init) joining hok ha he
  exact ⟨s, he, h.1, (streams_admitted s).1 hrun 1 0 0 h.2 h.1⟩

theorem not_always_admitted : ¬ ∀ s, machine.Reachable s → ∀ x r y,
    (s.hub.sessions x).closed = false → s.target x = some (r, y) →
    evaluate (s.hub.heap r).policy (s.hub.sessions x).ip (s.intel (s.hub.sessions x).ip) = none := by
  intro hall
  have h : ((machine.exec start (joining ++ [restricting])).map fun s =>
      (s.target 1, s.isClosed 1, evaluate (s.hub.heap 0).policy (s.hub.sessions 1).ip
        (s.intel (s.hub.sessions 1).ip))) = some (some (0, 0), false, some .address) := by
    decide +kernel
  obtain ⟨s, he, h⟩ := Option.map_eq_some_iff.mp h
  simp only [Prod.mk.injEq] at h
  have hr : machine.Reachable s := (Machine.Reachable.init start_init).exec _ he
  have := hall s hr 1 0 0 h.2.1 h.1
  rw [h.2.2] at this
  cases this

end Tunlit.Control.Rules
