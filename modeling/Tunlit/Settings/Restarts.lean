import Tunlit.Settings.Updates

/-! # A restart changes no setting

The live configuration is what is loaded of the stored settings, with those that are still
to be written laid over them. When no call waits, nothing is still to be written. -/
namespace Tunlit.Settings.Restarts
open Tunlit.Lib.Runs Tunlit.Lib.Turns
open Tunlit.Settings.Layers Tunlit.Settings.Readings Tunlit.Settings.Reload Tunlit.Settings.Updates

variable {numeral : ℚ → String} {base : Live} {s : State} {w : World}
  {body : Key → Option Value} {i : Nat} {turns : List (World × World)}

/-! ## Turns -/

/-- A call is refused, or it lays its settings over the live ones and begins to write. -/
theorem updateSettings_cases (numeral : ℚ → String) (w : World) (body : Key → Option Value) :
    (∃ message, updateSettings numeral w body = (w, .ended (.refused message))) ∨
    ∃ live entry rest, applySettings numeral w.live (pickSettings numeral body) = .ok live ∧
      pickSettings numeral body = entry :: rest ∧
      updateSettings numeral w body =
        ({ w with live }, .waits (.finding (w.stored entry.1).isSome entry rest)) := by
  unfold updateSettings
  cases hp : pickSettings numeral body with
  | nil => exact .inl ⟨_, rfl⟩
  | cons entry rest =>
    dsimp only [List.isEmpty_cons]
    rw [if_neg Bool.false_ne_true]
    cases ha : applySettings numeral w.live (entry :: rest) with
    | error message => exact .inl ⟨message, rfl⟩
    | ok live => exact .inr ⟨live, entry, rest, rfl, rfl, rfl⟩

/-- A call that finds what it was told stores its setting. -/
theorem resume_finding {found : Bool} {entry : Key × Value} {rest : Entries}
    (hf : found = (w.stored entry.1).isSome) :
    (handlers numeral).resume w (.finding found entry rest) () =
      ({ w with stored := put w.stored entry }, .waits (.storing true rest)) := by
  subst hf
  simp only [handlers]
  cases hs : (w.stored entry.1).isSome <;> simp [Writing.resume, hs, World.writes]

/-- A call that has stored a setting looks up the next one, or it is done. -/
theorem writes_cases (w : World) (rest : Entries) :
    (rest = [] ∧ w.writes (write w.stored rest) = (w, .ended (.settings (getSettings w.live)))) ∨
    ∃ entry rest', rest = entry :: rest' ∧ w.writes (write w.stored rest) =
      (w, .waits (.finding (w.stored entry.1).isSome entry rest')) := by
  cases rest with
  | nil => exact .inl ⟨rfl, rfl⟩
  | cons entry rest' => exact .inr ⟨entry, rest', rfl, rfl⟩

theorem resume_storing {rest : Entries} :
    (handlers numeral).resume w (.storing true rest) () = w.writes (write w.stored rest) := rfl

theorem writes_world {rest : Entries} : (w.writes (write w.stored rest)).1 = w := by
  rcases writes_cases w rest with ⟨-, ht⟩ | ⟨entry, rest', -, ht⟩
  · rw [ht]
  · rw [ht]

theorem writes_owed {rest : Entries} : owedOf (w.writes (write w.stored rest)).2 = rest := by
  rcases writes_cases w rest with ⟨rfl, ht⟩ | ⟨entry, rest', rfl, ht⟩
  · rw [ht]
    rfl
  · rw [ht]
    rfl

/-- A call that waits behind a stored setting has just looked up the next one. -/
theorem writes_waits {rest : Entries} {point : Writing}
    (h : (w.writes (write w.stored rest)).2 = .waits point) :
    ∃ entry rest', point = .finding (w.stored entry.1).isSome entry rest' := by
  rcases writes_cases w rest with ⟨-, ht⟩ | ⟨entry, rest', -, ht⟩
  · rw [ht] at h
    cases h
  · rw [ht] at h
    cases h
    exact ⟨entry, rest', rfl⟩

/-! ## The invariant -/

/-- A call has not failed, and one that was refused has changed nothing. -/
def Clean (call : Call World Writing Answer) : Prop :=
  call.stage ≠ .ended .failed ∧
    ∀ message, call.stage = .ended (.refused message) → ∀ turn ∈ call.turns, turn.2 = turn.1

structure Inv (numeral : ℚ → String) (base : Live) (s : State) : Prop where
  loaded : Loaded numeral base (latest s) s.world.live
  apart : ((owed s).map Prod.fst).Nodup
  found : ∀ i found entry rest, s.pointOf i = some (.finding found entry rest) →
    found = (s.world.stored entry.1).isSome
  stores : ∀ i rest, s.pointOf i ≠ some (.storing false rest)
  clean : Each (fun _ => True) (fun _ call => Clean call) s

theorem clean_of_waits {point : Writing} : Clean ⟨turns, .waits point⟩ :=
  ⟨nofun, nofun⟩

theorem apart_of_nodup {entry other : Key × Value} {before behind : Entries}
    (h : ((before ++ entry :: behind).map Prod.fst).Nodup) (hm : other ∈ before ++ behind) :
    other.1 ≠ entry.1 := by
  rw [List.map_append, List.map_cons, List.perm_middle.nodup_iff, List.nodup_cons,
    ← List.map_append] at h
  exact fun he => h.1 (he ▸ List.mem_map_of_mem hm)

theorem Inv.begins (h : Inv numeral base s) (hok : Careful numeral base s body) :
    Inv numeral base (s.begins (updateSettings numeral s.world body)) := by
  obtain ⟨message, ht⟩ | ⟨live, entry, rest, happly, hpick, ht⟩ :=
    updateSettings_cases numeral s.world body
  · -- nothing is owed and nothing has changed
    have howed : owed (s.begins (updateSettings numeral s.world body)) = owed s := by
      rw [owed_begins, ht]
      exact List.append_nil _
    rw [ht] at howed ⊢
    refine ⟨?_, howed ▸ h.apart, fun k found entry rest hp => ?_, fun k rest hp => ?_, ?_⟩
    · rw [latest, howed]
      exact h.loaded
    · rcases System.pointOf_begins hp with hp | hp
      · exact h.found k found entry rest hp
      · cases hp
    · rcases System.pointOf_begins hp with hp | hp
      · exact h.stores k rest hp
      · cases hp
    · refine .begins trivial ⟨nofun, fun _ _ turn hm => ?_⟩ fun i call hi => h.clean.calls i call hi
      rw [List.mem_singleton.mp hm]
  · obtain ⟨hsettings, htrust⟩ := hok.of_accepted happly
    have howed : owed (s.begins (updateSettings numeral s.world body)) =
        owed s ++ pickSettings numeral body := by
      rw [owed_begins, ht, hpick]
      rfl
    rw [ht] at howed ⊢
    refine ⟨?_, ?_, fun k found other rest hp => ?_, fun k rest hp => ?_, ?_⟩
    · rw [latest, howed, laid_append fun entry he => (hsettings entry he).1]
      exact h.loaded.apply rfl (fun entry he => (hsettings entry he).2)
        (unpinned_congr h.loaded.pinned ▸ htrust) happly
    · rw [howed, List.map_append]
      refine List.nodup_append.mpr ⟨h.apart, pickSettings_keys, ?_⟩
      rintro key hk _ hk' rfl
      obtain ⟨entry, he, rfl⟩ := List.mem_map.mp hk'
      exact (hsettings entry he).1 hk
    · rcases System.pointOf_begins hp with hp | hp
      · exact h.found k found other rest hp
      · cases hp
        rfl
    · rcases System.pointOf_begins hp with hp | hp
      · exact h.stores k rest hp
      · cases hp
    · exact .begins trivial clean_of_waits fun i call hi => h.clean.calls i call hi

theorem clean_writes {rest : Entries} : Clean ⟨turns, (w.writes (write w.stored rest)).2⟩ := by
  rcases writes_cases w rest with ⟨-, ht⟩ | ⟨entry, rest', -, ht⟩
  · rw [ht]
    exact ⟨nofun, nofun⟩
  · rw [ht]
    exact clean_of_waits

/-- A call that has stored a setting goes on. -/
theorem Inv.goesOn_storing {rest : Entries} (h : Inv numeral base s)
    (hc : s.calls[i]? = some ⟨turns, .waits (.storing true rest)⟩) :
    Inv numeral base (s.goesOn i turns (s.world.writes (write s.world.stored rest))) := by
  obtain ⟨before, behind, howed, howed', -⟩ := owed_goesOn hc
  have hkept : owed (s.goesOn i turns (s.world.writes (write s.world.stored rest))) = owed s := by
    rw [howed, howed', writes_owed]
    rfl
  refine ⟨?_, hkept ▸ h.apart, fun k found entry rest' hp => ?_, fun k rest' hp => ?_, ?_⟩
  · rw [latest, hkept, System.goesOn, writes_world]
    exact h.loaded
  · rw [System.goesOn, writes_world]
    rcases System.pointOf_goesOn hp with ⟨-, hp⟩ | ⟨-, hp⟩
    · exact h.found k found entry rest' hp
    · obtain ⟨_, _, hpoint⟩ := writes_waits hp
      cases hpoint
      rfl
  · rcases System.pointOf_goesOn hp with ⟨-, hp⟩ | ⟨-, hp⟩
    · exact h.stores k rest' hp
    · obtain ⟨_, _, hpoint⟩ := writes_waits hp
      cases hpoint
  · exact .goesOn trivial clean_writes fun k call _ hk => h.clean.calls k call hk

/-- A call stores the setting it has looked up. -/
theorem Inv.goesOn_finding {entry : Key × Value} {rest : Entries} {found : Bool}
    (h : Inv numeral base s) (hc : s.calls[i]? = some ⟨turns, .waits (.finding found entry rest)⟩) :
    Inv numeral base (s.goesOn i turns ({ s.world with stored := put s.world.stored entry },
      .waits (.storing true rest))) := by
  obtain ⟨before, behind, howed, howed', hothers⟩ := owed_goesOn hc
  have happart := h.apart
  have hlaid := h.loaded
  rw [howed, List.append_assoc] at happart
  rw [latest, howed, List.append_assoc] at hlaid
  have hkept := howed' ({ s.world with stored := put s.world.stored entry },
    .waits (.storing true rest))
  rw [List.append_assoc] at hkept
  refine ⟨?_, ?_, fun k found' other rest' hp => ?_, fun k rest' hp => ?_, ?_⟩
  · rw [latest, hkept]
    exact (laid_put happart).symm ▸ hlaid
  · rw [hkept]
    exact happart.sublist ((List.sublist_cons_self _ _).append_left _ |>.map _)
  · rcases System.pointOf_goesOn hp with ⟨hki, hp⟩ | ⟨-, hp⟩
    · have hm := hothers k _ hki hp other List.mem_cons_self
      have hne : other.1 ≠ entry.1 := apart_of_nodup happart
        ((List.mem_append.mp hm).elim (List.mem_append_left _) fun hm =>
          List.mem_append_right _ (List.mem_append_right _ hm))
      rw [h.found k found' other rest' hp]
      simp [System.goesOn, put, hne]
    · cases hp
  · rcases System.pointOf_goesOn hp with ⟨-, hp⟩ | ⟨-, hp⟩
    · exact h.stores k rest' hp
    · cases hp
  · exact .goesOn trivial clean_of_waits fun k call _ hk => h.clean.calls k call hk

theorem Inv.goesOn {point : Writing} (h : Inv numeral base s)
    (hc : s.calls[i]? = some ⟨turns, .waits point⟩) :
    Inv numeral base (s.goesOn i turns ((handlers numeral).resume s.world point ())) := by
  cases point with
  | finding found entry rest =>
    rw [resume_finding (h.found i found entry rest (System.pointOf_of_call hc))]
    exact h.goesOn_finding hc
  | storing done rest =>
    cases done with
    | true => exact h.goesOn_storing hc
    | false => exact absurd (System.pointOf_of_call hc) (h.stores i rest)

theorem Inv.of_init (hcalls : s.calls = [])
    (hloaded : applyStored numeral base s.world.stored = .ok s.world.live) :
    Inv numeral base s := by
  obtain ⟨world, calls⟩ := s
  subst hcalls
  have hpoint : ∀ i point, System.pointOf (⟨world, []⟩ : State) i ≠ some point := nofun
  exact ⟨loaded_of_applyStored hloaded, List.nodup_nil, fun i _ _ _ hp => absurd hp (hpoint i _),
    fun i _ => hpoint i _, trivial, nofun⟩

theorem Inv.of_reaches (h : (machine numeral base).Reaches (ok numeral base) s) :
    Inv numeral base s := by
  refine h.invariant (fun s h0 => Inv.of_init h0.1 h0.2) fun s t e hs hok hst => ?_
  rcases Handlers.step_cases hst with ⟨body, rfl, rfl⟩ | ⟨i, _, turns, point, rfl, hc, rfl⟩
  · exact hs.begins hok
  · exact hs.goesOn hc

/-! ## Restarts -/

theorem owed_of_idle (h : s.Idle) : owed s = [] := by
  refine List.flatMap_eq_nil_iff.mpr fun call hm => ?_
  have hended := h call hm
  obtain ⟨turns, stage⟩ := call
  cases stage with
  | waits point => cases hended
  | ended answer => rfl

/-- When the calls are careful, what is live with no call waiting is what a restart loads,
and a call that is answered with an error changes nothing. -/
theorem restarts_of_careful (numeral : ℚ → String) (env : String → Option String) (file : File)
    (base : Live) (hbase : loadConfig numeral env file = .ok base) (s : State)
    (h : (machine numeral base).Reaches (ok numeral base) s) :
    (s.Idle → ((loadConfig numeral env file).bind fun base =>
      (applyStored numeral base s.world.stored).map Live.config) = .ok s.world.live.config) ∧
    ∀ call ∈ s.calls, ∀ answer, call.stage = .ended answer → answer.isError = true →
      ∀ turn ∈ call.turns, turn.2 = turn.1 := by
  have hinv := Inv.of_reaches h
  refine ⟨fun hidle => ?_, fun call hm answer hstage herror => ?_⟩
  · have hloaded := hinv.loaded
    rw [latest, owed_of_idle hidle, laid_nil] at hloaded
    rw [hbase, Except.bind]
    exact hloaded.applyStored
  · obtain ⟨i, hi⟩ := List.mem_iff_getElem?.mp hm
    obtain ⟨hfailed, hrefused⟩ := hinv.clean.calls i call hi
    cases answer with
    | settings report => cases herror
    | refused message => exact hrefused message hstage
    | failed => exact absurd hstage hfailed

/-! ## Runs -/

theorem ok_of_toOption {ε α : Type} {x : Except ε α} {a : α} (h : x.toOption = some a) :
    x = .ok a := by
  cases x with
  | error e => cases h
  | ok b => exact congrArg Except.ok (Option.some.inj h)

/-- A run from a configuration that was loaded, with no setting stored. -/
theorem exists_run (numeral : ℚ → String) (env : String → Option String) (file : File)
    (es : List (Event (Key → Option Value) Unit)) (p : Live → Live → State → Bool)
    (h : (loadConfig numeral env file).toOption.any (fun base =>
      (applyStored numeral base fun _ => none).toOption.any fun live =>
        ((machine numeral base).exec ⟨⟨live, fun _ => none⟩, []⟩ es).any (p base live)) = true) :
    ∃ base live s, loadConfig numeral env file = .ok base ∧
      (machine numeral base).init ⟨⟨live, fun _ => none⟩, []⟩ ∧
      (machine numeral base).exec ⟨⟨live, fun _ => none⟩, []⟩ es = some s ∧
      p base live s = true := by
  obtain ⟨base, hbase, h⟩ := (Option.any_eq_true _ _).mp h
  obtain ⟨live, hlive, h⟩ := (Option.any_eq_true _ _).mp h
  obtain ⟨s, hs, h⟩ := (Option.any_eq_true _ _).mp h
  exact ⟨base, live, s, ok_of_toOption hbase, ⟨rfl, ok_of_toOption hlive⟩, hs, h⟩

/-- A call sets the public URL and the grace period. -/
def urlGiven : Key → Option Value
  | .publicUrl => some (.text "https://a.b/")
  | .gracePeriod => some (.number (.finite 45))
  | _ => none

theorem restarts_after : ∃ s : State, s.world.live.config.publicUrl = "https://a.b" ∧
    ((loadConfig (fun _ => "") (fun _ => none) .absent).bind fun base =>
      (applyStored (fun _ => "") base s.world.stored).map Live.config) =
        .ok s.world.live.config := by
  let es : List (Event (Key → Option Value) Unit) :=
    .call urlGiven :: List.replicate 4 (.resume 0 ())
  obtain ⟨base, live, s, hbase, hinit, hexec, hp⟩ := exists_run (fun _ => "") (fun _ => none)
    .absent es (fun base live s => decide (s.Idle ∧ s.world.live.config.publicUrl = "https://a.b" ∧
      (machine (fun _ => "") base).Allowed (ok (fun _ => "") base) ⟨⟨live, fun _ => none⟩, []⟩ es))
    (by decide)
  obtain ⟨hidle, hurl, hallowed⟩ := of_decide_eq_true hp
  have hreach := (Machine.Reaches.init hinit).exec es hallowed hexec
  exact ⟨s, hurl, (restarts_of_careful (fun _ => "") (fun _ => none) .absent base hbase s hreach).1
    hidle⟩

/-- A blank mode in place of the one of the environment. -/
def blankMode : Key → Option Value
  | .httpMode => some (.text "")
  | _ => none

/-- The environment sets the mode `path`; a blank one makes it the default, until the next
start. -/
theorem not_always_restarts : ¬ ∀ (numeral : ℚ → String) (env : String → Option String)
    (file : File) (base : Live), loadConfig numeral env file = .ok base →
    ∀ s, (machine numeral base).Reachable s →
    (s.Idle → ((loadConfig numeral env file).bind fun base =>
      (applyStored numeral base s.world.stored).map Live.config) = .ok s.world.live.config) ∧
    ∀ call ∈ s.calls, ∀ answer, call.stage = .ended answer → answer.isError = true →
      ∀ turn ∈ call.turns, turn.2 = turn.1 := by
  intro h
  obtain ⟨base, live, s, hbase, hinit, hexec, hp⟩ := exists_run (fun _ => "")
    (fun name => if name = "TUNLIT_HTTP_MODE" then some "path" else none) .absent
    [.call blankMode, .resume 0 (), .resume 0 ()]
    (fun base _ s => decide (s.Idle ∧ s.world.live.config.httpMode = "subdomain" ∧
      ((applyStored (fun _ => "") base s.world.stored).toOption.map (·.config.httpMode)) =
        some "path"))
    (by decide)
  obtain ⟨hidle, hlive, hloaded⟩ := of_decide_eq_true hp
  have hreach := (Machine.Reachable.init hinit).exec _ hexec
  have heq := (h _ _ _ base hbase s hreach).1 hidle
  rw [hbase, Except.bind] at heq
  cases happly : applyStored (fun _ => "") base s.world.stored with
  | error message =>
    rw [happly] at hloaded
    cases hloaded
  | ok loaded =>
    rw [happly] at heq hloaded
    have hconfig : loaded.config = s.world.live.config := Except.ok.inj heq
    have hpath : loaded.config.httpMode = "path" := Option.some.inj hloaded
    rw [hconfig, hlive] at hpath
    exact absurd hpath (by decide)

end Tunlit.Settings.Restarts
