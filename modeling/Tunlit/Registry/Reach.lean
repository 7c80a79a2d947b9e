import Tunlit.Registry.Steps

/-! # What every reachable hub keeps

The table of leases is sound, sessions to come are as new, and a call that waits for a
policy to be saved holds a tunnel that exists. -/
namespace Tunlit.Registry.Reach
open Function Tunlit.Lib.Leases Tunlit.Lib.Runs Tunlit.Registry.State Tunlit.Registry.Register
  Tunlit.Registry.System Tunlit.Registry.Leases Tunlit.Registry.Steps

/-- The tunnel that a call holds while its policy is saved. -/
def heldBy : Point → Option TunnelRef
  | .resumeSaved r => some r
  | .policySaved r => some r
  | _ => none

structure Basic (hub : Hub) : Prop where
  unused : Unused hub
  sound : (leases hub).Sound
  held : ∀ x p r, pointOf hub x = some p → heldBy p = some r → (leases hub).known r = true
  -- a new tunnel whose policy is being saved is the call's own, and not registered
  apart : ∀ x y r, pointOf hub x = some (.policySaved r) → pointOf hub y = some (.policySaved r) →
    x = y
  unborn : ∀ x r n, pointOf hub x = some (.policySaved r) → (leases hub).slot n ≠ some r
  called : ∀ x p, pointOf hub x = some p → x < hub.nextSession

variable {hub hub' : Hub} {x : SessionRef} {e : Event}

theorem leases_init (config : Config) : leases { config := config } =
    { slot := fun _ => none, name := fun _ => "", known := fun _ => false, holder := fun _ => none,
      timer := fun _ => none, deadline := fun _ => none, gone := fun _ => false,
      hears := fun _ => [], timers := [], nextTimer := 0 } := rfl

theorem nextSession_le (he : Effect hub e hub') : hub.nextSession ≤ hub'.nextSession := by
  cases he with
  | turn _ ht => exact ht.nextSession.ge
  | loses _ hn _ _ _ => exact hn.ge
  | fires hn _ _ _ => exact hn.ge
  | releases hn _ _ _ => exact hn.ge
  | other hq => exact hq.nextSession

theorem basic_init (config : Config) : Basic { config := config } where
  unused := fun _ _ => ⟨rfl, rfl⟩
  sound := by
    rw [leases_init]
    constructor <;> simp
  held := fun _ _ _ h => by cases h
  apart := fun _ _ _ h => by cases h
  unborn := fun _ _ _ h => by cases h
  called := fun _ _ h => by cases h

/-! ## Ears and existence -/

section
variable {T : Table String TunnelRef SessionRef} {r : TunnelRef} {y : SessionRef} {d : Option Nat}

theorem notify_ears : (T.notify x d r).gone = T.gone ∧ (T.notify x d r).hears = T.hears := by
  unfold Table.notify
  split
  · exact ⟨rfl, rfl⟩
  · cases d <;> exact ⟨rfl, rfl⟩

theorem notifyAll_ears (l : List TunnelRef) :
    (l.foldl (fun T r => T.notify x d r) T).gone = T.gone ∧
      (l.foldl (fun T r => T.notify x d r) T).hears = T.hears := by
  induction l generalizing T with
  | nil => exact ⟨rfl, rfl⟩
  | cons r l ih =>
    have h := @ih (T.notify x d r)
    rw [notify_ears.1, notify_ears.2] at h
    exact h

theorem notifyAll_known (l : List TunnelRef) :
    (l.foldl (fun T r => T.notify x d r) T).known = T.known := by
  induction l generalizing T with
  | nil => rfl
  | cons r l ih => exact (@ih (T.notify x d r)).trans Table.notify_known

theorem releaseAll_ears (names : List String) :
    (T.releaseAll names).gone = T.gone ∧ (T.releaseAll names).hears = T.hears ∧
      (T.releaseAll names).known = T.known := by
  induction names generalizing T with
  | nil => exact ⟨rfl, rfl, rfl⟩
  | cons n names ih => exact @ih (T.release n)

/-- A session that nothing attaches hears of nothing new. -/
theorem attach_ears (h : y ≠ x) : (T.attach r x).hears y = T.hears y := by
  simp only [Table.attach]
  split
  · rfl
  · exact update_of_ne h ..

end

/-! ## The steps -/

theorem unused_step (h : Unused hub) (he : Effect hub e hub') : Unused hub' := by
  intro y hy
  cases he with
  | turn _ ht =>
    obtain ⟨hx, hn, ht, -⟩ := ht
    rw [hn] at hy
    have hne : y ≠ _ := Nat.ne_of_gt (Nat.lt_of_lt_of_le hx hy)
    generalize leases hub' = T, pointOf hub' _ = q at ht
    cases ht with
    | goesOn _ => exact h y hy
    | creates _ => exact h y hy
    | registers _ => exact ⟨(h y hy).1, (attach_ears hne).trans (h y hy).2⟩
    | publishes _ => exact ⟨(h y hy).1, (attach_ears hne).trans (h y hy).2⟩
    | resumes _ => exact ⟨(h y hy).1, (attach_ears hne).trans (h y hy).2⟩
  | loses hx hn _ ht _ =>
    rw [hn] at hy
    have hne : y ≠ _ := Nat.ne_of_gt (Nat.lt_of_lt_of_le hx hy)
    rw [ht, Table.lose, (notifyAll_ears _).1, (notifyAll_ears _).2]
    simpa [Table.mark, hne] using h y hy
  | fires hn _ ht _ =>
    rw [hn] at hy
    rw [ht]
    exact h y hy
  | releases hn _ ht _ =>
    rw [hn] at hy
    rw [ht, (releaseAll_ears _).1, (releaseAll_ears _).2.1]
    exact h y hy
  | other hq =>
    rw [hq.leases]
    exact h y (hq.nextSession.trans hy)

theorem known_nextTunnel : (leases hub).known hub.nextTunnel = false :=
  decide_eq_false (Nat.lt_irrefl _)

theorem Basic.known_of_registered (h : Basic hub) {id : String} {r : TunnelRef}
    (hr : hub.tunnels.get id = some r) : (leases hub).known r = true :=
  (h.sound.named id r hr).2

theorem sound_step (h : Basic hub) (he : Effect hub e hub') : (leases hub').Sound := by
  cases he with
  | turn _ ht =>
    obtain ⟨-, -, ht, -⟩ := ht
    generalize hq : pointOf hub _ = p, leases hub' = T, pointOf hub' _ = q at ht
    cases ht with
    | goesOn _ => exact h.sound
    | creates _ => exact h.sound.create known_nextTunnel
    | @registers n _ =>
      have hc : ((leases hub).create hub.nextTunnel n).Sound := h.sound.create known_nextTunnel
      exact (hc.insert (update_self ..)).attach (update_self ..)
    | publishes hp =>
      have hk := h.held _ _ _ (hq.trans hp) rfl
      exact (h.sound.insert hk).attach hk
    | resumes hr =>
      refine h.sound.attach ?_
      rcases hr with ⟨-, id, hr⟩ | hp
      · exact h.known_of_registered hr
      · exact h.held _ _ _ (hq.trans hp) rfl
  | loses _ _ _ ht _ => exact ht ▸ h.sound.lose _ _
  | fires _ _ ht _ => exact ht ▸ h.sound.fire _ _
  | releases _ _ ht _ => exact ht ▸ h.sound.releaseAll _
  | other hq => exact hq.leases ▸ h.sound

theorem known_step (he : Effect hub e hub') {r : TunnelRef} (hr : (leases hub).known r = true) :
    (leases hub').known r = true := by
  have hcreate : ∀ n, ((leases hub).create hub.nextTunnel n).known r = true := by
    intro n
    simp only [Table.create, update_apply]
    split
    · rfl
    · exact hr
  cases he with
  | turn _ ht =>
    obtain ⟨-, -, ht, -⟩ := ht
    generalize leases hub' = T, pointOf hub' _ = q at ht
    cases ht with
    | goesOn _ => exact hr
    | creates _ => exact hcreate _
    | @registers n _ => exact hcreate n
    | publishes _ => exact hr
    | resumes _ => exact hr
  | loses _ _ _ ht _ =>
    rw [ht, Table.lose, notifyAll_known]
    exact hr
  | fires _ _ ht _ => exact ht ▸ hr
  | releases _ _ ht _ =>
    rw [ht, (releaseAll_ears _).2.2]
    exact hr
  | other hq => exact hq.leases ▸ hr

/-- A tunnel keeps its id. -/
theorem name_step (he : Effect hub e hub') {r : TunnelRef}
    (hr : (leases hub).known r = true) : (hub'.heap r).id = (hub.heap r).id := by
  have hne : r ≠ hub.nextTunnel := by
    rintro rfl
    rw [known_nextTunnel] at hr
    cases hr
  have hname : (leases hub').name r = (leases hub).name r := by
    cases he with
    | turn _ ht =>
      have ht := ht.turn
      generalize leases hub' = T, pointOf hub' _ = q at ht
      cases ht with
      | goesOn _ => rfl
      | creates _ => exact update_of_ne hne ..
      | registers _ => exact update_of_ne hne ..
      | publishes _ => rfl
      | resumes _ => rfl
    | loses _ _ _ ht _ => exact ht ▸ congrFun Table.lose_name r
    | fires _ _ ht _ => exact ht ▸ rfl
    | releases _ _ ht _ => exact ht ▸ congrFun (Table.releaseAll_name _) r
    | other hq => exact hq.leases ▸ rfl
  exact hname

theorem held_step (h : Basic hub) (he : Effect hub e hub') :
    ∀ x p r, pointOf hub' x = some p → heldBy p = some r → (leases hub').known r = true := by
  intro y p r hy hr
  have hold : pointOf hub y = some p → (leases hub').known r = true :=
    fun hp => known_step he (h.held y p r hp hr)
  cases he with
  | @turn _ _ x _ ht =>
    obtain ⟨-, -, ht, hp⟩ := ht
    by_cases hx : y = x
    · subst hx
      rw [hy] at ht
      generalize leases hub' = T at ht hold
      cases ht with
      | goesOn hc =>
        have hc := hc p rfl
        cases p <;> cases hr
        · obtain ⟨id, hid⟩ := hc
          exact h.known_of_registered hid
        · cases hc
      | creates _ =>
        cases hr
        exact update_self ..
      | registers _ => cases hr
      | publishes _ => cases hr
      | resumes _ => cases hr
    · exact hold (hp y hx ▸ hy)
  | loses _ _ _ _ hp => exact hold (hp ▸ hy)
  | fires _ _ _ hp => exact hold (hp ▸ hy)
  | releases _ _ _ hp => exact hold (hp ▸ hy)
  | other hq => exact hold (hq.point y p hy)

/-- A call comes to wait for the policy of a new tunnel only with the next one. -/
theorem policySaved_step (he : Effect hub e hub') {x : SessionRef} {r : TunnelRef}
    (hx : pointOf hub' x = some (.policySaved r)) :
    pointOf hub x = some (.policySaved r) ∨ r = hub.nextTunnel ∧ turnOf e = some x := by
  cases he with
  | @turn _ _ y he ht =>
    by_cases hy : x = y
    · subst hy
      have ht := ht.turn
      rw [hx] at ht
      generalize leases hub' = T at ht
      cases ht with
      | goesOn hc => exact (hc _ rfl).elim
      | creates _ => exact .inr ⟨rfl, he⟩
    · exact .inl (ht.point x hy ▸ hx)
  | loses _ _ _ _ hp => exact .inl (hp ▸ hx)
  | fires _ _ _ hp => exact .inl (hp ▸ hx)
  | releases _ _ _ hp => exact .inl (hp ▸ hx)
  | other hq => exact .inl (hq.point x _ hx)

theorem apart_step (h : Basic hub) (he : Effect hub e hub') :
    ∀ x y r, pointOf hub' x = some (.policySaved r) → pointOf hub' y = some (.policySaved r) →
      x = y := by
  intro x y r hx hy
  have hnew : ∀ z, pointOf hub z = some (.policySaved hub.nextTunnel) → False := fun z hz =>
    Bool.noConfusion (known_nextTunnel.symm.trans (h.held z _ _ hz rfl))
  rcases policySaved_step he hx with hx | ⟨hr, hx⟩ <;>
    rcases policySaved_step he hy with hy | ⟨hr', hy⟩
  · exact h.apart x y r hx hy
  · exact (hnew x (hr' ▸ hx)).elim
  · exact (hnew y (hr ▸ hy)).elim
  · exact Option.some.inj (hx.symm.trans hy)

/-- Only a call that returns gives a name to a tunnel: its own new one, or the next one. -/
theorem slot_step (he : Effect hub e hub') {n : String} {r : TunnelRef}
    (hn : (leases hub').slot n = some r) :
    (leases hub).slot n = some r ∨
      ∃ x, turnOf e = some x ∧ pointOf hub' x = some (.returned r false) ∧
        (r = hub.nextTunnel ∨ pointOf hub x = some (.policySaved r)) := by
  cases he with
  | @turn _ _ x hx ht =>
    have ht := ht.turn
    generalize hp : pointOf hub x = p, leases hub' = T, hp' : pointOf hub' x = p' at ht hn
    cases ht with
    | goesOn _ => exact .inl hn
    | creates _ => exact .inl hn
    | @registers m _ =>
      by_cases he : n = ((leases hub).create hub.nextTunnel m).name hub.nextTunnel
      · have hs := (((leases hub).create hub.nextTunnel m).insert_slot_self hub.nextTunnel)
        rw [← he] at hs
        obtain rfl : r = hub.nextTunnel := Option.some.inj (hn.symm.trans hs)
        exact .inr ⟨x, hx, hp', .inl rfl⟩
      · exact .inl ((Table.insert_slot_ne _ _ he).symm.trans hn)
    | @publishes r' hb =>
      by_cases he : n = (leases hub).name r'
      · have hs := (leases hub).insert_slot_self r'
        rw [← he] at hs
        obtain rfl : r = r' := Option.some.inj (hn.symm.trans hs)
        exact .inr ⟨x, hx, hp', .inr (hp.trans hb)⟩
      · exact .inl ((Table.insert_slot_ne _ _ he).symm.trans hn)
    | resumes _ => exact .inl hn
  | loses _ _ _ ht _ => exact .inl (Table.slot_of_lose (ht ▸ hn))
  | fires _ _ ht _ =>
    rw [ht] at hn
    exact .inl (Table.slot_of_release hn)
  | releases _ _ ht _ => exact .inl (Table.slot_of_releaseAll (ht ▸ hn))
  | other hq => exact .inl (hq.leases ▸ hn)

theorem unborn_step (h : Basic hub) (he : Effect hub e hub') :
    ∀ x r n, pointOf hub' x = some (.policySaved r) → (leases hub').slot n ≠ some r := by
  intro x r n hx hn
  rcases policySaved_step he hx with hx' | ⟨hr, ht⟩
  · rcases slot_step he hn with hn' | ⟨y, -, hy', hr | hy⟩
    · exact h.unborn x r n hx' hn'
    · rw [hr] at hx'
      exact Bool.noConfusion (known_nextTunnel.symm.trans (h.held x _ _ hx' rfl))
    · obtain rfl := h.apart x y r hx' hy
      rw [hx] at hy'
      cases hy'
  · rcases slot_step he hn with hn' | ⟨y, hty, hy', -⟩
    · rw [hr] at hn'
      exact Bool.noConfusion (known_nextTunnel.symm.trans (h.sound.named n _ hn').2)
    · obtain rfl : x = y := Option.some.inj (ht.symm.trans hty)
      rw [hx] at hy'
      cases hy'

theorem called_step (h : Basic hub) (he : Effect hub e hub') :
    ∀ x p, pointOf hub' x = some p → x < hub'.nextSession := by
  intro x p hx
  cases he with
  | @turn _ _ y _ ht =>
    rw [ht.nextSession]
    by_cases hy : x = y
    · exact hy ▸ ht.lt
    · exact h.called x p (ht.point x hy ▸ hx)
  | loses _ hn _ _ hp => exact hn ▸ h.called x p (hp ▸ hx)
  | fires hn _ _ hp => exact hn ▸ h.called x p (hp ▸ hx)
  | releases hn _ _ hp => exact hn ▸ h.called x p (hp ▸ hx)
  | other hq => exact Nat.lt_of_lt_of_le (h.called x p (hq.point x p hx)) hq.nextSession

theorem Basic.of_effect (h : Basic hub) (he : Effect hub e hub') : Basic hub' :=
  ⟨unused_step h.unused he, sound_step h he, held_step h he, apart_step h he, unborn_step h he,
    called_step h he⟩

theorem basic_step (h : Basic hub) (hs : step hub e = some hub') : Basic hub' :=
  h.of_effect (step_effect h.unused hs)

theorem basic (h : Reachable hub) : Basic hub := by
  refine Machine.Reaches.invariant h ?_ fun s t e hi _ hs => basic_step hi hs
  rintro _ ⟨config, rfl⟩
  exact basic_init config

/-- An event of a reachable hub. -/
theorem effect (h : Reachable hub) (hs : step hub e = some hub') : Effect hub e hub' :=
  step_effect (basic h).unused hs

/-! ## Calls that return -/

/-- A call of `register` that returns: its session, the tunnel, its id, and whether it was
resumed. -/
structure Return where
  session : SessionRef
  tunnel : TunnelRef
  id : String
  resumed : Bool
deriving DecidableEq

/-- The call that returns in an event. -/
def returning (hub : Hub) (e : Event) : Option Return :=
  match turnOf e, step hub e with
  | some x, some hub' =>
    match pointOf hub' x with
    | some (.returned r resumed) => some ⟨x, r, (hub'.heap r).id, resumed⟩
    | _ => none
  | _, _ => none

theorem returning_eq_some {q : Return} (hs : step hub e = some hub') :
    returning hub e = some q ↔ turnOf e = some q.session ∧
      pointOf hub' q.session = some (.returned q.tunnel q.resumed) ∧
      q.id = (hub'.heap q.tunnel).id := by
  obtain ⟨y, r, id, resumed⟩ := q
  unfold returning
  rw [hs]
  cases turnOf e with
  | none => simp
  | some x =>
    simp only [Option.some.injEq]
    split
    · rename_i r' b hp
      simp only [Option.some.injEq, Return.mk.injEq]
      constructor
      · rintro ⟨rfl, rfl, rfl, rfl⟩
        exact ⟨rfl, hp, rfl⟩
      · rintro ⟨rfl, hp', rfl⟩
        rw [hp] at hp'
        cases hp'
        exact ⟨rfl, rfl, rfl, rfl⟩
    · rename_i hp
      simp only [reduceCtorEq, false_iff, not_and]
      rintro rfl hp'
      exact absurd hp' (hp _ _)

/-- How a call comes to return: with a new tunnel, with one whose policy has been saved, or
with the one that it resumes. -/
theorem returning_cases {q : Return} (hs : step hub e = some hub')
    (hq : returning hub e = some q) :
    (q.tunnel = hub.nextTunnel ∧ q.resumed = false ∧
      leases hub' = (((leases hub).create q.tunnel q.id).insert q.tunnel).attach q.tunnel
        q.session ∧ (pointOf hub q.session).bind nameOf = some q.id) ∨
    (q.resumed = false ∧ (leases hub).name q.tunnel = q.id ∧
      pointOf hub q.session = some (.policySaved q.tunnel) ∧
      leases hub' = ((leases hub).insert q.tunnel).attach q.tunnel q.session) ∨
    (q.resumed = true ∧ (leases hub).name q.tunnel = q.id ∧
      leases hub' = (leases hub).attach q.tunnel q.session ∧
      ((pointOf hub q.session = none ∧ ∃ id, hub.tunnels.get id = some q.tunnel) ∨
        pointOf hub q.session = some (.resumeSaved q.tunnel))) := by
  obtain ⟨y, r, id, resumed⟩ := q
  obtain ⟨hturn, hpoint, hname⟩ := (returning_eq_some hs).mp hq
  have ht := (takesTurn hturn hs).turn
  have hid : (leases hub').name r = id := hname.symm
  clear hname
  simp only at hpoint ht ⊢
  rw [hpoint] at ht
  generalize leases hub' = T at ht hid
  generalize pointOf hub y = p at ht
  cases ht with
  | goesOn hc => exact (hc _ rfl).elim
  | @registers n hn =>
    have hname : ((leases hub).create hub.nextTunnel n).name hub.nextTunnel = n := update_self ..
    obtain rfl : n = id := hname.symm.trans hid
    exact .inl ⟨rfl, rfl, rfl, hn⟩
  | publishes hb => exact .inr (.inl ⟨rfl, hid, hb, rfl⟩)
  | resumes hb => exact .inr (.inr ⟨rfl, hid, rfl, hb⟩)

/-- A turn in which the call does not return leaves the leases alone, but for a tunnel that
is made and waits to be registered. -/
theorem leases_of_waiting {x : SessionRef} (he : turnOf e = some x) (hs : step hub e = some hub')
    (hq : returning hub e = none) :
    leases hub' = leases hub ∨ ∃ n, leases hub' = (leases hub).create hub.nextTunnel n := by
  have hret : ∀ r resumed, pointOf hub' x ≠ some (.returned r resumed) := by
    intro r resumed hp
    rw [(returning_eq_some (q := ⟨x, r, (hub'.heap r).id, resumed⟩) hs).mpr ⟨he, hp, rfl⟩] at hq
    cases hq
  have ht := (takesTurn he hs).turn
  generalize leases hub' = T, pointOf hub' x = p at ht hret
  cases ht with
  | goesOn _ => exact .inl rfl
  | @creates n _ => exact .inr ⟨n, rfl⟩
  | registers _ => exact absurd rfl (hret _ _)
  | publishes _ => exact absurd rfl (hret _ _)
  | resumes _ => exact absurd rfl (hret _ _)

end Tunlit.Registry.Reach
