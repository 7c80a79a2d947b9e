import Tunlit.Registry.Calls

/-! # Whose calls and tunnels they are

A call waits where its last turn has left it, and the tunnel that it has made or resumes is
one of the account that the session belongs to. -/
namespace Tunlit.Registry.Holders
open Function Tunlit.Lib.Runs Tunlit.Access.Policy Tunlit.Registry.State Tunlit.Registry.Register
  Tunlit.Registry.System Tunlit.Registry.Leases Tunlit.Registry.Steps Tunlit.Registry.Reach
  Tunlit.Registry.Fields Tunlit.Registry.Calls

/-- The turn that has brought a call to the point where it waits. -/
inductive Comes (hub : Hub) (x : SessionRef) : Event → Hub → Call → Prop
  | begins {request draw owner call hub₁ p} (hp : (hub.sessions x).phase = .setup (.owner owner))
      (hc : callFor hub.config owner request = .ok call)
      (h : start hub x call draw = (hub₁, .waits p)) :
      Comes hub x (.register x request draw) (settle hub₁ x call (.waits p))
        { call with point := p }
  | goesOn {answer draw call hub₁ p} (hp : callOf hub x = some call)
      (h : Register.proceed hub x call answer draw = some (hub₁, .waits p)) :
      Comes hub x (.proceed x answer draw) (settle hub₁ x call (.waits p))
        { call with point := p }

variable {hub hub' hub₁ : Hub} {x y : SessionRef} {r : TunnelRef} {call : Call} {draw : Draw}
  {before : Option Point} {outcome : Outcome} {e : Event} {p : Point}

/-- A call waits first where it has counted the tunnels of its account, or resumes one. -/
theorem start_point (h : start hub x call draw = (hub', .waits p)) :
    p = .tunnels (owned hub call.owner.account.id) ∨
      ∃ r, p = .resumeSaved r ∨ p = .returned r true := by
  unfold start at h
  split at h
  · next r _ =>
    split at h
    · cases h; exact .inr ⟨r, .inr rfl⟩
    · split at h
      · cases h
      · simp only at h
        split at h <;> cases h
        · exact .inr ⟨r, .inl rfl⟩
        · exact .inr ⟨r, .inr rfl⟩
  · cases h; exact .inl rfl

theorem settle_callOf : callOf (settle hub x call outcome) x =
    match outcome with
    | .waits p => some { call with point := p }
    | .threw _ => none := by
  cases outcome with
  | waits p =>
    rw [callOf_eq_some]
    simp [settle, Hub.onSession]
  | threw failure => simp [callOf, settle, Hub.onSession]

theorem settle_callOf_ne (hy : y ≠ x) : callOf (settle hub x call outcome) y = callOf hub y := by
  refine callOf_of_phase ?_
  cases outcome <;> simp only [settle, Hub.onSession, update_of_ne hy]

/-- A turn of one call leaves the others where they are. -/
theorem callOf_takes (h : Takes hub x e hub') (hy : y ≠ x) : callOf hub' y = callOf hub y := by
  have hdoes : ∀ {before call draw hub₁ outcome}, Does hub x call draw before hub₁ outcome →
      callOf (settle hub₁ x call outcome) y = callOf hub y :=
    fun h => (settle_callOf_ne hy).trans (callOf_of_phase (h.ownTunnel.phase y))
  cases h with
  | refuses _ _ => exact callOf_of_phase (by simp only [Hub.onSession, update_of_ne hy])
  | begins _ _ h => exact hdoes (start_does h)
  | goesOn _ h => exact hdoes (proceed_does h)

theorem comes (h : Takes hub x e hub') (hc : callOf hub' x = some call) :
    Comes hub x e hub' call := by
  cases h with
  | refuses hp _ =>
    have hc := callOf_fail hc
    rw [callOf_eq_some, hp] at hc
    cases hc
  | @begins _ _ _ c _ outcome hp hf h =>
    rw [settle_callOf] at hc
    cases outcome with
    | waits p => cases hc; exact .begins hp hf h
    | threw failure => cases hc
  | @goesOn _ _ c _ outcome hp h =>
    rw [settle_callOf] at hc
    cases outcome with
    | waits p => cases hc; exact .goesOn (callOf_eq_some.mpr hp) h
    | threw failure => cases hc

theorem Comes.waiting (h : Comes hub x e hub' call) : callOf hub' x = some call := by
  cases h <;> exact settle_callOf

/-- The call that waits now is the one whose turn it was. -/
theorem Comes.does (h : Comes hub x e hub' call) : ∃ c draw before hub₁,
    Does hub x c draw before hub₁ (.waits call.point) ∧ call.owner = c.owner ∧
      hub'.heap = hub₁.heap ∧ (before = none ∨ ∃ c', callOf hub x = some c' ∧
        before = some c'.point ∧ c'.owner = call.owner) := by
  cases h with
  | begins _ _ h => exact ⟨_, _, none, _, start_does h, rfl, rfl, .inl rfl⟩
  | @goesOn _ _ c _ _ hp h =>
    exact ⟨_, _, some c.point, _, proceed_does h, rfl, rfl, .inr ⟨c, hp, rfl, rfl⟩⟩

theorem attach_session : ((hub.attach r x call).heap r).session = some x := by
  simp only [Hub.attach, Hub.onSession, Hub.onTunnel, update_self]

/-- A call that returns a tunnel has attached it to its session. -/
theorem Comes.session {resumed : Bool} (h : Comes hub x e hub' call)
    (hp : call.point = .returned r resumed) : (hub'.heap r).session = some x := by
  obtain ⟨c, draw, before, hub₁, hd, -, hh, -⟩ := h.does
  rw [hh]
  rw [hp] at hd
  cases hd with
  | stays hs => exact (hs _ rfl).1.elim
  | resumes _ => exact attach_session
  | resumesWith _ _ _ => exact attach_session
  | registers _ _ => exact attach_session
  | publishes _ => exact attach_session

/-! ## Accounts -/

theorem changes_accountId {tunnel : Tunnel} (h : Changes hub e r tunnel) :
    tunnel.accountId = (hub.heap r).accountId := by
  cases h with
  | same h => rw [h]; rfl
  | web _ h => rw [h]; rfl
  | resets _ h => rw [h]; rfl
  | persists _ h => rw [h]; rfl

/-- A tunnel keeps its account. -/
theorem accountId_step (hs : step hub e = some hub') (hr : r < hub.nextTunnel) :
    (hub'.heap r).accountId = (hub.heap r).accountId := by
  have h := changes_accountId (changes hs hr)
  exact h

/-- A tunnel whose policy is being saved before it is registered is the caller's own. -/
def Theirs (hub : Hub) : Prop := ∀ x call r, callOf hub x = some call →
  call.point = .policySaved r → (hub.heap r).accountId = call.owner.account.id

theorem lt_of_policySaved (hb : Basic hub) (hc : callOf hub x = some call)
    (hp : call.point = .policySaved r) : r < hub.nextTunnel := by
  have hx : pointOf hub x = some (.policySaved r) := by rw [pointOf_eq_callOf, hc, ← hp]; rfl
  simpa [leases] using hb.held x _ r hx rfl

theorem lt_of_registered (hb : Basic hub) {id : String} (h : hub.tunnels.get id = some r) :
    r < hub.nextTunnel := by
  simpa [leases] using hb.known_of_registered h

theorem created_account (c : Creation before call draw) :
    ((c.on hub).heap hub.nextTunnel).accountId = call.owner.account.id := by
  simp only [Creation.on, update_self]
  rfl

theorem publish_account : ((publish hub x call r).1.heap r).accountId = (hub.heap r).accountId := by
  have hset : Fixed hub { hub with tunnels := hub.tunnels.set (hub.heap r).id r } := .of_heap rfl
  exact (hset.trans fixed_attach).accountId r

/-- The new tunnel that a call has made, or registered, is of the caller's account. -/
theorem Comes.account (ht : Theirs hub) (h : Comes hub x e hub' call)
    (hp : call.point = .policySaved r ∨ call.point = .returned r false) :
    (hub'.heap r).accountId = call.owner.account.id := by
  obtain ⟨c, draw, before, hub₁, hd, ho, hh, hbefore⟩ := h.does
  rw [hh, ho]
  generalize hout : Outcome.waits call.point = out at hd
  cases hd with
  | stays hs =>
    obtain ⟨hs, hn⟩ := hs call.point hout.symm
    rcases hp with hp | hp
    · rw [hp] at hn; cases hn
    · have hs := (‹∀ p, out = .waits p → _›) call.point hout.symm
      rw [hp] at hs
      exact hs.1.elim
  | sets _ _ _ => rcases hp with hp | hp <;> rw [hp] at hout <;> cases hout
  | resumes _ => rcases hp with hp | hp <;> rw [hp] at hout <;> cases hout
  | resumesWith _ _ _ => rcases hp with hp | hp <;> rw [hp] at hout <;> cases hout
  | creates k _ _ =>
    rcases hp with hp | hp <;> rw [hp] at hout <;> cases hout
    exact created_account k
  | registers k _ =>
    rcases hp with hp | hp <;> rw [hp] at hout <;> cases hout
    exact publish_account.trans (created_account k)
  | publishes hb =>
    rcases hp with hp | hp <;> rw [hp] at hout <;> cases hout
    rcases hbefore with hn | ⟨c', hc', hpoint, hown⟩
    · rw [hn] at hb; cases hb
    · have hpoint : c'.point = .policySaved r := Option.some.inj (hpoint.symm.trans hb)
      rw [publish_account, ht x c' r hc' hpoint, hown, ho]

theorem theirs_step (hb : Basic hub) (ht : Theirs hub) (hs : step hub e = some hub') :
    Theirs hub' := by
  intro y call r hc hp
  have hkept : callOf hub y = some call → (hub'.heap r).accountId = call.owner.account.id := by
    intro hc
    rw [accountId_step hs (lt_of_policySaved hb hc hp)]
    exact ht y call r hc hp
  cases he : turnOf e with
  | none => exact hkept (callOf_other he hs hc)
  | some x =>
    obtain ⟨-, htakes⟩ := takes he hs
    by_cases hy : y = x
    · subst hy
      exact (comes htakes hc).account ht (.inl hp)
    · exact hkept ((callOf_takes htakes hy).symm.trans hc)

end Tunlit.Registry.Holders
