import Tunlit.Accounts.Calls

/-! # What a new password and two-factor end

A login reads the account, verifies the password and then creates its session; a change of
the password deletes the sessions and then writes the hash, and two-factor is turned on
before the sessions are deleted. -/
namespace Tunlit.Accounts.SignIns
open Tunlit.Lib.Insertion Tunlit.Lib.Runs Tunlit.Lib.Turns Tunlit.Accounts.Rows
  Tunlit.Accounts.Calls

/-- `enable` has yet to delete the sessions of the account. -/
def Enabling (s : Server) (id : AccountId) : Prop := ∃ i, s.pointOf i = some (.enabled id)

/-- A password login was with the present hash, and with a code if one is asked for now. -/
def Fresh (s : Server) (session : Session) (account : Account) : Prop :=
  ∀ hash coded, session.origin = .password hash coded → hash = account.passwordHash ∧
    (account.totpEnabled = true → coded = true ∨ Enabling s session.accountId)

/-- Every session was obtained with what the account asks for. -/
def Renewed (s : Server) : Prop :=
  ∀ sid session, s.world.sessions.get sid = some session →
    ∀ account, s.world.accounts.get session.accountId = some account → Fresh s session account

/-- What a login has read is still so, and no new password is about to be written. -/
structure Current (s : Server) (id : AccountId) (hash : String) (coded : Bool) : Prop where
  same : ∀ account ∈ s.world.byId id, account.passwordHash = hash ∧
    (account.totpEnabled = true → coded = true)
  settled : ∀ i found values, s.pointOf i ≠ some (.cleared id found values)

/-- A step that creates the session of a password login finds what the login has read. -/
def Careful (s : Server) (e : Event Request Input) : Prop :=
  ∀ i input, e = .resume i input → ∀ point ∈ s.pointOf i, ∀ id hash coded,
    (turn s.world point input).1 = some (.createSession id (.password hash coded)) →
    Current s id hash coded

/-! ## The invariant -/

structure Sound (s : Server) : Prop where
  numbered : Numbered s.world
  owned : ∀ sid session, s.world.sessions.get sid = some session →
    s.world.accounts.has session.accountId = true
  renewed : Renewed s
  /-- where a new password is about to be written, no session is of a password -/
  cleared : ∀ i id found values, s.pointOf i = some (.cleared id found values) →
    values.totpEnabled = none ∧ ∀ sid session, s.world.sessions.get sid = some session →
      session.accountId = id → ∀ hash coded, session.origin ≠ .password hash coded

variable {s t : Server} {e : Event Request Input} {i : Nat} {point next : Point}
  {statement : Statement} {turns : List (World × World)}

/-- What a statement leaves to be shown, where the call goes on to wait. -/
structure Kept (s t : Server) (i : Nat) (point next : Point) : Prop where
  was : s.pointOf i = some point
  now : t.pointOf i = some next
  others : ∀ k p, k ≠ i → (t.pointOf k = some p ↔ s.pointOf k = some p)

theorem kept_of_goesOn {turn : World × Stage Point Answer}
    (hc : s.calls[i]? = some ⟨turns, .waits point⟩) (hn : turn.2 = .waits next) :
    Kept s (s.goesOn i turns turn) i point next := by
  have hp := System.pointOf_of_call hc
  refine ⟨hp, ?_, fun k p hk => ⟨fun h => ?_, System.pointOf_goesOn_of hk⟩⟩
  · have hi : i < s.calls.length := (List.getElem?_eq_some_iff.mp hc).1
    refine System.pointOf_of_call (t := turns ++ [(s.world, turn.1)]) ?_
    rw [System.goesOn, List.getElem?_set_self hi, hn]
  · rcases System.pointOf_goesOn h with ⟨-, h⟩ | ⟨hki, -⟩
    · exact h
    · exact absurd hki hk

/-- A call that deletes the sessions goes on, and the others wait where they did. -/
theorem Enabling.kept {id : AccountId} (hk : Kept s t i point next) (h : Enabling s id)
    (hne : point ≠ .enabled id) : Enabling t id := by
  obtain ⟨k, hp⟩ := h
  refine ⟨k, (hk.others k _ ?_).mpr hp⟩
  rintro rfl
  exact hne (Option.some.inj (hk.was.symm.trans hp))

theorem owned_run {w : World} (hn : Numbered w) {sid : SessionId} {session : Session}
    (ho : ∀ sid session, w.sessions.get sid = some session →
      w.accounts.has session.accountId = true)
    (hs : (w.run statement).sessions.get sid = some session) :
    (w.run statement).accounts.has session.accountId = true := by
  have hstays : w.accounts.has session.accountId = true →
      statement ≠ .destroyAccount session.accountId →
      (w.run statement).accounts.has session.accountId = true := by
    intro ha hd
    obtain ⟨account, ha⟩ := OrderedMap.has_eq_true.mp ha
    rcases run_get statement hn ha with hr | ⟨values, -, hr⟩ | hr
    · exact OrderedMap.has_eq_true.mpr ⟨_, hr⟩
    · exact OrderedMap.has_eq_true.mpr ⟨_, hr⟩
    · exact absurd hr hd
  rcases session_run hs with ⟨hold, hd⟩ | ⟨rfl, ha⟩
  · exact hstays (ho sid session hold) fun he => hd _ (.inl he) rfl
  · exact hstays ha (by simp)

theorem Fresh.kept {session : Session} {account : Account} (hf : Fresh s session account)
    (hk : Kept s t i point next) (hne : point ≠ .enabled session.accountId) :
    Fresh t session account := by
  intro hash coded ho
  obtain ⟨hh, hc⟩ := hf hash coded ho
  exact ⟨hh, fun ht => (hc ht).imp_right fun he => he.kept hk hne⟩

theorem Fresh.put {session : Session} {account : Account} {values : Values}
    (hf : Fresh s session account) (hp : values.passwordHash = none)
    (ht : values.totpEnabled ≠ some true) : Fresh s session (account.put values) := by
  intro hash coded ho
  obtain ⟨hh, hc⟩ := hf hash coded ho
  refine ⟨by simp [Account.put, hp, hh], fun he => hc ?_⟩
  cases hv : values.totpEnabled with
  | none => simpa [Account.put, hv] using he
  | some on =>
    cases on with
    | true => exact absurd hv ht
    | false => simp [Account.put, hv] at he

section
variable (h : Sound s) (hk : Kept s t i point next) (hi : Issues s.world point statement next)
  (hw : t.world = s.world.run statement)
include h hk hi hw

/-- A session that was there is still fresh. -/
theorem fresh_old {sid : SessionId} {session : Session} {account : Account}
    (hs : s.world.sessions.get sid = some session)
    (hd : ∀ k, statement = .destroyAccount k ∨ statement = .destroySessions k →
      session.accountId ≠ k)
    (ha : t.world.accounts.get session.accountId = some account) : Fresh t session account := by
  have hne : point ≠ .enabled session.accountId := by
    rintro rfl
    cases hi
    exact hd _ (.inr rfl) rfl
  rw [hw] at ha
  rcases get_run ha with ha | ⟨before, values, hst, hb, rfl⟩ | ⟨_, _, _, -, hid, -, -⟩
  · exact (h.renewed sid session hs account ha).kept hk hne
  · have hf := (h.renewed sid session hs before hb).kept hk hne
    subst hst
    cases hi with
    | change hv => exact hf.put hv.2.1 (by simp [hv.2.2])
    | demote _ hv => exact hf.put hv.1 (by simp [hv.2])
    | write =>
      obtain ⟨-, hno⟩ := h.cleared i _ _ _ hk.was
      exact fun hash coded ho => absurd ho (hno sid session hs rfl hash coded)
    | begin => exact hf.put rfl (by simp)
    | enable =>
      intro hash coded ho
      exact ⟨(hf hash coded ho).1, fun _ => .inr ⟨i, hk.now⟩⟩
    | disable => exact hf.put rfl (by simp)
  · have hthere := h.owned sid session hs
    rw [hid] at hthere
    simp [OrderedMap.has, h.numbered.new] at hthere

theorem renewed_issues (hok : ∀ id hash coded, statement = .createSession id (.password hash coded) →
    Current s id hash coded) : Renewed t := by
  intro sid session hs account ha
  have hs' := hs
  rw [hw] at hs'
  rcases session_run hs' with ⟨hold, hd⟩ | ⟨hst, -⟩
  · exact fresh_old h hk hi hw hold hd ha
  · intro hash coded ho
    rw [ho] at hst
    have hcurrent := hok _ _ _ hst
    rw [hw, hst] at ha
    rcases get_run ha with ha | ⟨_, _, hno, -⟩ | ⟨_, _, _, hno, -⟩
    · obtain ⟨hh, hc⟩ := hcurrent.same account ha
      exact ⟨hh.symm, fun ht => .inl (hc ht)⟩
    · cases hno
    · cases hno

theorem cleared_issues (hok : ∀ id hash coded, statement = .createSession id (.password hash coded) →
    Current s id hash coded) (k : Nat) (id : AccountId) (found : Found) (values : Values)
    (hp : t.pointOf k = some (.cleared id found values)) :
    values.totpEnabled = none ∧ ∀ sid session, t.world.sessions.get sid = some session →
      session.accountId = id → ∀ hash coded, session.origin ≠ .password hash coded := by
  by_cases hki : k = i
  · subst hki
    have hnext : next = .cleared id found values := Option.some.inj (hk.now.symm.trans hp)
    subst hnext
    have hnone : statement = .destroySessions id → ∀ sid session,
        t.world.sessions.get sid = some session → session.accountId = id →
        ∀ hash coded, session.origin ≠ .password hash coded := by
      intro hst sid session hs hid
      rw [hw] at hs
      rcases session_run hs with ⟨-, hd⟩ | ⟨hno, -⟩
      · exact absurd hid (hd id (.inr hst))
      · rw [hst] at hno
        cases hno
    cases hi with
    | clear hv => exact ⟨hv.2, hnone rfl⟩
    | demoteClear _ hv => exact ⟨hv, hnone rfl⟩
  · have hp' := (hk.others k _ hki).mp hp
    obtain ⟨hv, hno⟩ := h.cleared k id found values hp'
    refine ⟨hv, fun sid session hs hid hash coded ho => ?_⟩
    rw [hw] at hs
    rcases session_run hs with ⟨hold, -⟩ | ⟨hst, -⟩
    · exact hno sid session hold hid hash coded ho
    · rw [ho] at hst
      exact (hok _ _ _ hst).settled k found values (hid ▸ hp')

theorem sound_issues (hok : ∀ id hash coded, statement = .createSession id (.password hash coded) →
    Current s id hash coded) : Sound t where
  numbered := hw ▸ h.numbered.run statement
  owned _ _ hs := by
    rw [hw] at hs ⊢
    exact owned_run h.numbered h.owned hs
  renewed := renewed_issues h hk hi hw hok
  cleared := cleared_issues h hk hi hw hok

end

/-- Where the accounts stay and no session is new, everything stays. -/
theorem Sound.of_world (h : Sound s) (ha : t.world.accounts = s.world.accounts)
    (hn : t.world.names = s.world.names)
    (hs : ∀ sid session, t.world.sessions.get sid = some session →
      s.world.sessions.get sid = some session)
    (he : ∀ id, Enabling s id → Enabling t id)
    (hc : ∀ k id found values, t.pointOf k = some (.cleared id found values) →
      s.pointOf k = some (.cleared id found values)) : Sound t where
  numbered id account hg := by
    rw [ha] at hg
    rw [hn]
    exact h.numbered id account hg
  owned sid session hg := by
    rw [ha]
    exact h.owned sid session (hs sid session hg)
  renewed sid session hg account hacc hash coded ho := by
    rw [ha] at hacc
    obtain ⟨hh, ht⟩ := h.renewed sid session (hs sid session hg) account hacc hash coded ho
    exact ⟨hh, fun hon => (ht hon).imp_right (he _)⟩
  cleared k id found values hp := by
    obtain ⟨hv, hno⟩ := h.cleared k id found values (hc k id found values hp)
    exact ⟨hv, fun sid session hg => hno sid session (hs sid session hg)⟩

theorem startTurn_waits (w : World) (request : Request) (id : AccountId) (found : Found)
    (values : Values) : (startTurn w request).2 ≠ .waits (.cleared id found values) := by
  cases request with
  | create username password role =>
    simp only [startTurn]
    repeat' split
    all_goals nofun
  | _ => nofun

theorem startTurn_world (w : World) (request : Request) :
    (startTurn w request).1 = none ∨ ∃ sid, (startTurn w request).1 = some (.destroySession sid) := by
  cases request with
  | create username password role =>
    simp only [startTurn]
    repeat' split
    all_goals exact .inl rfl
  | logout session => exact .inr ⟨session, rfl⟩
  | _ => exact .inl rfl

theorem Sound.begins (h : Sound s) (request : Request) :
    Sound (s.begins (handlers.start s.world request)) := by
  have hc : ∀ k id found values,
      (s.begins (handlers.start s.world request)).pointOf k = some (.cleared id found values) →
      s.pointOf k = some (.cleared id found values) := by
    intro k id found values hp
    rcases System.pointOf_begins hp with hp | hp
    · exact hp
    · exact absurd hp (startTurn_waits _ _ _ _ _)
  have he : ∀ id, Enabling s id → Enabling (s.begins (handlers.start s.world request)) id :=
    fun id ⟨k, hp⟩ => ⟨k, System.pointOf_begins_of hp⟩
  rcases startTurn_world s.world request with hst | ⟨sid, hst⟩
  · have hw : (handlers.start s.world request).1 = s.world := by simp [handlers, does, hst]
    exact h.of_world (congrArg World.accounts hw) (congrArg World.names hw)
      (fun sid session hg => by rwa [System.begins, hw] at hg) he hc
  · have hw : (handlers.start s.world request).1 = s.world.run (.destroySession sid) := by
      simp [handlers, does, hst]
    refine h.of_world ((congrArg World.accounts hw).trans rfl)
      ((congrArg World.names hw).trans rfl) (fun k session hg => ?_) he hc
    rw [System.begins, hw] at hg
    rcases session_run hg with ⟨hg, -⟩ | ⟨hno, -⟩
    · exact hg
    · cases hno

theorem Sound.goesOn {input : Input} (h : Sound s) (hok : Careful s (.resume i input))
    (hc : s.calls[i]? = some ⟨turns, .waits point⟩) :
    Sound (s.goesOn i turns (handlers.resume s.world point input)) := by
  have hp := System.pointOf_of_call hc
  cases ht : turn s.world point input with
  | mk statement stage =>
  have hr : handlers.resume s.world point input = (statement.elim s.world s.world.run, stage) := by
    simp [handlers, does, ht]
  rw [hr]
  cases statement with
  | none =>
    refine h.of_world rfl rfl (fun _ _ hg => hg) (fun id => ?_) fun k id found values hk => ?_
    · rintro ⟨k, hk⟩
      refine ⟨k, System.pointOf_goesOn_of ?_ hk⟩
      -- the call that deletes the sessions does so in this turn
      rintro rfl
      cases hk.symm.trans hp
      cases ht
    · rcases System.pointOf_goesOn hk with ⟨-, hk⟩ | ⟨-, hn⟩
      · exact hk
      · rw [show stage = .waits (.cleared id found values) from hn] at ht
        nomatch turn_looks ht
  | some statement =>
    obtain ⟨next, rfl, hi⟩ := turn_issues ht
    refine sound_issues h (kept_of_goesOn hc rfl) hi rfl fun id hash coded hst => ?_
    exact hok i input rfl point hp id hash coded (by rw [ht, hst])

theorem Sound.step (h : Sound s) (hok : Careful s e) (hst : machine.step s e = some t) :
    Sound t := by
  rcases Handlers.step_cases hst with ⟨request, rfl, rfl⟩ | ⟨i, input, turns, point, rfl, hc, rfl⟩
  · exact h.begins request
  · exact h.goesOn hok hc

/-- Every session of a password login was obtained with the present password and with the
code, if that is so of every login when it creates its session. -/
theorem renewed_of_careful (s : Server) (h : machine.Reaches Careful s) : Renewed s := by
  refine (h.invariant (I := Sound) (fun s hs => ?_) fun s t e hs hok hst => hs.step hok hst).renewed
  obtain ⟨hcalls, hnumbered, hnone⟩ := hs
  have hempty : ∀ sid, s.world.sessions.get sid = none := fun sid => by
    simp [OrderedMap.get, hnone, lookup]
  refine ⟨hnumbered, fun sid session hg => ?_, fun sid session hg => ?_, fun k id found values hp => ?_⟩
  · rw [hempty] at hg
    cases hg
  · rw [hempty] at hg
    cases hg
  · simp [System.pointOf, hcalls] at hp

/-- An account without two-factor. -/
def alone : Server := ⟨{
  accounts := ⟨[(0, ⟨"alice", "h0", .admin, none, false, none⟩)], by decide⟩
  names := ["alice"] }, []⟩

theorem alone_init : machine.init alone := by
  refine ⟨rfl, fun id account h => ?_, rfl⟩
  have hm : (id, account) ∈ alone.world.accounts.entries := OrderedMap.mem_entries.mpr h
  simp only [alone, List.mem_singleton, Prod.mk.injEq] at hm
  obtain ⟨rfl, rfl⟩ := hm
  rfl

/-- `PUT /settings/password` ends between the verification of a login and its session. -/
def overlap : List (Event Request Input) :=
  [.call (.login "alice" ""), .resume 0 {}, .call (.changePassword 0 (some "new password")),
    .resume 1 {}, .resume 1 {}, .resume 1 { hash := "h1" }, .resume 1 {}, .resume 1 {},
    .resume 1 {}, .resume 0 {}, .resume 0 {}]

def clears : Point → Bool
  | .cleared _ _ _ => true
  | _ => false

/-- The condition, where no password of any account is about to be written. -/
def careful (s : Server) : Event Request Input → Bool
  | .call _ => true
  | .resume i input => (s.pointOf i).all fun point => (turn s.world point input).1.all fun
    | .createSession id (.password hash coded) =>
      ((s.world.byId id).all fun account =>
        account.passwordHash = hash && (!account.totpEnabled || coded)) &&
      s.calls.all fun call => call.stage.point.all fun p => !clears p
    | _ => true

theorem careful_sound (s : Server) (e : Event Request Input) (h : careful s e = true) :
    Careful s e := by
  rintro i input rfl point hp id hash coded hst
  simp only [careful, Option.mem_def.mp hp, Option.all_some, hst, Bool.and_eq_true,
    List.all_eq_true] at h
  refine ⟨fun account ha => ?_, fun k found values hk => ?_⟩
  · have hsame := h.1
    rw [Option.mem_def.mp ha] at hsame
    simp only [Option.all_some, Bool.and_eq_true, Bool.or_eq_true, Bool.not_eq_true',
      decide_eq_true_eq] at hsame
    refine ⟨hsame.1, fun ht => hsame.2.resolve_left ?_⟩
    simp [ht]
  · obtain ⟨turns, hc⟩ := System.pointOf_eq_some hk
    have hno := h.2 _ (List.mem_of_getElem? hc)
    simp [Stage.point, clears] at hno

/-- A login after the change. -/
def sequence : List (Event Request Input) :=
  [.call (.changePassword 0 (some "new password")), .resume 0 {}, .resume 0 {},
    .resume 0 { hash := "h1" }, .resume 0 {}, .resume 0 {}, .resume 0 {},
    .call (.login "alice" ""), .resume 1 {}, .resume 1 {}, .resume 1 {}]

theorem renewed_after : ∃ t, machine.exec alone sequence = some t ∧ t.Idle ∧ Renewed t :=
  ⟨_, rfl, by decide, renewed_of_careful _ (.exec_of (.init alone_init) sequence
    (fun s e _ => careful_sound s e) (by decide) rfl)⟩

/-- A session with the old password, when all calls have ended. -/
theorem not_always_renewed : ¬ ∀ s, machine.Reachable s → s.Idle → Renewed s := by
  intro hall
  obtain ⟨t, ht, hidle, hs, account, ha, hh⟩ : ∃ t, machine.exec alone overlap = some t ∧ t.Idle ∧
      t.world.sessions.get 0 = some ⟨0, .password "h0" false⟩ ∧
      ∃ account, t.world.accounts.get 0 = some account ∧ account.passwordHash = "h1" :=
    ⟨_, rfl, by decide, by decide, _, rfl, by decide⟩
  obtain ⟨hfresh, -⟩ := hall t (.exec (.init alone_init) _ ht) hidle 0 _ hs account ha "h0" false rfl
  rw [hh] at hfresh
  exact absurd hfresh (by decide)

end Tunlit.Accounts.SignIns
