import Tunlit.Accounts.Calls

/-! # There is always an admin

A call that takes an admin away has found another one. Between what it finds and what it
does there are awaits, so the statement that it issues has to find the same. -/
namespace Tunlit.Accounts.Admins
open Tunlit.Lib.Insertion Tunlit.Lib.Runs Tunlit.Lib.Turns Tunlit.Accounts.Rows
  Tunlit.Accounts.Calls

def HasAdmin (w : World) : Prop :=
  ∃ id account, w.accounts.get id = some account ∧ account.role = .admin

/-- The statement may take an admin away. -/
def demotes : Statement → Option AccountId
  | .updateAccount id values => if values.role = some .user then some id else none
  | .destroyAccount id => some id
  | _ => none

/-- What a call relies on when it takes an admin away. -/
def foundAt : Point → Option Found
  | .counted _ _ _ account admins => some ⟨account, some admins⟩
  | .cleared _ found _ | .invitesGone _ found => some found
  | _ => none

/-- What was found is still so: the account has the same role, and there are no fewer admins. -/
def StillSo (w : World) (id : AccountId) (found : Found) : Prop :=
  (∀ account ∈ w.byId id, account.role = found.account.role) ∧
    ∀ admins ∈ found.admins, admins ≤ w.adminCount

/-- A step that takes an admin away finds what its call has found. -/
def Careful (s : Server) (e : Event Request Input) : Prop :=
  ∀ i input, e = .resume i input → ∀ point ∈ s.pointOf i, ∀ statement ∈ (turn s.world point input).1,
    ∀ id ∈ demotes statement, ∀ found ∈ foundAt point, StillSo s.world id found

instance (w : World) (id : AccountId) (found : Found) : Decidable (StillSo w id found) :=
  inferInstanceAs (Decidable (_ ∧ _))

instance (s : Server) (e : Event Request Input) : Decidable (Careful s e) :=
  match e with
  | .call _ => isTrue fun _ _ h => nomatch h
  | .resume i input => decidable_of_iff
      (∀ point ∈ s.pointOf i, ∀ statement ∈ (turn s.world point input).1,
        ∀ id ∈ demotes statement, ∀ found ∈ foundAt point, StillSo s.world id found)
      ⟨fun h _ _ he => by cases he; exact h, fun h => h i input rfl⟩

theorem hasAdmin_iff {w : World} :
    HasAdmin w ↔ ∃ entry ∈ w.accounts.entries, entry.2.role = .admin :=
  ⟨fun ⟨id, account, hg, ha⟩ => ⟨(id, account), OrderedMap.mem_entries.mpr hg, ha⟩,
    fun ⟨entry, hm, ha⟩ => ⟨entry.1, entry.2, OrderedMap.mem_entries.mp hm, ha⟩⟩

instance (w : World) : Decidable (HasAdmin w) := decidable_of_iff _ hasAdmin_iff.symm

/-! ## One statement -/

variable {w : World} {statement : Statement} {id : AccountId} {point : Point} {input : Input}

/-- Where there are two admins, there is one besides any account. -/
theorem exists_other (h : 1 < w.adminCount) (id : AccountId) :
    ∃ k account, k ≠ id ∧ w.accounts.get k = some account ∧ account.role = .admin := by
  by_contra hno
  have hone : w.adminCount ≤ [id].length := by
    refine OrderedMap.tally_le_of_subset fun k hk => List.mem_singleton.mpr ?_
    obtain ⟨account, hg, ha⟩ := OrderedMap.mem_tallied.mp hk
    by_contra hne
    exact hno ⟨k, account, hne, hg, by simpa [World.isAdmin] using ha⟩
  exact absurd h (Nat.not_lt.mpr hone)

theorem role_put {account : Account} {values : Values} (h : values.role ≠ some .user)
    (ha : account.role = .admin) : (account.put values).role = .admin := by
  cases hr : values.role with
  | none => simp [Account.put, hr, ha]
  | some role =>
    cases role with
    | admin => simp [Account.put, hr]
    | user => exact absurd hr h

/-- A statement leaves an admin, unless it takes the only one. -/
theorem HasAdmin.run (h : HasAdmin w) (hn : Numbered w)
    (hd : ∀ id ∈ demotes statement, (∀ account ∈ w.byId id, account.role ≠ .admin) ∨
      1 < w.adminCount) : HasAdmin (w.run statement) := by
  obtain ⟨k, account, hg, ha⟩ := h
  -- another admin, if the statement is about this one
  have hother : k ∈ demotes statement → HasAdmin (w.run statement) := by
    intro hk
    rcases hd k hk with hno | hmany
    · exact absurd ha (hno account hg)
    · obtain ⟨q, other, hne, hq, ho⟩ := exists_other hmany k
      rcases run_get statement hn hq with hq | ⟨values, rfl, -⟩ | rfl
      · exact ⟨q, other, hq, ho⟩
      · simp only [demotes] at hk
        split at hk
        · exact absurd (Option.some.inj hk) hne
        · cases hk
      · exact absurd (Option.some.inj hk) hne
  rcases run_get statement hn hg with hg | ⟨values, rfl, hg⟩ | rfl
  · exact ⟨k, account, hg, ha⟩
  · by_cases hv : values.role = some .user
    · exact hother (by simp [demotes, hv])
    · exact ⟨k, _, hg, role_put hv ha⟩
  · exact hother rfl

/-! ## The calls -/

/-- A call that takes a role or an account has found another admin, if it is an admin's. -/
def Checked (found : Found) : Prop :=
  found.account.role = .admin → ∃ admins ∈ found.admins, 1 < admins

def Sound : Point → Prop
  | .counted _ _ role account _ => account.role = .admin ∧ role = .user
  | .cleared _ found values =>
    values.role = some .user → found.account.role = .admin ∧ Checked found
  | .removalCounted _ account _ => account.role = .admin
  | .sessionsGone _ found | .devicesGone _ found | .invitesGone _ found => Checked found
  | _ => True

def SoundStage : Stage Point Answer → Prop
  | .waits point => Sound point
  | .ended _ => True

variable {stage : Stage Point Answer}

theorem write_sound (id : AccountId) (values : Values) : SoundStage (write w id values).2 := by
  unfold write
  split <;> trivial

theorem change_sound {changes : Changes} {role : Option Role} {found : Found} {hash : String}
    (h : role = some .user → found.account.role = .admin ∧ Checked found) :
    SoundStage (change w id changes role found hash).2 := by
  unfold change
  dsimp only
  split
  · exact write_sound _ _
  · split
    · trivial
    · exact h

theorem update_sound {changes : Changes} {account : Option Account} {hash : String} :
    SoundStage (update w id changes account hash).2 := by
  unfold update
  cases account with
  | none => trivial
  | some account =>
    dsimp only
    split
    · exact change_sound (by simp)
    · next text htext =>
      have hne : text ≠ account.role.name := by
        simpa using (Option.filter_eq_some_iff.mp htext).2
      split
      · trivial
      · next role hrole =>
        rw [lookup_roles hrole] at hne
        split
        · next ha =>
          refine ⟨ha, ?_⟩
          cases role with
          | admin => exact absurd (by rw [ha]) hne
          | user => rfl
        · next ha =>
          refine change_sound ?_
          rintro ⟨⟩
          cases hr : account.role with
          | admin => exact absurd hr ha
          | user => exact absurd (by rw [hr]) hne

theorem checked_of_not_admin {account : Account} (h : account.role ≠ .admin) :
    Checked ⟨account, none⟩ := fun ha => absurd ha h

/-- What a turn finds is kept until it is relied on. -/
theorem turn_sound (h : Sound point) (input : Input) : SoundStage (turn w point input).2 := by
  cases point with
  | updating id changes account => exact update_sound
  | counted id changes role account admins =>
    simp only [turn]
    split
    · trivial
    · next hm => exact change_sound fun _ => ⟨h.1, fun _ => ⟨admins, rfl, Nat.lt_of_not_le hm⟩⟩
  | cleared id found values => exact write_sound _ _
  | removing id account =>
    cases account with
    | none => trivial
    | some account =>
      simp only [turn, remove]
      split
      · next ha => exact ha
      · next ha => exact checked_of_not_admin ha
  | removalCounted id account admins =>
    simp only [turn]
    split
    · trivial
    · next hm => exact fun _ => ⟨admins, rfl, Nat.lt_of_not_le hm⟩
  | sessionsGone id found => exact h
  | devicesGone id found => exact h
  | asking provider claims =>
    simp only [turn]
    generalize (usernameOf provider claims).length = length
    repeat' split
    all_goals exact True.intro
  | creating | created | describing | written | removed | changing | checking | counting
  | storing | asserting | invitesGone | providing | provided | described | rematching | enabled
  | closing =>
    simp only [turn, signIn]
    repeat' split
    all_goals exact True.intro
  | verifying | matching | beginning | enabling | disabling =>
    simp only [turn, login, complete, signIn, begin, enable, disable]
    repeat' split
    all_goals exact True.intro

/-- A call that takes an admin away has found another one. -/
theorem checked_of_demotes (h : Sound point)
    (ht : turn w point input = (some statement, stage)) (hd : id ∈ demotes statement) :
    ∃ found ∈ foundAt point, Checked found := by
  obtain ⟨next, -, hi⟩ := turn_issues ht
  cases hi with
  | change hv =>
    simp only [demotes] at hd
    split at hd
    · exact absurd ‹_› hv.1
    · cases hd
  | demote hm hv => exact ⟨_, rfl, fun _ => ⟨_, rfl, hm⟩⟩
  | write =>
    simp only [demotes] at hd
    split at hd
    · exact ⟨_, rfl, (h ‹_›).2⟩
    · cases hd
  | destroy => exact ⟨_, rfl, h⟩
  | _ => cases hd

/-! ## Runs -/

/-- What every call has found bears out what it is about to do. -/
def AllSound : Server → Prop := Each Numbered fun _ call => SoundStage call.stage

theorem startTurn_sound (request : Request) : SoundStage (startTurn w request).2 := by
  cases request with
  | create username password role =>
    simp only [startTurn]
    repeat' split
    all_goals exact True.intro
  | _ => exact True.intro

theorem numbered_does (h : Numbered w) (t : Turn) : Numbered (does w t).1 := by
  obtain ⟨statement, stage⟩ := t
  cases statement with
  | none => exact h
  | some statement => exact h.run statement

variable {s t : Server} {e : Event Request Input}

theorem AllSound.step (h : AllSound s) (hst : machine.step s e = some t) : AllSound t := by
  rcases Handlers.step_cases hst with ⟨request, rfl, rfl⟩ | ⟨i, input, turns, point, rfl, hc, rfl⟩
  · exact .begins (numbered_does h.world _) (startTurn_sound request) h.calls
  · exact .goesOn (numbered_does h.world _) (turn_sound (h.calls i _ hc) input)
      fun k call _ hk => h.calls k call hk

theorem allSound_of_reachable (h : machine.Reachable s) : AllSound s :=
  h.invariant (fun s hs => ⟨hs.2.1, by simp [hs.1]⟩) fun _ _ _ hs _ hst => hs.step hst

theorem startTurn_demotes (request : Request) (h : (startTurn w request).1 = some statement) :
    demotes statement = none := by
  cases request with
  | logout session =>
    cases h
    rfl
  | create username password role =>
    simp only [startTurn] at h
    repeat' split at h
    all_goals cases h
  | _ => cases h

theorem HasAdmin.does (h : HasAdmin w) (hn : Numbered w) {t : Turn}
    (hd : ∀ statement ∈ t.1, ∀ id ∈ demotes statement,
      (∀ account ∈ w.byId id, account.role ≠ .admin) ∨ 1 < w.adminCount) :
    HasAdmin (does w t).1 := by
  obtain ⟨statement, stage⟩ := t
  cases statement with
  | none => exact h
  | some statement => exact h.run hn (hd statement rfl)

/-- What was found is still so, and there was another admin. -/
theorem StillSo.other {found : Found} (h : StillSo w id found) (hc : Checked found) :
    (∀ account ∈ w.byId id, account.role ≠ .admin) ∨ 1 < w.adminCount := by
  by_cases ha : found.account.role = .admin
  · obtain ⟨admins, hm, hmany⟩ := hc ha
    exact .inr (Nat.lt_of_lt_of_le hmany (h.2 admins hm))
  · refine .inl fun account hg hadmin => ha ?_
    rw [← h.1 account hg, hadmin]

theorem HasAdmin.step (h : HasAdmin s.world) (hs : AllSound s) (hok : Careful s e)
    (hst : machine.step s e = some t) : HasAdmin t.world := by
  rcases Handlers.step_cases hst with ⟨request, rfl, rfl⟩ | ⟨i, input, turns, point, rfl, hc, rfl⟩
  · refine h.does hs.world fun statement hm id hid => ?_
    rw [startTurn_demotes request hm] at hid
    cases hid
  · refine h.does hs.world fun statement hm id hid => ?_
    have hpoint := System.pointOf_of_call hc
    obtain ⟨found, hf, hchecked⟩ :=
      checked_of_demotes (hs.calls i _ hc) (Prod.ext hm rfl) hid
    exact (hok i input rfl point hpoint statement hm id hid found hf).other hchecked

/-- Where there is an admin, there is one in every later state, if what a call has found is
still so when it takes an admin away. -/
theorem hasAdmin_of_careful (s t : Server) (hs : machine.Reachable s) (ha : HasAdmin s.world)
    (ht : (machine.startingIn s).Reaches Careful t) : HasAdmin t.world := by
  have hboth : AllSound t ∧ HasAdmin t.world := by
    refine ht.invariant (I := fun u => AllSound u ∧ HasAdmin u.world) (fun u h => ?_)
      fun u v e hu hok hst => ⟨hu.1.step hst, hu.2.step hu.1 hok hst⟩
    rw [show u = s from h]
    exact ⟨allSound_of_reachable hs, ha⟩
  exact hboth.2

/-- Two admins. -/
def pair : Server := ⟨{
  accounts := ⟨[(0, ⟨"alice", "h0", .admin, none, false, none⟩),
    (1, ⟨"bob", "h1", .admin, none, false, none⟩)], by decide⟩
  names := ["alice", "bob"] }, []⟩

theorem pair_reachable : machine.Reachable pair := by
  refine .init ⟨rfl, fun id account h => ?_, rfl⟩
  have hm : (id, account) ∈ pair.world.accounts.entries := OrderedMap.mem_entries.mpr h
  simp only [pair, List.mem_cons, List.not_mem_nil, or_false, Prod.mk.injEq] at hm
  rcases hm with ⟨rfl, rfl⟩ | ⟨rfl, rfl⟩ <;> rfl

def demotion (id : AccountId) : Event Request Input := .call (.update id { role := some "user" })

theorem hasAdmin_demoted : ∃ t, machine.exec pair
    [demotion 1, .resume 0 {}, .resume 0 {}, .resume 0 {}] = some t ∧ HasAdmin t.world := by
  refine ⟨_, rfl, hasAdmin_of_careful pair _ pair_reachable (by decide) ?_⟩
  exact .exec (.init rfl) [demotion 1, .resume 0 {}, .resume 0 {}, .resume 0 {}]
    (by decide) rfl

/-- Two admins take the role from each other. -/
theorem not_always_hasAdmin : ¬ ∀ s t, machine.Reachable s → HasAdmin s.world →
    (machine.startingIn s).Reachable t → HasAdmin t.world := by
  intro hall
  obtain ⟨t, ht, hno⟩ : ∃ t, (machine.startingIn pair).exec pair [demotion 1, demotion 0,
      .resume 0 {}, .resume 1 {}, .resume 0 {}, .resume 1 {}] = some t ∧ ¬ HasAdmin t.world :=
    ⟨_, rfl, by decide⟩
  exact hno (hall pair t pair_reachable (by decide) (.exec (.init rfl) _ ht))

end Tunlit.Accounts.Admins
