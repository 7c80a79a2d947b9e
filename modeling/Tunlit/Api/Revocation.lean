import Tunlit.Api.Steps

/-! # What is left of a credential that was revoked

A token is looked up when a session begins. Its tunnel is attached later, and is looked for
once, when the credential has been taken away; accounts that are deleted are not looked for
at all. The history keeps the revocations and deletions that have completed. -/
namespace Tunlit.Api.Revocation
open Function Tunlit.Lib.Insertion Tunlit.Lib.Leases Tunlit.Lib.Runs Tunlit.Registry.State
  Tunlit.Registry.Register Tunlit.Registry.Leases Tunlit.Registry.Reach Tunlit.Registry.Calls
  Tunlit.Registry.Holders Tunlit.Registry.Occupants Tunlit.Api.Tables Tunlit.Api.Calls
  Tunlit.Api.System Tunlit.Api.Turns Tunlit.Api.Steps

structure History where
  server : Server
  revoked : List String := []
  deleted : List AccountId := []

namespace History

variable (h : History)

def world : World := h.server.world

/-- The end of a call that revokes a credential or deletes an account. -/
def completed (t : Server) : Option Job → History
  | some (.revoked credential) => { h with server := t, revoked := credential :: h.revoked }
  | some (.accountDestroyed accountId) => { h with server := t, deleted := accountId :: h.deleted }
  | _ => { h with server := t }

end History

def step (h : History) (e : Event) : Option History :=
  (System.step h.server e).map fun t => h.completed t (jobFor h.server e).join

/-- Nothing has completed yet, and no id is given that has been given before. -/
def machine : Machine History Event where
  init h := System.machine.init h.server ∧ h.revoked = [] ∧ h.deleted = [] ∧
    Numbered h.world.tables.credentials h.world.tables.usedCredentials ∧
    Numbered h.world.tables.accounts h.world.tables.usedAccounts
  step := step

/-- No tunnel is attached to a session that came in by a credential that is revoked. -/
def RevokedGone (h : History) : Prop :=
  ∀ owner ∈ attached h.world.hub, owner.credential ∉ h.revoked

/-- No tunnel is attached to a session of an account that is deleted. -/
def DeletedGone (h : History) : Prop :=
  ∀ owner ∈ attached h.world.hub, owner.account.id ∉ h.deleted

/-- The account whose row a turn destroys. -/
def destroyed : Job → Option AccountId
  | .invitesDestroyed accountId => some accountId
  | _ => none

/-- A session gets a tunnel only while its credential and its account are there, and an account
is destroyed only while no tunnel is attached to one of its sessions. -/
structure Current (h : History) (e : Event) : Prop where
  attaches : ∀ p ∈ turnFor h.server e, (returning h.world.hub p.2).isSome →
    ∀ owner ∈ ownerOf h.world.hub p.1, h.world.tables.credentials.has owner.credential = true ∧
      h.world.tables.accounts.has owner.account.id = true
  destroys : ∀ accountId ∈ (jobFor h.server e).join.bind destroyed,
    ∀ owner ∈ attached h.world.hub, owner.account.id ≠ accountId

instance (h : History) (e : Event) : Decidable (Current h e) :=
  decidable_of_iff (_ ∧ _) ⟨fun h => ⟨h.1, h.2⟩, fun h => ⟨h.attaches, h.destroys⟩⟩

variable {s t : Server} {e : Event} {g h : History} {r : TunnelRef} {x : SessionRef}
  {owner : Owner} {job : Job} {w : World} {hash : String}

/-! ## Rows -/

/-- The rows with ids, from one state of the database to another. -/
structure Aged (tables tables' : Database) : Prop where
  credentials : Ages tables.credentials tables'.credentials
    tables.usedCredentials tables'.usedCredentials
  accounts : Ages tables.accounts tables'.accounts tables.usedAccounts tables'.usedAccounts

theorem Aged.rfl {tables : Database} : Aged tables tables := ⟨.rfl, .rfl⟩

theorem aged_savePolicy {tables : Database} {name : String} {policy : Access.Policy.AccessPolicy} :
    Aged tables (tables.savePolicy name policy) := by
  unfold Database.savePolicy
  split
  · exact .rfl
  · exact ⟨.rfl, .rfl⟩

theorem aged_destroyCredentials {tables : Database} {accountId : AccountId} {invites : Bool} :
    Aged tables (tables.destroyCredentials accountId invites) := by
  refine ⟨?_, .rfl⟩
  simp only [Database.destroyCredentials]
  exact ages_filter

theorem aged_destroyAccount {tables : Database} {accountId : AccountId} :
    Aged tables (tables.destroyAccount accountId) := by
  refine ⟨?_, ages_delete⟩
  simp only [Database.destroyAccount]
  exact ages_filter

theorem aged_acts {w' : World} {before next : Option Job} (h : Acts w before w' next) :
    Aged w.tables w'.tables := by
  cases h with
  | saves _ _ => exact aged_savePolicy
  | updatesBoth _ _ _ => exact aged_savePolicy
  | signsOut => exact aged_destroyCredentials
  | deletes => exact aged_destroyAccount
  | revokes => exact ⟨ages_delete, .rfl⟩
  | _ => exact ⟨.rfl, .rfl⟩

/-- No step gives an id that has been given before. -/
theorem aged (hs : System.step s e = some t) : Aged s.world.tables t.world.tables := by
  have hm := moves hs
  generalize t.world = w at hm ⊢
  cases hm with
  | idle _ => exact .rfl
  | plain _ _ => exact .rfl
  | answers _ _ _ => exact .rfl
  | @waits x he hub call bytes _ _ _ =>
    show Aged _ (issue (s.world.withHub hub) call bytes).1
    rcases issue_tables (s.world.withHub hub) call bytes with h | ⟨r, -, h⟩
    · rw [h]; exact .rfl
    · rw [h]; exact aged_savePolicy
  | acts _ h => exact aged_acts h
  | account _ h =>
    unfold Database.putAccount at h
    split at h
    · next hold => cases h; exact ⟨.rfl, ages_set (fun _ => id) (.inl hold)⟩
    · split at h <;> cases h
      next hnew =>
      exact ⟨.rfl, ages_set (fun _ => List.mem_cons_of_mem _) (.inr ⟨hnew, List.mem_cons_self⟩)⟩
  | credential _ h =>
    unfold Database.createCredential at h
    split at h <;> cases h
    next hnew =>
    simp only [Bool.or_eq_true, not_or, decide_eq_true_eq] at hnew
    exact ⟨ages_set (fun _ => List.mem_cons_of_mem _) (.inr ⟨hnew.1, List.mem_cons_self⟩), .rfl⟩

/-! ## Calls that take rows away -/

/-- What a suspended call of the API knows of the rows. -/
def JobKnows (tables : Database) : Job → Prop
  | .credentialFound credential true => credential ∈ tables.usedCredentials
  | .revoked credential => Retired tables.credentials tables.usedCredentials credential
  | .accountFound accountId (some _) | .adminsCounted accountId _ | .sessionsDestroyed accountId |
    .devicesDestroyed accountId | .invitesDestroyed accountId => accountId ∈ tables.usedAccounts
  | .accountDestroyed accountId => Retired tables.accounts tables.usedAccounts accountId
  | _ => True

theorem jobKnows_aged {tables tables' : Database} (h : Aged tables tables') :
    ∀ {job}, JobKnows tables job → JobKnows tables' job := by
  intro job hj
  unfold JobKnows at hj ⊢
  split at hj <;> first
    | exact h.credentials.given _ hj
    | exact h.credentials.retired hj
    | exact h.accounts.given _ hj
    | exact h.accounts.retired hj
    | trivial

/-- The rows of a database have been given ids. -/
def Given (tables : Database) : Prop :=
  Numbered tables.credentials tables.usedCredentials ∧ Numbered tables.accounts tables.usedAccounts

theorem retired_delete {κ ν : Type} [DecidableEq κ] {rows : OrderedMap κ ν} {used : List κ} {k : κ}
    (h : k ∈ used) : Retired (rows.delete k) used k := by
  refine ⟨h, ?_⟩
  rw [OrderedMap.has_eq_false, OrderedMap.get_delete, if_pos rfl]

theorem jobKnows_step (hn : Given s.world.tables)
    (hk : ∀ j job, s.jobs j = some job → JobKnows s.world.tables job)
    (hs : System.step s e = some t) {j : JobRef} (hj : t.jobs j = some job) :
    JobKnows t.world.tables job := by
  rcases jobs_step hs hj with ⟨-, hold⟩ | ⟨-, hb⟩ | @⟨hash, before, hbefore, hf⟩
  · exact jobKnows_aged (aged hs) (hk j job hold)
  · refine jobKnows_aged (aged hs) ?_
    cases hb with
    | @accountFound accountId =>
      cases ha : s.world.tables.accounts.get accountId with
      | none => trivial
      | some row => exact hn.2 accountId (OrderedMap.has_eq_true.mpr ⟨row, ha⟩)
    | @credentialFound viewer credential =>
      cases hm : s.world.mayRevoke viewer credential with
      | false => trivial
      | true =>
        obtain ⟨row, hr, -⟩ := (Option.any_eq_true ..).mp hm
        exact hn.1 credential (OrderedMap.has_eq_true.mpr ⟨row, hr⟩)
    | _ => trivial
  · have hw := goOn_world hs hbefore
    have hknows := hk j before hbefore
    cases hf with
    | revoked => rw [hw]; exact retired_delete hknows
    | accountDestroyed => rw [hw]; exact retired_delete hknows
    | adminsCounted | memberFound | adminFound | devicesDestroyed | invitesDestroyed =>
      exact (aged hs).accounts.given _ hknows
    | undomains hu => cases hu <;> trivial
    | _ => trivial

/-! ## Who stays attached -/

/-- The deletion of an account has been carried out, or has completed. -/
def Deleted (h : History) (accountId : AccountId) : Prop :=
  accountId ∈ h.deleted ∨ ∃ j, h.server.jobs j = some (.accountDestroyed accountId)

structure Gone (h : History) : Prop where
  given : Given h.world.tables
  jobs : ∀ j job, h.server.jobs j = some job → JobKnows h.world.tables job
  revoked : ∀ credential ∈ h.revoked,
    Retired h.world.tables.credentials h.world.tables.usedCredentials credential
  deleted : ∀ accountId ∈ h.deleted,
    Retired h.world.tables.accounts h.world.tables.usedAccounts accountId
  revokedGone : RevokedGone h
  deletedGone : ∀ owner ∈ attached h.world.hub, ¬ Deleted h owner.account.id

theorem server_step (hs : step h e = some g) : System.step h.server e = some g.server ∧
    g = h.completed g.server (jobFor h.server e).join := by
  obtain ⟨t, ht, rfl⟩ := Option.map_eq_some_iff.mp hs
  have hserver : (h.completed t (jobFor h.server e).join).server = t := by
    unfold History.completed
    split <;> rfl
  rw [hserver]
  exact ⟨ht, rfl⟩

theorem server_reaches {ok : History → Event → Prop} (hr : machine.Reaches ok h) :
    System.Reachable h.server := by
  induction hr with
  | init hi => exact .init hi.1
  | step _ _ hs ih => exact ih.step (server_step hs).1

/-- What is revoked after a step. -/
theorem revoked_step (hs : step h e = some g) {credential : String} (hc : credential ∈ g.revoked) :
    credential ∈ h.revoked ∨ jobFor h.server e = some (some (.revoked credential)) := by
  rw [(server_step hs).2] at hc
  unfold History.completed at hc
  split at hc
  · next c hj =>
    rcases List.mem_cons.mp hc with rfl | hc
    · exact .inr (Option.join_eq_some_iff.mp hj)
    · exact .inl hc
  · exact .inl hc
  · exact .inl hc

theorem deleted_step (hs : step h e = some g) {accountId : AccountId}
    (ha : accountId ∈ g.deleted) : accountId ∈ h.deleted ∨
      jobFor h.server e = some (some (.accountDestroyed accountId)) := by
  rw [(server_step hs).2] at ha
  unfold History.completed at ha
  split at ha
  · exact .inl ha
  · next a hj =>
    rcases List.mem_cons.mp ha with rfl | ha
    · exact .inr (Option.join_eq_some_iff.mp hj)
    · exact .inl ha
  · exact .inl ha

/-- A deletion is carried out where the row of the account is destroyed. -/
theorem deleted_origin (hs : step h e = some g) {accountId : AccountId}
    (ha : Deleted g accountId) : Deleted h accountId ∨
      jobFor h.server e = some (some (.invitesDestroyed accountId)) := by
  have hserver := (server_step hs).1
  rcases ha with ha | ⟨j, hj⟩
  · refine .inl ((deleted_step hs ha).imp_right fun hjob => ?_)
    obtain ⟨j, _, -, hj⟩ := job_of_jobFor hjob
    exact ⟨j, hj⟩
  · rcases jobs_step hserver hj with ⟨-, hold⟩ | ⟨-, hb⟩ | ⟨hbefore, hf⟩
    · exact .inl (.inr ⟨j, hold⟩)
    · cases hb
    · cases hf with
      | undomains hu => cases hu
      | accountDestroyed => exact .inr (congrArg (Option.map some) hbefore)

/-- The owner of a session that has just been attached is still there. -/
theorem attached_new (hok : Current h e) (hs : System.step h.server e = some t)
    (hr : Returns h.server e t x r) (ho : ownerOf t.world.hub x = some owner) :
    h.world.tables.credentials.has owner.credential = true ∧
      h.world.tables.accounts.has owner.account.id = true := by
  obtain ⟨he, call, resumed, ht, hc, hp⟩ := hr
  obtain ⟨-, hret, hown⟩ := Returns.returning hs ⟨he, call, resumed, ht, hc, hp⟩ ht ho
  exact hok.attaches (x, he) ht hret owner hown

theorem not_retired {κ ν : Type} [DecidableEq κ] {rows : OrderedMap κ ν} {used : List κ} {k : κ}
    (hk : rows.has k = true) : ¬ Retired rows used k := fun h => by
  rw [h.2] at hk
  cases hk

theorem not_returns_of_job {job : Option Job} (hj : jobFor s e = some job) :
    ¬ Returns s e t x r := by
  rintro ⟨he, call, resumed, ht, -⟩
  rw [turnFor_of_jobFor hj] at ht
  cases ht

theorem Gone.revokedGone_step (hr : System.Reachable h.server) (hg : Gone h) (hok : Current h e)
    (hs : step h e = some g) : RevokedGone g := by
  intro owner ho hrev
  have hserver := (server_step hs).1
  rcases revoked_step hs hrev with hold | hjob
  · rcases attached_step (basic hr) (seats hr) hserver ho with hwas | ⟨x, r, hnew, hown⟩
    · exact hg.revokedGone owner hwas hold
    · exact not_retired (attached_new hok hserver hnew hown).1 (hg.revoked _ hold)
  · obtain ⟨j, hash, rfl, hj⟩ := job_of_jobFor hjob
    have hw : g.world = _ := goOn_world hserver hj
    rw [hw] at ho
    exact attached_closeCredential (basic hr) (seats hr) ho rfl

theorem Gone.deletedGone_step (hr : System.Reachable h.server) (hg : Gone h) (hok : Current h e)
    (hs : step h e = some g) : ∀ owner ∈ attached g.world.hub, ¬ Deleted g owner.account.id := by
  intro owner ho hdel
  have hserver := (server_step hs).1
  have hretired : Deleted h owner.account.id →
      Retired h.world.tables.accounts h.world.tables.usedAccounts owner.account.id := by
    rintro (hdel | ⟨j, hj⟩)
    · exact hg.deleted _ hdel
    · exact hg.jobs j _ hj
  rcases attached_step (basic hr) (seats hr) hserver ho with hwas | ⟨x, r, hnew, hown⟩
  · rcases deleted_origin hs hdel with hold | hjob
    · exact hg.deletedGone owner hwas hold
    · exact hok.destroys owner.account.id (by rw [hjob]; rfl) owner hwas rfl
  · rcases deleted_origin hs hdel with hold | hjob
    · exact not_retired (attached_new hok hserver hnew hown).2 (hretired hold)
    · exact not_returns_of_job hjob hnew

theorem Gone.step (hr : System.Reachable h.server) (hg : Gone h) (hok : Current h e)
    (hs : step h e = some g) : Gone g := by
  have hserver := (server_step hs).1
  have haged := aged hserver
  refine ⟨⟨haged.credentials.numbered hg.given.1, haged.accounts.numbered hg.given.2⟩,
    fun j job => jobKnows_step hg.given hg.jobs hserver, fun credential hc => ?_,
    fun accountId ha => ?_, hg.revokedGone_step hr hok hs, hg.deletedGone_step hr hok hs⟩
  · refine haged.credentials.retired ?_
    rcases revoked_step hs hc with hold | hjob
    · exact hg.revoked credential hold
    · obtain ⟨j, _, -, hj⟩ := job_of_jobFor hjob
      exact hg.jobs j _ hj
  · refine haged.accounts.retired ?_
    rcases deleted_step hs ha with hold | hjob
    · exact hg.deleted accountId hold
    · obtain ⟨j, _, -, hj⟩ := job_of_jobFor hjob
      exact hg.jobs j _ hj

theorem gone (hr : machine.Reaches Current h) : Gone h := by
  induction hr with
  | init hi =>
    obtain ⟨⟨⟨config, hc⟩, -, -, hjobs⟩, hrev, hdel, hcred, hacc⟩ := hi
    have hnone : attached _ = [] := congrArg attached hc
    refine ⟨⟨hcred, hacc⟩, fun j job hj => ?_, fun c hc => ?_, fun a ha => ?_, fun owner ho => ?_,
      fun owner ho => ?_⟩
    · rw [hjobs j] at hj; cases hj
    · rw [hrev] at hc; cases hc
    · rw [hdel] at ha; cases ha
    · rw [History.world, hnone] at ho; cases ho
    · rw [History.world, hnone] at ho; cases ho
  | step hr hok hs ih => exact ih.step (server_reaches hr) hok hs

/-- Sessions get tunnels only while their credentials and accounts are there, and accounts are
destroyed only when none of their sessions has one: then, in every later state, no tunnel is
attached to a session that came in by a credential that was revoked, or is of an account that
was deleted. -/
theorem gone_for_good (h : History) (hr : machine.Reaches Current h) :
    RevokedGone h ∧ DeletedGone h :=
  ⟨(gone hr).revokedGone, fun owner ho hd => (gone hr).deletedGone owner ho (.inl hd)⟩

/-! ## Runs -/

def sampleStart : History := { server := sample NONE }

theorem sampleStart_init : machine.init sampleStart :=
  ⟨sample_init NONE, rfl, rfl, numbered_of_entries (by decide), numbered_of_entries (by decide)⟩

/-- Alice opens a tunnel. -/
def opened : List Event :=
  signsIn 0 "t1" ++ [asks 0 "web", proceeds 0, proceeds 0, proceeds 0]

/-- Her device is revoked. -/
def revoked : List Event := opened ++ calls 0 (.revoke alice "device:1") 2

/-- The device is revoked before she opens the tunnel. -/
def revokedEarly : List Event :=
  signsIn 0 "t1" ++ calls 0 (.revoke alice "device:1") 2 ++
    [asks 0 "web", proceeds 0, proceeds 0, proceeds 0]

/-- Her account is deleted. -/
def deleted : List Event := opened ++ calls 0 (.removeAccount 1) 5

theorem gone_for_good_revoked : ∃ h, machine.exec sampleStart revoked = some h ∧
    h.revoked = ["device:1"] ∧ RevokedGone h ∧ DeletedGone h := by
  have hend : (machine.exec sampleStart revoked).map History.revoked = some ["device:1"] := by
    decide
  obtain ⟨h, he, hrev⟩ := Option.map_eq_some_iff.mp hend
  have hok : machine.Allowed Current sampleStart revoked := by decide
  exact ⟨h, he, hrev, gone_for_good h (Machine.Reaches.exec (.init sampleStart_init) _ hok he)⟩

/-- A session that was let in before its device was revoked still opens a tunnel, and the tunnels
of an account stay when it is deleted. -/
theorem not_always_gone : (¬ ∀ h, machine.Reachable h → RevokedGone h) ∧
    ¬ ∀ h, machine.Reachable h → DeletedGone h := by
  constructor
  · intro hall
    have hend : (machine.exec sampleStart revokedEarly).map (fun h =>
        ((attached h.world.hub).map Owner.credential, h.revoked)) =
        some (["device:1"], ["device:1"]) := by decide
    obtain ⟨h, he, hs⟩ := Option.map_eq_some_iff.mp hend
    obtain ⟨hattached, hlist⟩ := Prod.mk.inj hs
    have hgone := hall h (Machine.Reachable.exec (.init sampleStart_init) _ he)
    have hmem : "device:1" ∈ (attached h.world.hub).map Owner.credential := by
      rw [hattached]
      exact List.mem_singleton.mpr rfl
    obtain ⟨owner, ho, hc⟩ := List.mem_map.mp hmem
    refine hgone owner ho ?_
    rw [hc, hlist]
    exact List.mem_singleton.mpr rfl
  · intro hall
    have hend : (machine.exec sampleStart deleted).map (fun h =>
        ((attached h.world.hub).map fun owner => owner.account.id, h.deleted)) =
        some ([1], [1]) := by decide
    obtain ⟨h, he, hs⟩ := Option.map_eq_some_iff.mp hend
    obtain ⟨hattached, hlist⟩ := Prod.mk.inj hs
    have hgone := hall h (Machine.Reachable.exec (.init sampleStart_init) _ he)
    have hmem : 1 ∈ (attached h.world.hub).map fun owner => owner.account.id := by
      rw [hattached]
      exact List.mem_singleton.mpr rfl
    obtain ⟨owner, ho, ha⟩ := List.mem_map.mp hmem
    refine hgone owner ho ?_
    rw [ha, hlist]
    exact List.mem_singleton.mpr rfl

end Tunlit.Api.Revocation
