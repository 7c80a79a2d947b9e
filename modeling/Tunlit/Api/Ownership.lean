import Tunlit.Api.Steps

/-! # Whose names and hosts they are

Who may have a name, or a host under it, is checked before the awaits of a call, and written
behind them to another place: the tunnels of the registry, the definitions, the rows of the
domains and the hosts that are served. -/
namespace Tunlit.Api.Ownership
open Function Tunlit.Lib.Insertion Tunlit.Lib.Runs Tunlit.Registry.State Tunlit.Registry.Register
  Tunlit.Registry.Leases Tunlit.Registry.Steps Tunlit.Registry.Reach Tunlit.Registry.Calls
  Tunlit.Registry.Holders Tunlit.Api.Tables Tunlit.Api.Calls Tunlit.Api.System Tunlit.Api.Turns
  Tunlit.Api.Steps

/-- A live tunnel under a reserved name is one of the account that has reserved it. -/
def NamesOwned (w : World) : Prop := ∀ id r d, w.hub.tunnels.get id = some r →
  w.tables.definitions.get id = some d → (w.hub.heap r).accountId = d.accountId

/-- The host has a row, and its tunnel is reserved by the account of the row. -/
def Backed (w : World) (hostname name : String) : Prop :=
  ∃ row ∈ w.tables.domains.get hostname, row.tunnelName = name ∧
    ∃ d ∈ w.tables.definitions.get name, d.accountId = row.accountId

instance (w : World) (hostname name : String) : Decidable (Backed w hostname name) :=
  inferInstanceAs (Decidable (∃ row ∈ _, _))

/-- Every host that is served is backed. -/
def HostsOwned (w : World) : Prop :=
  ∀ hostname name, w.byHost.get hostname = some name → Backed w hostname name

/-! ## What is checked again -/

/-- The check that a call of the API has made before it waited would still pass now that it
writes: nobody else has a live tunnel of that name, the definition and the row of a host are
there, and what is taken away is not served any more. -/
def JobChecked (w : World) : Job → Prop
  | .looked c _ false => (w.tables.createDefinition c.name ⟨c.accountId, c.policy⟩).isSome →
      ∀ r ∈ w.hub.tunnels.get c.name, (w.hub.heap r).accountId = c.accountId
  | .domainStored name hostname _ true => Backed w hostname name
  | .loaded viewer name .remove (some d) => World.mayUse viewer d → w.hostsFor name = []
  | .loaded viewer name (.removeDomain hostname) (some d) => World.mayUse viewer d →
      w.byHost.get (Js.Text.toLowerCase (Js.Text.trim hostname)) ≠ some name
  | .hostForgotten name [] => w.hostsFor name = []
  | .hostForgotten _ (hostname :: _) => w.byHost.get hostname = none
  | .invitesDestroyed accountId => ∀ entry ∈ w.tables.domains.entries,
      entry.2.accountId = accountId → w.byHost.get entry.1 = none
  | _ => True

instance (w : World) : ∀ job, Decidable (JobChecked w job)
  | .looked c _ false => inferInstanceAs (Decidable
      (_ → ∀ r ∈ w.hub.tunnels.get c.name, (w.hub.heap r).accountId = c.accountId))
  | .domainStored name hostname _ true => inferInstanceAs (Decidable (Backed w hostname name))
  | .loaded viewer name .remove (some d) =>
    inferInstanceAs (Decidable (World.mayUse viewer d → w.hostsFor name = []))
  | .loaded viewer name (.removeDomain hostname) (some d) => inferInstanceAs (Decidable
      (World.mayUse viewer d →
        w.byHost.get (Js.Text.toLowerCase (Js.Text.trim hostname)) ≠ some name))
  | .hostForgotten name [] => inferInstanceAs (Decidable (w.hostsFor name = []))
  | .hostForgotten _ (hostname :: _) =>
    inferInstanceAs (Decidable (w.byHost.get hostname = none))
  | .invitesDestroyed accountId => inferInstanceAs (Decidable (∀ entry ∈ w.tables.domains.entries,
      entry.2.accountId = accountId → w.byHost.get entry.1 = none))
  | .looked _ _ true | .domainStored _ _ _ false | .loaded _ _ .remove none |
    .loaded _ _ (.removeDomain _) none | .loaded _ _ (.updateAccess _) _ |
    .loaded _ _ (.addDomain _) _ | .listed .. | .named .. | .limited .. | .stored .. | .reread .. | .saved .. | .accessSaved _ |
    .hostDestroyed .. | .dropped _ | .domainsCounted .. | .domainsLimited .. |
    .domainDestroyed _ | .accountFound .. | .adminsCounted .. | .sessionsDestroyed _ |
    .devicesDestroyed _ | .accountDestroyed _ | .credentialFound .. | .revoked _ => isTrue trivial

/-- Every check would still pass where its call writes. -/
structure StillChecked (s : Server) (e : Event) : Prop where
  register : ∀ p ∈ turnFor s e, ∀ call ∈ callOf s.world.hub p.1,
    ∀ q ∈ returning s.world.hub p.2, q.resumed = false →
    ∀ d ∈ s.world.tables.definitions.get q.id, d.accountId = call.owner.account.id
  api : ∀ job ∈ (jobFor s e).join, JobChecked s.world job

instance (s : Server) (e : Event) : Decidable (StillChecked s e) :=
  decidable_of_iff (_ ∧ _) ⟨fun h => ⟨h.1, h.2⟩, fun h => ⟨h.register, h.api⟩⟩

variable {s t : Server} {e : Event} {id hostname name : String} {r : TunnelRef}

/-! ## Definitions and rows -/

/-- Where a definition comes from. -/
theorem definition_origin {d : Definition} (hs : step s e = some t)
    (hd : t.world.tables.definitions.get id = some d) :
    (∃ d', s.world.tables.definitions.get id = some d' ∧ d'.accountId = d.accountId) ∨
    ∃ c counted, jobFor s e = some (some (.looked c counted false)) ∧ id = c.name ∧
      d.accountId = c.accountId ∧
      (s.world.tables.createDefinition c.name ⟨c.accountId, c.policy⟩).isSome := by
  have hr := definitions_step hs
  generalize t.world.tables.definitions = definitions at hr hd
  cases hr with
  | same => exact .inl ⟨d, hd, rfl⟩
  | @creates c counted hj hn ha =>
    rw [OrderedMap.get_set] at hd
    split at hd
    · next hid =>
      cases hd
      refine .inr ⟨c, counted, hj, hid.symm, rfl, ?_⟩
      rw [Database.createDefinition, OrderedMap.has_eq_false.mpr hn, ha]
      rfl
    · exact .inl ⟨d, hd, rfl⟩
  | saves =>
    rw [get_savePolicy] at hd
    obtain ⟨d', hd', rfl⟩ := Option.map_eq_some_iff.mp hd
    refine .inl ⟨d', hd', ?_⟩
    split <;> rfl
  | drops _ _ =>
    rw [OrderedMap.get_delete] at hd
    split at hd
    · cases hd
    · exact .inl ⟨d, hd, rfl⟩
  | deletes _ => exact .inl ⟨d, (OrderedMap.get_filter_eq_some.mp hd).1, rfl⟩

/-- A definition that is not taken away stays that of its account. -/
theorem definition_kept {d : Definition} (hs : step s e = some t)
    (hd : s.world.tables.definitions.get name = some d)
    (hdrop : ∀ job, jobFor s e = some (some job) → ¬ Drops job name)
    (hdelete : jobFor s e ≠ some (some (.invitesDestroyed d.accountId))) :
    ∃ d', t.world.tables.definitions.get name = some d' ∧ d'.accountId = d.accountId := by
  have hr := definitions_step hs
  generalize t.world.tables.definitions = definitions at hr ⊢
  cases hr with
  | same => exact ⟨d, hd, rfl⟩
  | @creates c counted hj hn _ =>
    have hne : c.name ≠ name := by rintro rfl; rw [hn] at hd; cases hd
    exact ⟨d, by rw [OrderedMap.get_set, if_neg hne, hd], rfl⟩
  | saves =>
    refine ⟨_, by rw [get_savePolicy, hd]; rfl, ?_⟩
    split <;> rfl
  | @drops job name' hj hd' =>
    have hne : name' ≠ name := by rintro rfl; exact hdrop job hj hd'
    exact ⟨d, by rw [OrderedMap.get_delete, if_neg hne, hd], rfl⟩
  | @deletes accountId hj =>
    have hne : d.accountId ≠ accountId := by rintro rfl; exact hdelete hj
    exact ⟨d, OrderedMap.get_filter_eq_some.mpr ⟨hd, decide_eq_true hne⟩, rfl⟩

/-- A row that is not taken away stays. -/
theorem row_kept {row : DomainRow} (hs : step s e = some t)
    (hr : s.world.tables.domains.get hostname = some row)
    (hdestroy : ∀ job next, jobFor s e = some (some job) → ¬ Undomains s.world job hostname next)
    (hdelete : jobFor s e ≠ some (some (.invitesDestroyed row.accountId))) :
    t.world.tables.domains.get hostname = some row := by
  have hd := domains_step hs
  generalize t.world.tables.domains = domains at hd ⊢
  cases hd with
  | same => exact hr
  | creates _ _ hn =>
    rw [OrderedMap.get_set, if_neg, hr]
    intro he
    rw [he, hr] at hn
    cases hn
  | @destroys job hostname' next hj hu =>
    rw [OrderedMap.get_delete, if_neg, hr]
    rintro rfl
    exact hdestroy job next hj hu
  | @deletes accountId hj =>
    have hne : row.accountId ≠ accountId := by rintro rfl; exact hdelete hj
    exact OrderedMap.get_filter_eq_some.mpr ⟨hr, decide_eq_true hne⟩

/-- A host is served when its row has been stored. -/
theorem host_origin (hs : step s e = some t) (hh : t.world.byHost.get hostname = some name) :
    s.world.byHost.get hostname = some name ∨
      ∃ accountId, jobFor s e = some (some (.domainStored name hostname accountId true)) := by
  have hm := moves hs
  generalize t.world = w at hm hh
  cases hm with
  | acts hj h =>
    cases h with
    | unserves _ =>
      replace hh := (OrderedMap.get_delete ..).symm.trans hh
      split at hh
      · cases hh
      · exact .inl hh
    | serves =>
      replace hh := (OrderedMap.get_set ..).symm.trans hh
      split at hh
      · next heq =>
        cases hh
        exact .inr ⟨_, heq ▸ hj⟩
      · exact .inl hh
    | _ => exact .inl hh
  | _ => exact .inl hh

/-! ## Names -/

/-- A call that returns a new tunnel had been waiting, for the same account. -/
theorem returned_account {x : SessionRef} {he : Registry.System.Event} {call : Call}
    (hb : Basic s.world.hub) (hok : StillChecked s e) (hs : step s e = some t)
    (ht : turnFor s e = some (x, he)) (hc : Comes s.world.hub x he t.world.hub call)
    (hp : call.point = .returned r false) (hr : t.world.hub.tunnels.get id = some r)
    {d : Definition} (hd : s.world.tables.definitions.get id = some d) :
    d.accountId = call.owner.account.id := by
  have hpoint : pointOf t.world.hub x = some (.returned r false) := by
    rw [pointOf_eq_callOf, hc.waiting, ← hp]
    rfl
  have hid : (t.world.hub.heap r).id = id := ((basic_step hb hs).sound.named id r hr).1
  have hq := (returning_eq_some (q := ⟨x, r, (t.world.hub.heap r).id, false⟩)
    (step_of_turnFor ht hs)).mpr ⟨turnOf_of_turnFor ht, hpoint, rfl⟩
  rw [hid] at hq
  generalize hhub : t.world.hub = hub at hc
  cases hc with
  | begins _ _ hstart =>
    rcases start_point hstart with h | ⟨q, h | h⟩ <;> rw [h] at hp <;> cases hp
  | goesOn hbefore _ => exact hok.register (x, _) ht _ hbefore _ hq rfl d hd

theorem names_step (hb : Basic s.world.hub) (ht : Theirs s.world.hub) (hn : NamesOwned s.world)
    (hok : StillChecked s e) (hs : step s e = some t) : NamesOwned t.world := by
  intro id r d hr hd
  rcases registered_step hb hs hr with hold | ⟨x, he, call, hturn, hcomes, hp⟩
  · rw [accountId_step hs (lt_of_registered hb hold)]
    rcases definition_origin hs hd with ⟨d', hd', ha⟩ | ⟨c, counted, hj, rfl, ha, hdone⟩
    · exact (hn id r d' hold hd').trans ha
    · exact (hok.api _ (congrArg Option.join hj) hdone r hold).trans ha.symm
  · rw [hcomes.account ht (.inr hp)]
    rcases definition_origin hs hd with ⟨d', hd', ha⟩ | ⟨c, counted, hj, -, -, -⟩
    · exact (returned_account hb hok hs hturn hcomes hp hr hd').symm.trans ha
    · rw [turnFor_of_jobFor hj] at hturn
      cases hturn

/-! ## Hosts -/

theorem hosts_step (hh : HostsOwned s.world) (hok : StillChecked s e) (hs : step s e = some t) :
    HostsOwned t.world := by
  intro hostname name hhost
  have hkept : Backed s.world hostname name →
      (∀ job next, jobFor s e = some (some job) → ¬ Undomains s.world job hostname next) →
      (∀ job, jobFor s e = some (some job) → ¬ Drops job name) →
      (∀ row, s.world.tables.domains.get hostname = some row →
        jobFor s e ≠ some (some (.invitesDestroyed row.accountId))) →
      Backed t.world hostname name := by
    rintro ⟨row, hr, hn, d, hd, ha⟩ hu hdrop hdelete
    obtain ⟨d', hd', ha'⟩ := definition_kept hs hd hdrop (ha ▸ hdelete row hr)
    exact ⟨row, row_kept hs hr hu (hdelete row hr), hn, d', hd', ha'.trans ha⟩
  rcases host_origin hs hhost with hold | ⟨accountId, hj⟩
  · refine hkept (hh hostname name hold) ?_ ?_ ?_
    · intro job next hj hu
      have hc := hok.api job (congrArg Option.join hj)
      cases hu with
      | first hm hhosts =>
        have hc := hc hm
        rw [hhosts] at hc
        cases hc
      | next =>
        replace hc : s.world.byHost.get hostname = none := hc
        rw [hold] at hc
        cases hc
      | single hm hi hserved => exact hc hm (hi ▸ hserved)
    · intro job hj hd
      have hc := hok.api job (congrArg Option.join hj)
      have hmem : hostname ∈ s.world.hostsFor name :=
        List.mem_map.mpr ⟨(hostname, name), List.mem_filter.mpr
          ⟨OrderedMap.mem_entries.mpr hold, decide_eq_true rfl⟩, rfl⟩
      cases hd with
      | atOnce hm => rw [hc hm] at hmem; cases hmem
      | afterHosts =>
        replace hc : s.world.hostsFor name = [] := hc
        rw [hc] at hmem
        cases hmem
    · intro row hr hj
      have hc := hok.api _ (congrArg Option.join hj) (hostname, row)
        (OrderedMap.mem_entries.mpr hr) rfl
      rw [hold] at hc
      cases hc
  · refine hkept (hok.api _ (congrArg Option.join hj)) ?_ ?_ ?_
    · intro job next hj' hu
      rw [hj] at hj'
      cases hj'
      cases hu
    · intro job hj' hd
      rw [hj] at hj'
      cases hj'
      cases hd
    · intro row _ hj'
      rw [hj] at hj'
      cases hj'

/-! ## Every state -/

/-- Each check would still pass where its call writes: then, in every state of a run that
starts with hosts that are backed, a live tunnel under a reserved name is one of the account
that has reserved it, and a host that is served has a row, and a tunnel that is reserved by
the account of the row. -/
theorem names_and_hosts_owned (start s : Server) (hi : machine.init start)
    (hh : HostsOwned start.world) (hr : (machine.startingIn start).Reaches StillChecked s) :
    NamesOwned s.world ∧ HostsOwned s.world := by
  induction hr with
  | init he =>
    obtain rfl := he
    obtain ⟨⟨config, hc⟩, -⟩ := hi
    refine ⟨fun id r d hr => ?_, hh⟩
    rw [hc] at hr
    cases hr
  | step hr hok hs ih =>
    have hreach := (Machine.Reaches.init hi).append hr fun _ _ h => h
    exact ⟨names_step (basic hreach) (theirs hreach) ih.1 hok hs, hosts_step ih.2 hok hs⟩

/-! ## Runs -/

/-- Alice reserves a name and adds a host to it. -/
def reserves : List Event :=
  calls 0 (.create alice "web" {}) 6 ++
    calls 1 (.own alice "web" (.addDomain "app.example.com")) 4

/-- Then she opens the tunnel. -/
def opens : List Event :=
  reserves ++ signsIn 0 "t1" ++ [asks 0 "web", proceeds 0, proceeds 0, proceeds 0]

/-- Bob reserves the name while Alice's tunnel is being opened. -/
def overtaken : List Event :=
  signsIn 0 "t1" ++ [asks 0 "web", proceeds 0, proceeds 0] ++
    calls 0 (.create bob "web" {}) 6 ++ [proceeds 0]

/-- Alice's account is removed. -/
def deleted : List Event := reserves ++ calls 2 (.removeAccount 1) 5

theorem owned_by_alice : ∃ s, machine.exec (sample NONE) opens = some s ∧
    s.world.hub.tunnels.get "web" = some 0 ∧
    s.world.byHost.get "app.example.com" = some "web" ∧
    NamesOwned s.world ∧ HostsOwned s.world := by
  have hend : (machine.exec (sample NONE) opens).map (fun s =>
      (s.world.hub.tunnels.get "web", s.world.byHost.get "app.example.com")) =
      some (some 0, some "web") := by decide
  obtain ⟨s, he, hs⟩ := Option.map_eq_some_iff.mp hend
  have hok : (machine.startingIn (sample NONE)).Allowed StillChecked (sample NONE) opens := by
    decide
  have hrun := Machine.Reaches.exec (.init rfl) opens hok he
  have hstart : HostsOwned (sample NONE).world := fun _ _ h => by cases h
  exact ⟨s, he, congrArg Prod.fst hs, congrArg Prod.snd hs,
    names_and_hosts_owned (sample NONE) s (sample_init NONE) hstart hrun⟩

/-- A name that is reserved while another account registers it gets two owners, and the hosts of
an account are still served when it has been removed. -/
theorem not_always_owned : ¬ (∀ start s, machine.init start → HostsOwned start.world →
      (machine.startingIn start).Reachable s → NamesOwned s.world) ∧
    ¬ ∀ start s, machine.init start → HostsOwned start.world →
      (machine.startingIn start).Reachable s → HostsOwned s.world := by
  have hstart : HostsOwned (sample NONE).world := fun _ _ h => by cases h
  constructor
  · intro hall
    have hend : (machine.exec (sample NONE) overtaken).map (fun s =>
        (s.world.hub.tunnels.get "web", (s.world.hub.heap 0).accountId,
          (s.world.tables.definitions.get "web").map Definition.accountId)) =
        some (some 0, 1, some 2) := by decide
    obtain ⟨s, he, hs⟩ := Option.map_eq_some_iff.mp hend
    have hrun : (machine.startingIn (sample NONE)).Reachable s :=
      Machine.Reachable.exec (.init rfl) overtaken he
    obtain ⟨d, hd, ha⟩ := Option.map_eq_some_iff.mp (congrArg (·.2.2) hs)
    have howned := hall (sample NONE) s (sample_init NONE) hstart hrun "web" 0 d
      (congrArg Prod.fst hs) hd
    have htwo := (congrArg (·.2.1) hs).symm.trans (howned.trans ha)
    cases htwo
  · intro hall
    have hend : (machine.exec (sample NONE) deleted).map (fun s =>
        (s.world.byHost.get "app.example.com", s.world.tables.domains.get "app.example.com")) =
        some (some "web", none) := by decide
    obtain ⟨s, he, hs⟩ := Option.map_eq_some_iff.mp hend
    have hrun : (machine.startingIn (sample NONE)).Reachable s :=
      Machine.Reachable.exec (.init rfl) deleted he
    obtain ⟨row, hrow, -⟩ := hall (sample NONE) s (sample_init NONE) hstart hrun
      "app.example.com" "web" (congrArg Prod.fst hs)
    have hnone := (congrArg Prod.snd hs).symm.trans hrow
    cases hnone

end Tunlit.Api.Ownership
