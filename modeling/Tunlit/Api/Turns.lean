import Tunlit.Api.System

/-! # What one turn of an API call does

The inversion of `begin` and `goOn`: most turns only read, and each of the others makes one
change, which is said here with what the call had read before. -/
namespace Tunlit.Api.Turns
open Function Tunlit.Js.Text Tunlit.Lib.Insertion Tunlit.Access.Policy Tunlit.Registry.State
  Tunlit.Registry.Register Tunlit.Registry.System Tunlit.Api.Tables Tunlit.Api.Calls

/-- The turns in which a definition is removed. -/
inductive Drops : Job → String → Prop
  | atOnce {viewer name d} (hm : World.mayUse viewer d = true) :
      Drops (.loaded viewer name .remove (some d)) name
  | afterHosts {name} : Drops (.hostForgotten name []) name

/-- The turns in which the row of a domain is removed, and the wait behind them. -/
inductive Undomains (w : World) : Job → String → Job → Prop
  | first {viewer name d hostname rest} (hm : World.mayUse viewer d = true)
      (hh : w.hostsFor name = hostname :: rest) :
      Undomains w (.loaded viewer name .remove (some d)) hostname
        (.hostDestroyed name hostname rest)
  | next {name hostname rest} : Undomains w (.hostForgotten name (hostname :: rest)) hostname
      (.hostDestroyed name hostname rest)
  | single {viewer name d input hostname} (hm : World.mayUse viewer d = true)
      (hi : hostname = toLowerCase (trim input))
      (hh : w.byHost.get hostname = some name) :
      Undomains w (.loaded viewer name (.removeDomain input) (some d)) hostname
        (.domainDestroyed hostname)

/-- The turns in which a host is not served any more. -/
inductive Unserves : Job → String → Prop
  | ofRemove {name hostname rest} : Unserves (.hostDestroyed name hostname rest) hostname
  | ofDomain {hostname} : Unserves (.domainDestroyed hostname) hostname

/-- A turn of a call (none where it begins), and where the call waits then. -/
inductive Acts (w : World) : Option Job → World → Option Job → Prop
  | reads {job next} : Acts w job w next
  | creates {c counted} (hn : w.tables.definitions.get c.name = none)
      (ha : w.tables.accounts.has c.accountId = true) :
      Acts w (some (.looked c counted false)) (w.withTables { w.tables with
        definitions := w.tables.definitions.set c.name ⟨c.accountId, c.policy⟩ })
        (some (.stored c true))
  | keeps {c d r} (hr : c.live = some r) : Acts w (some (.reread c (some d)))
      (w.withHub (applyLive (w.hub.onTunnel r fun tunnel => { tunnel with persistent := true })
        c.name c.policy)) none
  | saves {viewer name input d policy hash} (hm : World.mayUse viewer d = true)
      (hb : buildPolicy (fun _ => hash) input d.policy = .ok policy) :
      Acts w (some (.loaded viewer name (.updateAccess input) (some d)))
        (w.withTables (w.tables.savePolicy name policy)) (some (.saved name policy))
  | applies {name policy} : Acts w (some (.saved name policy))
      (w.withHub (applyLive w.hub name policy)) none
  | drops {job name} (hj : Drops job name) : Acts w (some job)
      (w.withTables (w.tables.destroyDefinition name)) (some (.dropped name))
  | dropped {name r} (hr : w.hub.tunnels.get name = some r) : Acts w (some (.dropped name))
      (w.withHub (w.hub.onTunnel r fun tunnel => { tunnel with persistent := false })) none
  | undomains {job hostname next} (hj : Undomains w job hostname next) : Acts w (some job)
      (w.withTables (w.tables.destroyDomain hostname)) (some next)
  | unserves {job hostname next} (hj : Unserves job hostname) : Acts w (some job)
      (w.withHosts (w.byHost.delete hostname)) next
  | domains {name hostname accountId counted limit}
      (hl : limit = 0 ∨ counted < limit)
      (hn : w.tables.domains.get (World.normalize hostname) = none) :
      Acts w (some (.domainsLimited name hostname accountId counted limit))
        (w.withTables { w.tables with
          domains := w.tables.domains.set (World.normalize hostname) ⟨name, accountId⟩ })
        (some (.domainStored name (World.normalize hostname) accountId true))
  | serves {name hostname accountId} : Acts w (some (.domainStored name hostname accountId true))
      (w.withHosts (w.byHost.set hostname name)) none
  | signsOut {job accountId invites next} : Acts w (some job)
      (w.withTables (w.tables.destroyCredentials accountId invites)) (some next)
  | deletes {accountId} : Acts w (some (.invitesDestroyed accountId))
      (w.withTables (w.tables.destroyAccount accountId)) (some (.accountDestroyed accountId))
  | revokes {credential} : Acts w (some (.credentialFound credential true))
      (w.withTables (w.tables.destroyCredential credential)) (some (.revoked credential))
  | closes {credential} : Acts w (some (.revoked credential))
      (w.withHub (w.hub.closeCredential credential "revoked")) none
  | updates {id r input policy hash} (hr : w.hub.tunnels.get id = some r)
      (hp : (w.hub.heap r).persistent = false)
      (hb : buildPolicy (fun _ => hash) input (w.hub.heap r).policy = .ok policy) :
      Acts w none (w.withHub (changePolicy w.hub id r policy)) none
  | updatesBoth {id r input policy hash} (hr : w.hub.tunnels.get id = some r)
      (hp : (w.hub.heap r).persistent = true)
      (hb : buildPolicy (fun _ => hash) input (w.hub.heap r).policy = .ok policy) :
      Acts w none { w with
        hub := changePolicy w.hub id r policy
        tables := w.tables.savePolicy id policy } (some (.accessSaved id))

variable {w : World} {hash : String} {job : Job}

theorem begin_acts (operation : Operation) :
    Acts w none (w.begin hash operation).1 (w.begin hash operation).2 := by
  cases operation with
  | create viewer name input =>
    unfold World.begin World.create
    dsimp only
    split
    · exact .reads
    split
    · exact .reads
    split <;> exact .reads
  | own viewer name task => exact .reads
  | updateAccess viewer id input =>
    unfold World.begin World.updateAccess
    dsimp only
    split
    · exact .reads
    split
    · exact .reads
    · next r hr =>
      split
      · exact .reads
      · next policy hb =>
        have hkept : ((changePolicy w.hub id r policy).heap r).persistent =
            (w.hub.heap r).persistent := by simp [changePolicy, Hub.onTunnel]
        split
        · next hp => exact .updatesBoth hr (hkept.symm.trans hp) hb
        · next hp => exact .updates hr (hkept.symm.trans (Bool.eq_false_iff.mpr hp)) hb
  | removeAccount accountId => exact .reads
  | revoke viewer credential => exact .reads

theorem removeHosts_acts {name : String} {hosts : List String} (hd : hosts = [] → Drops job name)
    (hu : ∀ hostname rest, hosts = hostname :: rest →
      Undomains w job hostname (.hostDestroyed name hostname rest)) :
    Acts w (some job) (w.removeHosts name hosts).1 (w.removeHosts name hosts).2 := by
  cases hosts with
  | nil => exact .drops (hd rfl)
  | cons hostname rest => exact .undomains (hu _ _ rfl)

theorem withDefinition_acts {viewer : Viewer} {name : String} {task : Task}
    {definition : Option Definition} :
    Acts w (some (.loaded viewer name task definition))
      (w.withDefinition viewer name task definition hash).1
      (w.withDefinition viewer name task definition hash).2 := by
  unfold World.withDefinition
  split
  · exact .reads
  · next d =>
    split
    · next hm =>
      cases task with
      | updateAccess input =>
        rw [World.perform]
        split
        · exact .reads
        · next policy hb => exact .saves hm hb
      | remove => exact removeHosts_acts (fun _ => .atOnce hm) fun _ _ hh => .first hm hh
      | addDomain hostname => exact .reads
      | removeDomain hostname =>
        rw [World.perform]
        split
        · next hh => exact .undomains (.single hm rfl hh)
        · exact .reads
    · exact .reads

theorem insert_acts {c : Creating} {counted : Nat} {found : Bool} :
    Acts w (some (.looked c counted found)) (w.insert c found).1 (w.insert c found).2 := by
  unfold World.insert
  split
  · exact .reads
  · next hf =>
    obtain rfl := Bool.eq_false_iff.mpr hf
    unfold Database.createDefinition
    split
    · exact .reads
    · next tables ht =>
      rw [Option.ite_none_left_eq_some, Bool.or_eq_true, not_or, Bool.not_eq_true,
        OrderedMap.has_eq_false, Bool.not_eq_true', Bool.not_eq_false] at ht
      obtain ⟨⟨hn, ha⟩, ht⟩ := ht
      cases ht
      exact .creates hn ha

theorem addDomain_acts {name hostname : String} {accountId : AccountId} {counted limit : Nat} :
    Acts w (some (.domainsLimited name hostname accountId counted limit))
      (w.addDomain name hostname accountId counted limit).1
      (w.addDomain name hostname accountId counted limit).2 := by
  unfold World.addDomain
  dsimp only
  split
  · exact .reads
  next hl =>
  split
  · exact .reads
  unfold Database.createDomain
  split
  · exact .reads
  · next tables ht =>
    rw [Option.ite_none_left_eq_some, Bool.or_eq_true, not_or, Bool.not_eq_true,
      OrderedMap.has_eq_false] at ht
    obtain ⟨⟨hn, -⟩, ht⟩ := ht
    cases ht
    refine .domains ?_ hn
    simp only [Bool.and_eq_true, decide_eq_true_eq, not_and, not_le] at hl
    exact or_iff_not_imp_left.mpr hl

/-- The inversion of a turn. -/
theorem goOn_acts : Acts w (some job) (w.goOn hash job).1 (w.goOn hash job).2 := by
  cases job with
  | listed _ _ | named _ _ | domainsCounted _ _ _ _ | accessSaved _ | accountDestroyed _ =>
    exact .reads
  | limited c counted limit =>
    rw [World.goOn]
    split <;> exact .reads
  | looked c counted found => exact insert_acts
  | stored c done =>
    rw [World.goOn]
    split <;> exact .reads
  | reread c definition =>
    rw [World.goOn]
    unfold World.keep
    split
    · next d r hr => exact .keeps hr
    · exact .reads
  | loaded viewer name task definition => exact withDefinition_acts
  | saved name policy => exact .applies
  | hostDestroyed name hostname rest => exact .unserves .ofRemove
  | hostForgotten name rest =>
    exact removeHosts_acts (fun h => h ▸ .afterHosts) fun _ _ hh => hh ▸ .next
  | dropped name =>
    rw [World.goOn]
    split
    · exact .reads
    · next r hr => exact .dropped hr
  | domainsLimited name hostname accountId counted limit => exact addDomain_acts
  | domainStored name hostname accountId done =>
    rw [World.goOn]
    split
    · next hd => exact hd ▸ .serves
    · exact .reads
  | domainDestroyed hostname => exact .unserves .ofDomain
  | accountFound accountId row =>
    rw [World.goOn]
    unfold World.checkAccount
    split
    · exact .reads
    · split <;> exact .reads
  | adminsCounted accountId admins =>
    rw [World.goOn]
    split <;> exact .reads
  | sessionsDestroyed accountId => exact .signsOut
  | devicesDestroyed accountId => exact .signsOut
  | invitesDestroyed accountId => exact .deletes
  | credentialFound credential found =>
    rw [World.goOn]
    split
    · next hf => exact hf ▸ .revokes
    · exact .reads
  | revoked credential => exact .closes

/-! ## Where a call waits -/

/-- The first wait of a call. -/
inductive Begins (w : World) (hash : String) : Operation → Job → Prop
  | listed {viewer name input live owner policy} (hl : w.hub.tunnels.get (toLowerCase (trim name)) = live)
      (ho : (live.map fun r => (w.hub.heap r).accountId).getD viewer.accountId = owner)
      (hp : w.policyFor input live hash = .ok policy) :
      Begins w hash (.create viewer name input) (.listed ⟨toLowerCase (trim name), live, policy, owner⟩
        (w.tables.persistentCount owner))
  | loaded {viewer name task} : Begins w hash (.own viewer name task)
      (.loaded viewer name task (w.tables.definitions.get name))
  | accessSaved {viewer id input r} (hr : w.hub.tunnels.get id = some r)
      (hp : (w.hub.heap r).persistent = true) :
      Begins w hash (.updateAccess viewer id input) (.accessSaved id)
  | accountFound {accountId} : Begins w hash (.removeAccount accountId)
      (.accountFound accountId (w.tables.accounts.get accountId))
  | credentialFound {viewer credential} : Begins w hash (.revoke viewer credential)
      (.credentialFound credential (w.mayRevoke viewer credential))

/-- The next wait of a call. -/
inductive Follows (w : World) (hash : String) : Job → Job → Prop
  | named {c counted} : Follows w hash (.listed c counted) (.named c counted)
  | limited {c counted} : Follows w hash (.named c counted)
      (.limited c counted (w.tables.limitsFor c.accountId).persistent)
  | looked {c counted limit} (hl : limit = 0 ∨ counted < limit) :
      Follows w hash (.limited c counted limit)
        (.looked c counted (w.tables.definitions.has c.name))
  | stored {c counted done} (hd : done = (w.tables.createDefinition c.name
        ⟨c.accountId, c.policy⟩).isSome) :
      Follows w hash (.looked c counted false) (.stored c done)
  | reread {c} : Follows w hash (.stored c true) (.reread c (w.tables.definitions.get c.name))
  | saved {viewer name input d policy} (hb : buildPolicy (fun _ => hash) input d.policy = .ok policy) :
      Follows w hash (.loaded viewer name (.updateAccess input) (some d)) (.saved name policy)
  | dropped {job name} (hj : Drops job name) : Follows w hash job (.dropped name)
  | undomains {job hostname next} (hj : Undomains w job hostname next) : Follows w hash job next
  | hostForgotten {name hostname rest} :
      Follows w hash (.hostDestroyed name hostname rest) (.hostForgotten name rest)
  | domainsCounted {viewer name hostname d} :
      Follows w hash (.loaded viewer name (.addDomain hostname) (some d))
        (.domainsCounted name hostname d.accountId (w.tables.domainCount d.accountId))
  | domainsLimited {name hostname accountId counted} :
      Follows w hash (.domainsCounted name hostname accountId counted)
        (.domainsLimited name hostname accountId counted (w.tables.limitsFor accountId).domains)
  | domainStored {name hostname accountId counted limit done} :
      Follows w hash (.domainsLimited name hostname accountId counted limit)
        (.domainStored name (World.normalize hostname) accountId done)
  | adminsCounted {accountId row} : Follows w hash (.accountFound accountId (some row))
      (.adminsCounted accountId w.tables.adminCount)
  | memberFound {accountId row} : Follows w hash (.accountFound accountId (some row))
      (.sessionsDestroyed accountId)
  | adminFound {accountId admins} : Follows w hash (.adminsCounted accountId admins)
      (.sessionsDestroyed accountId)
  | devicesDestroyed {accountId} :
      Follows w hash (.sessionsDestroyed accountId) (.devicesDestroyed accountId)
  | invitesDestroyed {accountId} :
      Follows w hash (.devicesDestroyed accountId) (.invitesDestroyed accountId)
  | accountDestroyed {accountId} :
      Follows w hash (.invitesDestroyed accountId) (.accountDestroyed accountId)
  | revoked {credential} :
      Follows w hash (.credentialFound credential true) (.revoked credential)

variable {before : Job}

theorem begins {operation : Operation} (h : (w.begin hash operation).2 = some job) :
    Begins w hash operation job := by
  cases operation with
  | create viewer name input =>
    unfold World.begin World.create at h
    dsimp only at h
    split at h
    · cases h
    split at h
    · cases h
    split at h
    · cases h
    · next policy hp =>
      cases h
      exact .listed rfl rfl hp
  | own viewer name task => cases h; exact .loaded
  | updateAccess viewer id input =>
    unfold World.begin World.updateAccess at h
    dsimp only at h
    split at h
    · cases h
    split at h
    · cases h
    · next r hr =>
      split at h
      · cases h
      · next policy hb =>
        have hkept : ((changePolicy w.hub id r policy).heap r).persistent =
            (w.hub.heap r).persistent := by simp [changePolicy, Hub.onTunnel]
        split at h
        · next hp => cases h; exact .accessSaved hr (hkept.symm.trans hp)
        · cases h
  | removeAccount accountId => cases h; exact .accountFound
  | revoke viewer credential => cases h; exact .credentialFound

theorem removeHosts_follows {name : String} {hosts : List String}
    (hd : hosts = [] → Drops before name)
    (hu : ∀ hostname rest, hosts = hostname :: rest →
      Undomains w before hostname (.hostDestroyed name hostname rest))
    (h : (w.removeHosts name hosts).2 = some job) : Follows w hash before job := by
  cases hosts with
  | nil => cases h; exact .dropped (hd rfl)
  | cons hostname rest => cases h; exact .undomains (hu _ _ rfl)

theorem withDefinition_follows {viewer : Viewer} {name : String} {task : Task}
    {definition : Option Definition}
    (h : (w.withDefinition viewer name task definition hash).2 = some job) :
    Follows w hash (.loaded viewer name task definition) job := by
  unfold World.withDefinition at h
  split at h
  · cases h
  split at h
  · next hm =>
    cases task with
    | updateAccess input =>
      rw [World.perform] at h
      split at h
      · cases h
      · next policy hb => cases h; exact .saved hb
    | remove => exact removeHosts_follows (fun _ => .atOnce hm) (fun _ _ hh => .first hm hh) h
    | addDomain hostname => cases h; exact .domainsCounted
    | removeDomain hostname =>
      rw [World.perform] at h
      split at h
      · next hh => cases h; exact .undomains (.single hm rfl hh)
      · cases h
  · cases h

theorem addDomain_follows {name hostname : String} {accountId : AccountId} {counted limit : Nat}
    (h : (w.addDomain name hostname accountId counted limit).2 = some job) :
    Follows w hash (.domainsLimited name hostname accountId counted limit) job := by
  unfold World.addDomain at h
  dsimp only at h
  split at h
  · cases h
  split at h
  · cases h
  split at h <;> cases h <;> exact .domainStored

/-- The inversion of the waits of a call. -/
theorem follows (h : (w.goOn hash before).2 = some job) : Follows w hash before job := by
  cases before with
  | listed c counted => cases h; exact .named
  | named c counted => cases h; exact .limited
  | limited c counted limit =>
    rw [World.goOn] at h
    split at h <;> cases h
    next hl =>
    simp only [Bool.and_eq_true, decide_eq_true_eq, not_and, not_le] at hl
    exact .looked (or_iff_not_imp_left.mpr hl)
  | looked c counted found =>
    rw [World.goOn, World.insert] at h
    split at h
    · cases h
    · next hf =>
      obtain rfl := Bool.eq_false_iff.mpr hf
      split at h
      · next hn => cases h; exact .stored (by rw [hn]; rfl)
      · next tables ht => cases h; exact .stored (by rw [ht]; rfl)
  | stored c done =>
    rw [World.goOn] at h
    split at h <;> cases h
    next hd => exact hd ▸ .reread
  | reread c definition =>
    rw [World.goOn] at h
    unfold World.keep at h
    split at h <;> cases h
  | loaded viewer name task definition => exact withDefinition_follows h
  | hostDestroyed name hostname rest => cases h; exact .hostForgotten
  | hostForgotten name rest =>
    exact removeHosts_follows (fun hr => hr ▸ .afterHosts) (fun _ _ hh => hh ▸ .next) h
  | dropped name =>
    rw [World.goOn] at h
    split at h <;> cases h
  | domainsCounted name hostname accountId counted => cases h; exact .domainsLimited
  | domainsLimited name hostname accountId counted limit => exact addDomain_follows h
  | domainStored name hostname accountId done =>
    rw [World.goOn] at h
    split at h <;> cases h
  | accountFound accountId row =>
    rw [World.goOn] at h
    unfold World.checkAccount at h
    split at h
    · cases h
    · split at h <;> cases h
      · exact .adminsCounted
      · exact .memberFound
  | adminsCounted accountId admins =>
    rw [World.goOn] at h
    split at h <;> cases h
    exact .adminFound
  | sessionsDestroyed accountId => cases h; exact .devicesDestroyed
  | devicesDestroyed accountId => cases h; exact .invitesDestroyed
  | invitesDestroyed accountId => cases h; exact .accountDestroyed
  | credentialFound credential found =>
    rw [World.goOn] at h
    split at h <;> cases h
    next hf => exact hf ▸ .revoked
  | saved _ _ | accessSaved _ | domainDestroyed _ | accountDestroyed _ | revoked _ => cases h

end Tunlit.Api.Turns
