import Tunlit.Registry.Register

/-! # The tables of the database

The rows of `models` that the registry, the web UI and the control server read and write,
with the constraints of the migrations: what is unique, and what goes with an account.
Every statement is atomic. Ids are never given twice. -/
namespace Tunlit.Api.Tables
open Tunlit.Lib.Insertion Tunlit.Access.Policy Tunlit.Registry.State Tunlit.Registry.Register

/-- What an account may have; 0 is no limit. -/
structure Limits where
  tunnels : Nat := 0
  persistent : Nat := 0
  domains : Nat := 0
  traffic : Nat := 0
deriving DecidableEq, Repr

def NONE : Limits := {}

/-- An account, with the defaults and its own quotas in one. -/
structure AccountRow where
  username : String
  admin : Bool := false
  limits : Limits := {}
deriving DecidableEq, Repr

/-- A device, or an invite if it has a label. -/
structure CredentialRow where
  accountId : AccountId
  token : String
  label : Option String := none
deriving DecidableEq, Repr

structure DomainRow where
  tunnelName : String
  accountId : AccountId
deriving DecidableEq, Repr

structure Database where
  accounts : OrderedMap AccountId AccountRow := ∅
  -- by `device:` or `invite:` and the id of the row
  credentials : OrderedMap String CredentialRow := ∅
  definitions : OrderedMap String Definition := ∅
  domains : OrderedMap String DomainRow := ∅
  usedAccounts : List AccountId := []
  usedCredentials : List String := []

/-- The number of rows of an account. -/
def count {κ ν : Type} [DecidableEq κ] (rows : OrderedMap κ ν) (owner : ν → AccountId)
    (accountId : AccountId) : Nat :=
  rows.tally fun row => owner row = accountId

namespace Database

variable (tables : Database)

def limitsFor (accountId : AccountId) : Limits :=
  match tables.accounts.get accountId with
  | none => NONE
  | some account => if account.admin then NONE else account.limits

/-! ## Persistent names -/

def persistentCount (accountId : AccountId) : Nat :=
  count tables.definitions Definition.accountId accountId

/-- `TunnelModel.create`: the name is unique and the account is there. -/
def createDefinition (name : String) (definition : Definition) : Option Database :=
  if tables.definitions.has name || !tables.accounts.has definition.accountId then none
  else some { tables with definitions := tables.definitions.set name definition }

def savePolicy (name : String) (policy : AccessPolicy) : Database :=
  match tables.definitions.get name with
  | none => tables
  | some definition =>
    { tables with definitions := tables.definitions.set name { definition with policy := policy } }

def destroyDefinition (name : String) : Database :=
  { tables with definitions := tables.definitions.delete name }

/-! ## Domains -/

def domainCount (accountId : AccountId) : Nat :=
  count tables.domains DomainRow.accountId accountId

def createDomain (hostname : String) (row : DomainRow) : Option Database :=
  if tables.domains.has hostname || !tables.accounts.has row.accountId then none
  else some { tables with domains := tables.domains.set hostname row }

def destroyDomain (hostname : String) : Database :=
  { tables with domains := tables.domains.delete hostname }

/-! ## Accounts and what they sign in with -/

def adminCount : Nat := (tables.accounts.values.filter fun account => account.admin).length

/-- `Device.findOne` and `Invite.findOne` by the hash of a token. -/
def credentialOf (token : String) (invite : Bool) : Option (String × CredentialRow) :=
  tables.credentials.entries.find? fun row => row.2.token = token && row.2.label.isSome = invite

def destroyCredential (credential : String) : Database :=
  { tables with credentials := tables.credentials.delete credential }

/-- `Device.destroy` and `Invite.destroy` for an account. -/
def destroyCredentials (accountId : AccountId) (invites : Bool) : Database :=
  { tables with credentials := tables.credentials.filter fun _ row =>
      !(row.accountId = accountId && row.label.isSome = invites) }

/-- `Account.destroy`, and the rows that the foreign keys take with it; invites have none. -/
def destroyAccount (accountId : AccountId) : Database :=
  { tables with
    accounts := tables.accounts.delete accountId
    credentials := tables.credentials.filter fun _ row =>
      !(row.accountId = accountId && row.label.isNone)
    definitions := tables.definitions.filter fun _ row => row.accountId ≠ accountId
    domains := tables.domains.filter fun _ row => row.accountId ≠ accountId }

/-- A new account, or an account that is changed. -/
def putAccount (accountId : AccountId) (row : AccountRow) : Option Database :=
  if tables.accounts.has accountId then
    some { tables with accounts := tables.accounts.set accountId row }
  else if accountId ∈ tables.usedAccounts then none
  else some { tables with
    accounts := tables.accounts.set accountId row
    usedAccounts := accountId :: tables.usedAccounts }

def createCredential (credential : String) (row : CredentialRow) : Option Database :=
  if credential ∈ tables.usedCredentials || row.label.isNone && !tables.accounts.has row.accountId
  then none
  else some { tables with
    credentials := tables.credentials.set credential row
    usedCredentials := credential :: tables.usedCredentials }

end Database

/-! ## What a statement leaves -/

variable {tables : Database} {name : String} {policy : AccessPolicy}

theorem get_savePolicy (q : String) : (tables.savePolicy name policy).definitions.get q =
    (tables.definitions.get q).map fun d => if q = name then { d with policy := policy } else d := by
  unfold Database.savePolicy
  split
  · next hn =>
    by_cases hq : q = name
    · rw [hq, hn]; rfl
    · simp [hq]
  · next d hd =>
    simp only [OrderedMap.get_set]
    by_cases hq : name = q
    · subst hq; simp [hd]
    · simp [hq, Ne.symm hq]

theorem savePolicy_domains : (tables.savePolicy name policy).domains = tables.domains := by
  unfold Database.savePolicy
  split <;> rfl

theorem savePolicy_accounts : (tables.savePolicy name policy).accounts = tables.accounts := by
  unfold Database.savePolicy
  split <;> rfl

theorem savePolicy_credentials :
    (tables.savePolicy name policy).credentials = tables.credentials := by
  unfold Database.savePolicy
  split <;> rfl

/-! ## Ids that are never given twice -/

section
variable {κ ν : Type} [DecidableEq κ] {rows rows' : OrderedMap κ ν} {used used' : List κ} {k : κ}

/-- Rows with new ids may be added. -/
structure Ages (rows rows' : OrderedMap κ ν) (used used' : List κ) : Prop where
  given : ∀ k ∈ used, k ∈ used'
  old : ∀ k, rows'.has k = true → rows.has k = true ∨ k ∉ used ∧ k ∈ used'

/-- The id of every row has been given. -/
def Numbered (rows : OrderedMap κ ν) (used : List κ) : Prop := ∀ k, rows.has k = true → k ∈ used

/-- The id had been given, and the row is gone. -/
def Retired (rows : OrderedMap κ ν) (used : List κ) (k : κ) : Prop :=
  k ∈ used ∧ rows.has k = false

theorem numbered_of_entries (h : ∀ entry ∈ rows.entries, entry.1 ∈ used) : Numbered rows used := by
  intro k hk
  obtain ⟨v, hv⟩ := OrderedMap.has_eq_true.mp hk
  exact h (k, v) (OrderedMap.mem_entries.mpr hv)

theorem Ages.rfl : Ages rows rows used used := ⟨fun _ => id, fun _ => .inl⟩

theorem Ages.numbered (h : Ages rows rows' used used') (hn : Numbered rows used) :
    Numbered rows' used' :=
  fun k hk => (h.old k hk).elim (fun hk => h.given k (hn k hk)) And.right

theorem Ages.retired (h : Ages rows rows' used used') (hk : Retired rows used k) :
    Retired rows' used' k := by
  refine ⟨h.given k hk.1, Bool.eq_false_iff.mpr fun hrow => ?_⟩
  rcases h.old k hrow with hrow | ⟨hnew, -⟩
  · rw [hk.2] at hrow
    cases hrow
  · exact hnew hk.1

theorem ages_delete : Ages rows (rows.delete k) used used := by
  refine ⟨fun _ => id, fun q hq => .inl ?_⟩
  obtain ⟨v, hv⟩ := OrderedMap.has_eq_true.mp hq
  rw [OrderedMap.get_delete] at hv
  split at hv
  · cases hv
  · exact OrderedMap.has_eq_true.mpr ⟨v, hv⟩

theorem ages_filter {p : κ → ν → Bool} : Ages rows (rows.filter p) used used := by
  refine ⟨fun _ => id, fun q hq => .inl ?_⟩
  obtain ⟨v, hv⟩ := OrderedMap.has_eq_true.mp hq
  exact OrderedMap.has_eq_true.mpr ⟨v, (OrderedMap.get_filter_eq_some.mp hv).1⟩

theorem ages_set {v : ν} (hu : ∀ k ∈ used, k ∈ used')
    (hk : rows.has k = true ∨ k ∉ used ∧ k ∈ used') : Ages rows (rows.set k v) used used' := by
  refine ⟨hu, fun q hq => ?_⟩
  obtain ⟨w, hw⟩ := OrderedMap.has_eq_true.mp hq
  rw [OrderedMap.get_set] at hw
  split at hw
  · next hkq => exact hkq ▸ hk
  · exact .inl (OrderedMap.has_eq_true.mpr ⟨w, hw⟩)

end

end Tunlit.Api.Tables
