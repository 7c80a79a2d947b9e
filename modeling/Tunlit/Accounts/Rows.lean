import Mathlib.Tactic.Common
import Tunlit.Access.Policy
import Tunlit.Js.Text
import Tunlit.Lib.Insertion

/-! # Accounts and sessions

The rows of `models/Account.js` and `models/Session.js`, and the checks of
`lib/accounts.js`. Every statement is atomic. The id of an account is never given twice; a
session keeps how it was signed in. -/
namespace Tunlit.Accounts.Rows
open Tunlit.Js.Text Tunlit.Lib.Insertion Tunlit.Access.Policy

abbrev AccountId := Nat
abbrev SessionId := Nat

inductive Role where
  | admin
  | user
deriving DecidableEq, Repr

def ROLES : List (String × Role) := [("admin", .admin), ("user", .user)]

def Role.name : Role → String
  | .admin => "admin"
  | .user => "user"

structure Account where
  username : String
  passwordHash : String
  role : Role := .user
  totpSecret : Option String := none
  totpEnabled : Bool := false
  quotas : Option String := none
deriving DecidableEq, Repr

/-! ## Providers -/

structure Provider where
  usernameClaim : String
  createAccounts : Bool
deriving DecidableEq, Repr

/-- The claims about a subject; one that is missing is empty. -/
abbrev Claims := List (String × String)

def claim (claims : Claims) (name : String) : String := (claims.lookup name).getD ""

/-! ## Sessions -/

/-- How a session was signed in: with the password of which hash, and whether a code was asked. -/
inductive Origin where
  | password (hash : String) (coded : Bool)
  | passkey
  | provider (provider : Provider) (claims : Claims)
deriving DecidableEq, Repr

structure Session where
  accountId : AccountId
  origin : Origin
deriving DecidableEq, Repr

/-! ## Checks -/

/-- `[a-zA-Z0-9._-]` -/
def isUsable (c : Char) : Bool := isAlnum c || c = '.' || c = '_' || c = '-'

def isUsername (username : String) : Bool :=
  3 ≤ username.length && username.length ≤ 32 && username.toList.all isUsable

/-- `validate`: whether there is a message. -/
def invalid (username password : Option String) : Bool :=
  username.any (fun username => !isUsername username) ||
    password.any fun password => utf16Length password < 8

/-! ## The tables -/

structure World where
  accounts : OrderedMap AccountId Account := ∅
  /-- the names of all accounts there ever were, by their ids -/
  names : List String := []
  sessions : OrderedMap SessionId Session := ∅
  nextSession : SessionId := 0

/-- What `Account.update` is given. -/
structure Values where
  role : Option Role := none
  passwordHash : Option String := none
  totpSecret : Option (Option String) := none
  totpEnabled : Option Bool := none
  quotas : Option (Option String) := none
deriving DecidableEq, Repr

def Account.put (account : Account) (values : Values) : Account :=
  { account with
    role := values.role.getD account.role
    passwordHash := values.passwordHash.getD account.passwordHash
    totpSecret := values.totpSecret.getD account.totpSecret
    totpEnabled := values.totpEnabled.getD account.totpEnabled
    quotas := values.quotas.getD account.quotas }

inductive Statement where
  | createAccount (username passwordHash : String) (role : Role)
  | updateAccount (id : AccountId) (values : Values)
  | destroyAccount (id : AccountId)
  | createSession (accountId : AccountId) (origin : Origin)
  | destroySessions (accountId : AccountId)
  | destroySession (id : SessionId)
deriving DecidableEq

namespace World

variable (w : World)

def byId (id : AccountId) : Option Account := w.accounts.get id

def byUsername (username : String) : Option (AccountId × Account) :=
  w.accounts.entries.find? fun entry => entry.2.username = username

def isAdmin (account : Account) : Bool := account.role = .admin

def adminCount : Nat := w.accounts.tally isAdmin

/-- Whether the constraints of the tables take a statement. -/
def takes : Statement → Bool
  | .createAccount username _ _ => (w.byUsername username).isNone
  | .createSession accountId _ => w.accounts.has accountId
  | _ => true

def updateAccount (id : AccountId) (values : Values) : World :=
  match w.accounts.get id with
  | none => w
  | some account => { w with accounts := w.accounts.set id (account.put values) }

/-- `Account.destroy`; the sessions go with the account. -/
def destroyAccount (id : AccountId) : World :=
  { w with
    accounts := w.accounts.delete id
    sessions := w.sessions.filter fun _ session => session.accountId ≠ id }

/-- What a statement leaves; one that is not taken throws. -/
def run (statement : Statement) : World :=
  if !w.takes statement then w
  else match statement with
    | .createAccount username passwordHash role =>
      { w with
        accounts := w.accounts.set w.names.length { username, passwordHash, role }
        names := w.names ++ [username] }
    | .updateAccount id values => w.updateAccount id values
    | .destroyAccount id => w.destroyAccount id
    | .createSession accountId origin =>
      { w with
        sessions := w.sessions.set w.nextSession ⟨accountId, origin⟩
        nextSession := w.nextSession + 1 }
    | .destroySessions accountId =>
      { w with sessions := w.sessions.filter fun _ session => session.accountId ≠ accountId }
    | .destroySession id => { w with sessions := w.sessions.delete id }

end World

/-! ## What a statement leaves -/

variable {w : World} {statement : Statement} {id : AccountId} {account : Account}
  {sid : SessionId} {session : Session}

/-- The ids of the accounts have been given. -/
def Numbered (w : World) : Prop :=
  ∀ id account, w.accounts.get id = some account → w.names[id]? = some account.username

theorem Numbered.new (h : Numbered w) : w.accounts.get w.names.length = none := by
  cases hg : w.accounts.get w.names.length with
  | none => rfl
  | some account =>
    have hname := h _ _ hg
    rw [List.getElem?_eq_none (Nat.le_refl _)] at hname
    cases hname

@[simp] theorem put_username (values : Values) : (account.put values).username = account.username :=
  rfl

/-- An account is as it was, or was changed, or is new. -/
theorem get_run (h : (w.run statement).accounts.get id = some account) :
    w.accounts.get id = some account ∨
    (∃ before values, statement = .updateAccount id values ∧ w.accounts.get id = some before ∧
      account = before.put values) ∨
    ∃ username hash role, statement = .createAccount username hash role ∧ id = w.names.length ∧
      w.byUsername username = none ∧ account = { username, passwordHash := hash, role } := by
  unfold World.run at h
  split at h
  · exact .inl h
  · next ht =>
    cases statement with
    | createAccount username hash role =>
      simp only [OrderedMap.get_set] at h
      split at h
      · next hid =>
        refine .inr (.inr ⟨username, hash, role, rfl, hid.symm, ?_, (Option.some.inj h).symm⟩)
        simpa [World.takes] using ht
      · exact .inl h
    | updateAccount k values =>
      simp only [World.updateAccount] at h
      split at h
      · exact .inl h
      · next before hb =>
        rw [OrderedMap.get_set] at h
        split at h
        · next hk =>
          subst hk
          exact .inr (.inl ⟨before, values, rfl, hb, (Option.some.inj h).symm⟩)
        · exact .inl h
    | destroyAccount k =>
      simp only [World.destroyAccount, OrderedMap.get_delete] at h
      split at h
      · cases h
      · exact .inl h
    | createSession _ _ => exact .inl h
    | destroySessions _ => exact .inl h
    | destroySession _ => exact .inl h

/-- An account stays as it is, unless it is changed or deleted. -/
theorem run_get (statement : Statement) (hn : Numbered w) (h : w.accounts.get id = some account) :
    (w.run statement).accounts.get id = some account ∨
    (∃ values, statement = .updateAccount id values ∧
      (w.run statement).accounts.get id = some (account.put values)) ∨
    statement = .destroyAccount id := by
  unfold World.run
  split
  · exact .inl h
  · cases statement with
    | createAccount username hash role =>
      have hne : w.names.length ≠ id := by
        intro he
        rw [← he, hn.new] at h
        cases h
      exact .inl ((OrderedMap.get_set ..).trans ((if_neg hne).trans h))
    | updateAccount k values =>
      by_cases hk : k = id
      · subst hk
        refine .inr (.inl ⟨values, rfl, ?_⟩)
        simp [World.updateAccount, h]
      · refine .inl ?_
        simp only [World.updateAccount]
        split
        · exact h
        · exact (OrderedMap.get_set ..).trans ((if_neg hk).trans h)
    | destroyAccount k =>
      by_cases hk : k = id
      · exact .inr (.inr (by rw [hk]))
      · exact .inl ((OrderedMap.get_delete ..).trans ((if_neg hk).trans h))
    | createSession _ _ => exact .inl h
    | destroySessions _ => exact .inl h
    | destroySession _ => exact .inl h

/-- The names of the accounts that there were stay. -/
theorem run_names (statement : Statement) : w.names <+: (w.run statement).names := by
  unfold World.run
  split
  · exact List.prefix_rfl
  · cases statement with
    | createAccount => exact List.prefix_append _ _
    | updateAccount k values =>
      simp only [World.updateAccount]
      split <;> exact List.prefix_rfl
    | destroyAccount _ => exact List.prefix_rfl
    | createSession _ _ => exact List.prefix_rfl
    | destroySessions _ => exact List.prefix_rfl
    | destroySession _ => exact List.prefix_rfl

theorem names_of_prefix {names names' : List String} {name : String} (hp : names <+: names')
    (h : names[id]? = some name) : names'[id]? = some name := by
  obtain ⟨more, rfl⟩ := hp
  rw [List.getElem?_append_left (List.getElem?_eq_some_iff.mp h).1, h]

theorem Numbered.run (hn : Numbered w) (statement : Statement) : Numbered (w.run statement) := by
  intro id account h
  rcases get_run h with h | ⟨before, values, rfl, hb, rfl⟩ | ⟨username, hash, role, rfl, rfl, ht, rfl⟩
  · exact names_of_prefix (run_names statement) (hn id account h)
  · exact names_of_prefix (run_names _) (hn id before hb)
  · have htakes : w.takes (.createAccount username hash role) = true := by simp [World.takes, ht]
    simp [World.run, htakes]

/-- A session was there, or is new. -/
theorem session_run (h : (w.run statement).sessions.get sid = some session) :
    w.sessions.get sid = some session ∧
      (∀ k, statement = .destroyAccount k ∨ statement = .destroySessions k →
        session.accountId ≠ k) ∨
    statement = .createSession session.accountId session.origin ∧
      w.accounts.has session.accountId = true := by
  have hkept : w.sessions.get sid = some session →
      (∀ k, statement ≠ .destroyAccount k ∧ statement ≠ .destroySessions k) →
      w.sessions.get sid = some session ∧
        (∀ k, statement = .destroyAccount k ∨ statement = .destroySessions k →
          session.accountId ≠ k) :=
    fun hs hne => ⟨hs, fun k hk => (hk.elim (hne k).1 (hne k).2).elim⟩
  unfold World.run at h
  split at h
  · next ht =>
    refine .inl ⟨h, fun k hk => ?_⟩
    rcases hk with rfl | rfl <;> simp [World.takes] at ht
  · next ht =>
    cases statement with
    | createAccount _ _ _ => exact .inl (hkept h fun k => by simp)
    | updateAccount k values =>
      refine .inl (hkept ?_ fun k => by simp)
      simp only [World.updateAccount] at h
      split at h <;> exact h
    | destroyAccount k =>
      obtain ⟨hs, hk⟩ := OrderedMap.get_filter_eq_some.mp h
      refine .inl ⟨hs, fun q hq => ?_⟩
      rcases hq with hq | hq <;> cases hq
      simpa using hk
    | createSession accountId origin =>
      simp only [OrderedMap.get_set] at h
      split at h
      · cases h
        exact .inr ⟨rfl, by simpa only [World.takes, Bool.not_not, Bool.not_eq_true', Bool.not_eq_false] using ht⟩
      · exact .inl (hkept h fun k => by simp)
    | destroySessions k =>
      obtain ⟨hs, hk⟩ := OrderedMap.get_filter_eq_some.mp h
      refine .inl ⟨hs, fun q hq => ?_⟩
      rcases hq with hq | hq <;> cases hq
      simpa using hk
    | destroySession k =>
      simp only [OrderedMap.get_delete] at h
      split at h
      · cases h
      · exact .inl (hkept h fun k => by simp)

/-- The account that is found has the name. -/
theorem byUsername_eq_some {username : String} (h : w.byUsername username = some (id, account)) :
    w.accounts.get id = some account ∧ account.username = username := by
  have hm := List.mem_of_find?_eq_some h
  have hu := List.find?_some h
  exact ⟨OrderedMap.mem_entries.mp hm, by simpa using hu⟩

end Tunlit.Accounts.Rows
