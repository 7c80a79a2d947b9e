import Tunlit.Accounts.Rows
import Tunlit.Lib.Turns

/-! # Calls on accounts

The functions of `lib/accounts.js` and `lib/totp.js`, with the ways to sign in: `login` of
`controllers/auth.js`, the passkeys and `complete` of `lib/oidc.js` with its callback. They
are cut at their awaits; a statement takes effect when it is issued, and what it answers is
kept until the call goes on. Awaits behind which nothing is read or written are left out. -/
namespace Tunlit.Accounts.Calls
open Tunlit.Js.Text Tunlit.Accounts.Rows Tunlit.Lib.Runs Tunlit.Lib.Turns

/-! ## Requests -/

/-- What `update` is asked to change, its values as texts. -/
structure Changes where
  role : Option String := none
  password : Option String := none
  quotas : Option (Option String) := none
deriving DecidableEq

inductive Request where
  | create (username password : Option String) (role : String)
  | update (id : AccountId) (changes : Changes)
  | remove (id : AccountId)
  | changePassword (id : AccountId) (newPassword : Option String)
  | login (username : String) (code : String)
  -- of the account that a passkey belongs to
  | passkey (id : AccountId)
  | oidc (provider : Provider) (claims : Claims)
  | begin (id : AccountId)
  | enable (id : AccountId)
  | disable (id : AccountId)
  | logout (session : SessionId)
deriving DecidableEq

/-- What a call is given when it goes on: whether a password, a passkey or a sign-in was
verified, whether a code is right, and the salted hash of a new password. -/
structure Input where
  verified : Bool := true
  totp : Bool := true
  hash : String := ""
deriving DecidableEq

inductive Answer where
  | refused (code : Nat)
  | failed
  | done
  | signedIn (origin : Origin) (accountId : AccountId)
deriving DecidableEq

/-! ## Points -/

/-- What a call that changes or deletes an account has found: its row and, for an admin,
how many there are. -/
structure Found where
  account : Account
  admins : Option Nat := none
deriving DecidableEq

inductive Point where
  -- create
  | creating (username password : Option String) (role : Role) (taken : Bool)
  | created (username : String) (done : Bool)
  | describing (found : Bool)
  -- update
  | updating (id : AccountId) (changes : Changes) (account : Option Account)
  | counted (id : AccountId) (changes : Changes) (role : Role) (account : Account) (admins : Nat)
  | cleared (id : AccountId) (found : Found) (values : Values)
  | written (id : AccountId)
  -- remove
  | removing (id : AccountId) (account : Option Account)
  | removalCounted (id : AccountId) (account : Account) (admins : Nat)
  | sessionsGone (id : AccountId) (found : Found)
  | devicesGone (id : AccountId) (found : Found)
  | invitesGone (id : AccountId) (found : Found)
  | removed
  -- changePassword
  | changing (id : AccountId) (newPassword : Option String) (account : Option Account)
  | checking (id : AccountId) (newPassword : Option String)
  -- login
  | counting (username code : String) (accounts : Nat)
  | verifying (code : String) (account : Option (AccountId × Account))
  -- sessions.create
  | storing (origin : Origin) (id : AccountId) (done : Bool)
  -- a passkey
  | asserting (id : AccountId) (account : Option Account)
  -- complete
  | asking (provider : Provider) (claims : Claims)
  | matching (provider : Provider) (claims : Claims) (account : Option (AccountId × Account))
  | providing (provider : Provider) (claims : Claims) (taken : Bool)
  | provided (provider : Provider) (claims : Claims) (done : Bool)
  | described (provider : Provider) (claims : Claims) (found : Bool)
  | rematching (provider : Provider) (claims : Claims) (account : Option (AccountId × Account))
  -- two-factor, with the row of the session's account
  | beginning (id : AccountId) (account : Option Account)
  | enabling (id : AccountId) (account : Option Account)
  | enabled (id : AccountId)
  | disabling (id : AccountId) (account : Option Account)
  -- a last statement
  | closing
deriving DecidableEq

/-- The statement that a turn issues, and how the call stands behind it. -/
abbrev Turn := Option Statement × Stage Point Answer

def ends (answer : Answer) : Turn := (none, .ended answer)
def waits (point : Point) : Turn := (none, .waits point)
def issues (statement : Statement) (point : Point) : Turn := (some statement, .waits point)

/-! ## The subject of a provider -/

/-- `claims[provider.usernameClaim] || claims.preferred_username || claims.email || claims.sub` -/
def raw (provider : Provider) (claims : Claims) : String :=
  (([provider.usernameClaim, "preferred_username", "email", "sub"].map (claim claims)).find?
    (· ≠ "")).getD ""

/-- What `complete` makes of the claims. -/
def usernameOf (provider : Provider) (claims : Claims) : String :=
  .ofList ((((split '@' (raw provider claims).toList).headD []).filter isUsable).take 32)

/-! ## Turns -/

section
variable (w : World)

/-- `sessions.create` -/
def signIn (origin : Origin) (id : AccountId) : Turn :=
  let statement := .createSession id origin
  issues statement (.storing origin id (w.takes statement))

/-- The end of `update`: the values are written if there are any. -/
def write (id : AccountId) (values : Values) : Turn :=
  if values = {} then waits (.describing (w.byId id).isSome)
  else issues (.updateAccount id values) (.written id)

/-- `update` behind the checks of the role. -/
def change (id : AccountId) (changes : Changes) (role : Option Role) (found : Found)
    (hash : String) : Turn :=
  let values : Values := { role, quotas := changes.quotas }
  match changes.password with
  | none => write w id values
  | some password =>
    if invalid none (some password) then ends (.refused 400)
    else issues (.destroySessions id) (.cleared id found { values with passwordHash := some hash })

def update (id : AccountId) (changes : Changes) (account : Option Account) (hash : String) : Turn :=
  match account with
  | none => ends (.refused 404)
  | some account =>
    match changes.role.filter (· ≠ account.role.name) with
    | none => change w id changes none ⟨account, none⟩ hash
    | some text =>
      match ROLES.lookup text with
      | none => ends (.refused 400)
      | some role =>
        if account.role = .admin then waits (.counted id changes role account w.adminCount)
        else change w id changes (some role) ⟨account, none⟩ hash

def remove (id : AccountId) (account : Option Account) : Turn :=
  match account with
  | none => ends (.refused 404)
  | some account =>
    if account.role = .admin then waits (.removalCounted id account w.adminCount)
    else issues (.destroySessions id) (.sessionsGone id ⟨account, none⟩)

/-- `login` behind the verification. -/
def login (code : String) (account : Option (AccountId × Account)) (input : Input) : Turn :=
  match account with
  | none => ends (.refused 401)
  | some (id, account) =>
    if !input.verified then ends (.refused 401)
    else if account.totpEnabled then
      if code = "" then ends (.refused 202)
      else if input.totp then signIn w (.password account.passwordHash true) id
      else ends (.refused 401)
    else signIn w (.password account.passwordHash false) id

/-- `complete` behind the search for the account. -/
def complete (provider : Provider) (claims : Claims) (account : Option (AccountId × Account)) :
    Turn :=
  match account with
  | some (id, _) => signIn w (.provider provider claims) id
  | none =>
    if provider.createAccounts then
      waits (.providing provider claims (w.byUsername (usernameOf provider claims)).isSome)
    else ends (.refused 403)

def enable (id : AccountId) (account : Option Account) (totp : Bool) : Turn :=
  match account with
  | none => ends (.refused 401)
  | some account =>
    if account.totpEnabled || account.totpSecret.isNone then ends (.refused 409)
    else if totp then issues (.updateAccount id { totpEnabled := some true }) (.enabled id)
    else ends (.refused 401)

def disable (id : AccountId) (account : Option Account) (totp : Bool) : Turn :=
  match account with
  | none => ends (.refused 401)
  | some account =>
    if !account.totpEnabled then ends (.refused 409)
    else if totp then
      issues (.updateAccount id { totpEnabled := some false, totpSecret := some none }) .closing
    else ends (.refused 401)

/-- `begin`, with a secret that is random. -/
def begin (id : AccountId) (account : Option Account) (secret : String) : Turn :=
  match account with
  | none => ends (.refused 401)
  | some account =>
    if account.totpEnabled then ends (.refused 409)
    else if account.totpSecret.isSome then ends .done
    else issues (.updateAccount id { totpSecret := some (some secret) }) .closing

/-- The beginning of a call. -/
def startTurn : Request → Turn
  | .create username password role =>
    if invalid username password then ends (.refused 400)
    else match ROLES.lookup role with
      | none => ends (.refused 400)
      | some role =>
        waits (.creating username password role (w.byUsername (username.getD "")).isSome)
  | .update id changes => waits (.updating id changes (w.byId id))
  | .remove id => waits (.removing id (w.byId id))
  | .changePassword id newPassword => waits (.changing id newPassword (w.byId id))
  | .login username code => waits (.counting username code w.accounts.entries.length)
  | .passkey id => waits (.asserting id (w.byId id))
  | .oidc provider claims => waits (.asking provider claims)
  | .begin id => waits (.beginning id (w.byId id))
  | .enable id => waits (.enabling id (w.byId id))
  | .disable id => waits (.disabling id (w.byId id))
  | .logout session => issues (.destroySession session) .closing

/-- What a call does with what it waited for. -/
def turn (point : Point) (input : Input) : Turn :=
  match point with
  | .creating username password role taken =>
    if taken then ends (.refused 409)
    else match username, password with
      | some username, some _ =>
        let statement := .createAccount username input.hash role
        issues statement (.created username (w.takes statement))
      | _, _ => ends .failed
  | .created username done =>
    if done then waits (.describing (w.byUsername username).isSome) else ends .failed
  | .describing found => ends (if found then .done else .failed)
  | .updating id changes account => update w id changes account input.hash
  | .counted id changes role account admins =>
    if admins ≤ 1 then ends (.refused 409)
    else change w id changes (some role) ⟨account, some admins⟩ input.hash
  | .cleared id _ values => write w id values
  | .written id => waits (.describing (w.byId id).isSome)
  | .removing id account => remove w id account
  | .removalCounted id account admins =>
    if admins ≤ 1 then ends (.refused 409)
    else issues (.destroySessions id) (.sessionsGone id ⟨account, some admins⟩)
  | .sessionsGone id found => waits (.devicesGone id found)
  | .devicesGone id found => waits (.invitesGone id found)
  | .invitesGone id _ => issues (.destroyAccount id) .removed
  | .removed => ends .done
  | .changing id newPassword account =>
    if account.isNone then ends (.refused 401) else waits (.checking id newPassword)
  | .checking id newPassword =>
    if !input.verified then ends (.refused 401)
    else waits (.updating id { password := newPassword } (w.byId id))
  | .counting username code accounts =>
    if accounts = 0 then ends (.refused 409) else waits (.verifying code (w.byUsername username))
  | .verifying code account => login w code account input
  | .storing origin id done => ends (if done then .signedIn origin id else .failed)
  | .asserting id account =>
    if account.isNone || !input.verified then ends (.refused 401) else signIn w .passkey id
  | .asking provider claims =>
    if !input.verified then ends (.refused 502)
    else if (usernameOf provider claims).length < 3 then ends (.refused 400)
    else waits (.matching provider claims (w.byUsername (usernameOf provider claims)))
  | .matching provider claims account => complete w provider claims account
  | .providing provider claims taken =>
    if taken then ends (.refused 409)
    else
      let statement := .createAccount (usernameOf provider claims) input.hash .user
      issues statement (.provided provider claims (w.takes statement))
  | .provided provider claims done =>
    if done then
      waits (.described provider claims (w.byUsername (usernameOf provider claims)).isSome)
    else ends (.refused 502)
  | .described provider claims found =>
    if found then waits (.rematching provider claims (w.byUsername (usernameOf provider claims)))
    else ends (.refused 502)
  | .rematching provider claims account =>
    match account with
    | some (id, _) => signIn w (.provider provider claims) id
    | none => ends (.refused 502)
  | .beginning id account => begin id account input.hash
  | .enabling id account => enable id account input.totp
  | .enabled id => issues (.destroySessions id) .closing
  | .disabling id account => disable id account input.totp
  | .closing => ends .done

end

/-! ## What a turn issues -/

/-- The statement of a turn, and where the call then waits. -/
inductive Issues (w : World) : Point → Statement → Point → Prop
  | create {username password hash : String} {role : Role} {done : Bool} :
    Issues w (.creating (some username) (some password) role false)
      (.createAccount username hash role) (.created username done)
  | change {id : AccountId} {changes : Changes} {account : Account} {values : Values} :
    values.role ≠ some .user ∧ values.passwordHash = none ∧ values.totpEnabled = none →
    Issues w (.updating id changes (some account)) (.updateAccount id values) (.written id)
  | clear {id : AccountId} {changes : Changes} {account : Account} {values : Values} :
    values.role ≠ some .user ∧ values.totpEnabled = none →
    Issues w (.updating id changes (some account)) (.destroySessions id)
      (.cleared id ⟨account, none⟩ values)
  | demote {id : AccountId} {changes : Changes} {role : Role} {account : Account} {admins : Nat}
    {values : Values} : 1 < admins → values.passwordHash = none ∧ values.totpEnabled = none →
    Issues w (.counted id changes role account admins) (.updateAccount id values) (.written id)
  | demoteClear {id : AccountId} {changes : Changes} {role : Role} {account : Account}
    {admins : Nat} {values : Values} : 1 < admins → values.totpEnabled = none →
    Issues w (.counted id changes role account admins) (.destroySessions id)
      (.cleared id ⟨account, some admins⟩ values)
  | write {id : AccountId} {found : Found} {values : Values} :
    Issues w (.cleared id found values) (.updateAccount id values) (.written id)
  | remove {id : AccountId} {account : Account} : account.role ≠ .admin →
    Issues w (.removing id (some account)) (.destroySessions id) (.sessionsGone id ⟨account, none⟩)
  | removeAdmin {id : AccountId} {account : Account} {admins : Nat} : 1 < admins →
    Issues w (.removalCounted id account admins) (.destroySessions id)
      (.sessionsGone id ⟨account, some admins⟩)
  | destroy {id : AccountId} {found : Found} :
    Issues w (.invitesGone id found) (.destroyAccount id) .removed
  | login {code : String} {id : AccountId} {account : Account} {coded done : Bool} :
    coded = account.totpEnabled →
    Issues w (.verifying code (some (id, account)))
      (.createSession id (.password account.passwordHash coded))
      (.storing (.password account.passwordHash coded) id done)
  | passkey {id : AccountId} {account : Account} {done : Bool} :
    Issues w (.asserting id (some account)) (.createSession id .passkey) (.storing .passkey id done)
  | matched {provider : Provider} {claims : Claims} {id : AccountId} {account : Account}
    {done : Bool} :
    Issues w (.matching provider claims (some (id, account)))
      (.createSession id (.provider provider claims)) (.storing (.provider provider claims) id done)
  | provide {provider : Provider} {claims : Claims} {hash : String} {done : Bool} :
    Issues w (.providing provider claims false)
      (.createAccount (usernameOf provider claims) hash .user) (.provided provider claims done)
  | rematched {provider : Provider} {claims : Claims} {id : AccountId} {account : Account}
    {done : Bool} :
    Issues w (.rematching provider claims (some (id, account)))
      (.createSession id (.provider provider claims)) (.storing (.provider provider claims) id done)
  | begin {id : AccountId} {account : Account} {secret : String} :
    Issues w (.beginning id (some account)) (.updateAccount id { totpSecret := some (some secret) })
      .closing
  | enable {id : AccountId} {account : Account} :
    Issues w (.enabling id (some account)) (.updateAccount id { totpEnabled := some true })
      (.enabled id)
  | enabled {id : AccountId} : Issues w (.enabled id) (.destroySessions id) .closing
  | disable {id : AccountId} {account : Account} :
    Issues w (.disabling id (some account))
      (.updateAccount id { totpEnabled := some false, totpSecret := some none }) .closing

variable {w : World} {point : Point} {input : Input} {statement : Statement} {id : AccountId}
  {stage : Stage Point Answer}

theorem write_issues {values : Values} (h : write w id values = (some statement, stage)) :
    statement = .updateAccount id values ∧ stage = .waits (.written id) := by
  unfold write at h
  split at h
  · cases h
  · cases h
    exact ⟨rfl, rfl⟩

theorem change_issues {changes : Changes} {role : Option Role} {found : Found} {hash : String}
    (h : change w id changes role found hash = (some statement, stage)) :
    ∃ values : Values, values.role = role ∧ values.totpEnabled = none ∧
      (values.passwordHash = none ∧ statement = .updateAccount id values ∧
          stage = .waits (.written id) ∨
        statement = .destroySessions id ∧ stage = .waits (.cleared id found values)) := by
  unfold change at h
  dsimp only at h
  split at h
  · exact ⟨_, rfl, rfl, .inl ⟨rfl, write_issues h⟩⟩
  · split at h
    · cases h
    · cases h
      exact ⟨_, rfl, rfl, .inr ⟨rfl, rfl⟩⟩

theorem lookup_roles {text : String} {role : Role} (h : ROLES.lookup text = some role) :
    text = role.name := by
  obtain ⟨l₁, l₂, hl, -⟩ := List.lookup_eq_some_iff.mp h
  have hm : (text, role) ∈ ROLES := hl ▸ by simp
  simp only [ROLES, List.mem_cons, List.not_mem_nil, or_false, Prod.mk.injEq] at hm
  rcases hm with ⟨rfl, rfl⟩ | ⟨rfl, rfl⟩ <;> rfl

theorem update_issues {changes : Changes} {account : Option Account} {hash : String}
    (h : update w id changes account hash = (some statement, stage)) :
    ∃ next, stage = .waits next ∧ Issues w (.updating id changes account) statement next := by
  have hchange : ∀ {account : Account} {role : Option Role}, role ≠ some .user →
      change w id changes role ⟨account, none⟩ hash = (some statement, stage) →
      ∃ next, stage = .waits next ∧ Issues w (.updating id changes (some account)) statement next := by
    intro account role hr hc
    obtain ⟨values, rfl, ht, ⟨hp, rfl, rfl⟩ | ⟨rfl, rfl⟩⟩ := change_issues hc
    · exact ⟨_, rfl, .change ⟨hr, hp, ht⟩⟩
    · exact ⟨_, rfl, .clear ⟨hr, ht⟩⟩
  unfold update at h
  cases account with
  | none => cases h
  | some account =>
    dsimp only at h
    split at h
    · exact hchange (by simp) h
    · next text htext =>
      split at h
      · cases h
      · next role hrole =>
        split at h
        · cases h
        · next hadmin =>
          refine hchange ?_ h
          rintro ⟨⟩
          -- a role that is no change was left out
          have hne : text ≠ account.role.name := by
            simpa using (Option.filter_eq_some_iff.mp htext).2
          cases hr : account.role with
          | admin => exact hadmin hr
          | user => exact hne (by rw [hr, lookup_roles hrole])

theorem login_issues {code : String} {account : Option (AccountId × Account)}
    (h : login w code account input = (some statement, stage)) :
    ∃ next, stage = .waits next ∧ Issues w (.verifying code account) statement next := by
  unfold login at h
  split at h
  · cases h
  · split at h
    · cases h
    · split at h
      · next ht =>
        split at h
        · cases h
        · split at h
          · cases h
            exact ⟨_, rfl, .login ht.symm⟩
          · cases h
      · next ht =>
        cases h
        exact ⟨_, rfl, .login (Bool.eq_false_iff.mpr ht).symm⟩

/-- A turn issues what is due at its point. -/
theorem turn_issues (h : turn w point input = (some statement, stage)) :
    ∃ next, stage = .waits next ∧ Issues w point statement next := by
  cases point with
  | creating username password role taken =>
    cases taken with
    | true => cases h
    | false =>
      simp only [turn, Bool.false_eq_true, if_false] at h
      split at h
      · cases h
        exact ⟨_, rfl, .create⟩
      · cases h
  | created username done => cases done <;> cases h
  | describing found => cases h
  | updating id changes account => exact update_issues h
  | counted id changes role account admins =>
    simp only [turn] at h
    split at h
    · cases h
    · next hm =>
      obtain ⟨values, -, ht, ⟨hp, rfl, rfl⟩ | ⟨rfl, rfl⟩⟩ := change_issues h
      · exact ⟨_, rfl, .demote (Nat.lt_of_not_le hm) ⟨hp, ht⟩⟩
      · exact ⟨_, rfl, .demoteClear (Nat.lt_of_not_le hm) ht⟩
  | cleared id found values =>
    obtain ⟨rfl, rfl⟩ := write_issues h
    exact ⟨_, rfl, .write⟩
  | written id => cases h
  | removing id account =>
    cases account with
    | none => cases h
    | some account =>
      simp only [turn, remove] at h
      split at h
      · cases h
      · next hr =>
        cases h
        exact ⟨_, rfl, .remove hr⟩
  | removalCounted id account admins =>
    simp only [turn] at h
    split at h
    · cases h
    · next hm =>
      cases h
      exact ⟨_, rfl, .removeAdmin (Nat.lt_of_not_le hm)⟩
  | sessionsGone id found => cases h
  | devicesGone id found => cases h
  | invitesGone id found =>
    cases h
    exact ⟨_, rfl, .destroy⟩
  | removed => cases h
  | changing id newPassword account => cases account <;> cases h
  | checking id newPassword =>
    simp only [turn] at h
    split at h <;> cases h
  | counting username code accounts =>
    simp only [turn] at h
    split at h <;> cases h
  | verifying code account => exact login_issues h
  | storing origin id done => cases h
  | asserting id account =>
    simp only [turn] at h
    split at h
    · cases h
    · next ha =>
      cases account with
      | none => simp at ha
      | some account =>
        cases h
        exact ⟨_, rfl, .passkey⟩
  | asking provider claims =>
    simp only [turn] at h
    split at h
    · cases h
    · split at h <;> cases h
  | matching provider claims account =>
    cases account with
    | none =>
      simp only [turn, complete] at h
      split at h <;> cases h
    | some found =>
      cases h
      exact ⟨_, rfl, .matched⟩
  | providing provider claims taken =>
    cases taken with
    | true => cases h
    | false =>
      cases h
      exact ⟨_, rfl, .provide⟩
  | provided provider claims done => cases done <;> cases h
  | described provider claims found => cases found <;> cases h
  | rematching provider claims account =>
    cases account with
    | none => cases h
    | some found =>
      cases h
      exact ⟨_, rfl, .rematched⟩
  | beginning id account =>
    cases account with
    | none => cases h
    | some account =>
      simp only [turn, begin] at h
      split at h
      · cases h
      · split at h <;> cases h
        exact ⟨_, rfl, .begin⟩
  | enabling id account =>
    cases account with
    | none => cases h
    | some account =>
      simp only [turn, enable] at h
      split at h
      · cases h
      · split at h <;> cases h
        exact ⟨_, rfl, .enable⟩
  | enabled id =>
    cases h
    exact ⟨_, rfl, .enabled⟩
  | disabling id account =>
    cases account with
    | none => cases h
    | some account =>
      simp only [turn, disable] at h
      split at h
      · cases h
      · split at h <;> cases h
        exact ⟨_, rfl, .disable⟩
  | closing => cases h

/-- What a turn without a statement waits for. -/
inductive Looks (w : World) : Point → Point → Prop
  | created {username : String} {done found : Bool} :
    Looks w (.created username done) (.describing found)
  | updating {id : AccountId} {changes : Changes} {account : Account} {found : Bool} :
    Looks w (.updating id changes (some account)) (.describing found)
  | counts {id : AccountId} {changes : Changes} {role : Role} {account : Account} {admins : Nat} :
    Looks w (.updating id changes (some account)) (.counted id changes role account admins)
  | counted {id : AccountId} {changes : Changes} {role : Role} {account : Account} {admins : Nat}
    {found : Bool} : Looks w (.counted id changes role account admins) (.describing found)
  | cleared {id : AccountId} {found : Found} {values : Values} {there : Bool} :
    Looks w (.cleared id found values) (.describing there)
  | written {id : AccountId} {found : Bool} : Looks w (.written id) (.describing found)
  | removing {id : AccountId} {account : Account} {admins : Nat} :
    Looks w (.removing id (some account)) (.removalCounted id account admins)
  | sessionsGone {id : AccountId} {found : Found} :
    Looks w (.sessionsGone id found) (.devicesGone id found)
  | devicesGone {id : AccountId} {found : Found} :
    Looks w (.devicesGone id found) (.invitesGone id found)
  | changing {id : AccountId} {newPassword : Option String} {account : Account} :
    Looks w (.changing id newPassword (some account)) (.checking id newPassword)
  | checking {id : AccountId} {newPassword : Option String} :
    Looks w (.checking id newPassword) (.updating id { password := newPassword } (w.byId id))
  | counting {username code : String} {accounts : Nat} :
    Looks w (.counting username code accounts) (.verifying code (w.byUsername username))
  | asking {provider : Provider} {claims : Claims} :
    3 ≤ (usernameOf provider claims).length →
    Looks w (.asking provider claims)
      (.matching provider claims (w.byUsername (usernameOf provider claims)))
  | matching {provider : Provider} {claims : Claims} {taken : Bool} :
    Looks w (.matching provider claims none) (.providing provider claims taken)
  | provided {provider : Provider} {claims : Claims} {done found : Bool} :
    Looks w (.provided provider claims done) (.described provider claims found)
  | described {provider : Provider} {claims : Claims} {found : Bool} :
    Looks w (.described provider claims found)
      (.rematching provider claims (w.byUsername (usernameOf provider claims)))

theorem write_looks {values : Values} {next : Point}
    (h : write w id values = (none, .waits next)) : next = .describing (w.byId id).isSome := by
  unfold write at h
  split at h
  · cases h
    rfl
  · cases h

theorem change_looks {changes : Changes} {role : Option Role} {found : Found} {hash : String}
    {next : Point} (h : change w id changes role found hash = (none, .waits next)) :
    next = .describing (w.byId id).isSome := by
  unfold change at h
  dsimp only at h
  split at h
  · exact write_looks h
  · split at h <;> cases h

/-- A turn without a statement looks at what is due at its point. -/
theorem turn_looks {next : Point} (h : turn w point input = (none, .waits next)) :
    Looks w point next := by
  cases point with
  | creating username password role taken =>
    cases taken with
    | true => cases h
    | false =>
      simp only [turn, Bool.false_eq_true, if_false] at h
      split at h <;> cases h
  | created username done =>
    cases done with
    | true =>
      cases h
      exact .created
    | false => cases h
  | updating id changes account =>
    cases account with
    | none => cases h
    | some account =>
      simp only [turn, update] at h
      split at h
      · rw [change_looks h]
        exact .updating
      · split at h
        · cases h
        · split at h
          · cases h
            exact .counts
          · rw [change_looks h]
            exact .updating
  | counted id changes role account admins =>
    simp only [turn] at h
    split at h
    · cases h
    · rw [change_looks h]
      exact .counted
  | cleared id found values =>
    rw [write_looks h]
    exact .cleared
  | written id =>
    cases h
    exact .written
  | removing id account =>
    cases account with
    | none => cases h
    | some account =>
      simp only [turn, remove] at h
      split at h <;> cases h
      exact .removing
  | removalCounted id account admins =>
    simp only [turn] at h
    split at h <;> cases h
  | sessionsGone id found =>
    cases h
    exact .sessionsGone
  | devicesGone id found =>
    cases h
    exact .devicesGone
  | changing id newPassword account =>
    cases account with
    | none => cases h
    | some account =>
      cases h
      exact .changing
  | checking id newPassword =>
    simp only [turn] at h
    split at h <;> cases h
    exact .checking
  | counting username code accounts =>
    simp only [turn] at h
    split at h <;> cases h
    exact .counting
  | verifying code account =>
    simp only [turn, login, signIn] at h
    repeat' split at h
    all_goals cases h
  | asserting id account =>
    simp only [turn, signIn] at h
    split at h <;> cases h
  | asking provider claims =>
    simp only [turn] at h
    split at h
    · cases h
    · split at h
      · cases h
      · next hl =>
        cases h
        exact .asking (Nat.le_of_not_lt hl)
  | matching provider claims account =>
    cases account with
    | none =>
      simp only [turn, complete] at h
      split at h <;> cases h
      exact .matching
    | some found => cases h
  | providing provider claims taken => cases taken <;> cases h
  | provided provider claims done =>
    cases done with
    | true =>
      cases h
      exact .provided
    | false => cases h
  | described provider claims found =>
    cases found with
    | true =>
      cases h
      exact .described
    | false => cases h
  | rematching provider claims account => cases account <;> cases h
  | beginning id account =>
    simp only [turn, begin] at h
    repeat' split at h
    all_goals cases h
  | enabling id account =>
    simp only [turn, enable] at h
    repeat' split at h
    all_goals cases h
  | disabling id account =>
    simp only [turn, disable] at h
    repeat' split at h
    all_goals cases h
  | describing | invitesGone | removed | storing | enabled | closing => cases h

/-! ## The machine -/

def does (w : World) (turn : Turn) : World × Stage Point Answer :=
  (turn.1.elim w w.run, turn.2)

def handlers : Handlers World Request Input Point Answer where
  start w request := does w (startTurn w request)
  resume w point input := does w (turn w point input)

abbrev Server := System World Point Answer

/-- A server with any accounts and without sessions. -/
def machine : Machine Server (Event Request Input) :=
  handlers.machine fun s => s.calls = [] ∧ Numbered s.world ∧ s.world.sessions.entries = []

end Tunlit.Accounts.Calls
