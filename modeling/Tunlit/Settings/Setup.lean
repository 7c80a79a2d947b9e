import Tunlit.Accounts.Rows
import Tunlit.Settings.Updates

/-! # The guided setup

`completeSetup` of `controllers/setup.js`, cut at its awaits. The hash of the password is
given to the turn that creates the account. What a text column keeps of a number or of a
boolean is a parameter. -/
namespace Tunlit.Settings.Setup
open Tunlit.Lib.Runs Tunlit.Lib.Turns Tunlit.Lib.Insertion
open Tunlit.Js.Text Tunlit.Accounts.Rows
open Tunlit.Access.Policy (utf16Length)
open Tunlit.Settings.Layers Tunlit.Settings.Updates

/-! ## Calls -/

structure Request where
  username : Option Value
  password : Option Value
  settings : Key → Option Value

structure World where
  live : Live
  stored : Stored
  accounts : Accounts.Rows.World
  setupRequired : Bool

/-- An account, as its name and password were given. -/
structure Given where
  username : Option Value
  password : Option Value

inductive Point where
  | counted (request : Request) (accounts : Nat)
  | looking (account : Given) (changed : Entries) (taken : Bool)
  | creating (account : Given) (changed : Entries) (done : Bool)
  | describing (changed : Entries) (found : Option AccountId)
  | writing (id : AccountId) (point : Writing)

inductive Answer where
  | complete (id : AccountId)
  | refused (code : Nat) (message : String)
  | failed

def Answer.isError : Answer → Bool
  | .complete _ => false
  | _ => true

def isError (stage : Stage Point Answer) : Bool :=
  match stage with
  | .waits _ => false
  | .ended answer => answer.isError

section
variable (numeral : ℚ → String) (cell : Value → String)

/-- `String(value || "")` of a value that may be missing. -/
def textOf (value : Option Value) : String :=
  match value with
  | some value => value.orElse numeral ""
  | none => ""

/-- `validate` of `lib/accounts.js` -/
def accountProblem (username password : Option Value) : Option String :=
  if username.isSome && !isUsername (textOf numeral username) then
    some "The username must be 3 to 32 letters, digits, dots, dashes or underscores"
  else if password.isSome && utf16Length (textOf numeral password) < 8 then
    some "The password must be at least 8 characters"
  else none

/-- What the column of the name keeps; none is not taken. -/
def column : Option Value → Option String
  | some (.text s) => some s
  | some (.bool b) => some (cell (.bool b))
  | some (.number n) => some (cell (.number n))
  | _ => none

/-- The settings of a request that differ from the live ones. -/
def changedSettings (live : Live) (settings : Key → Option Value) : Entries :=
  (pickSettings numeral settings).filter fun entry => !entry.2.same (live.config.shown entry.1)

/-- How a call stands while its settings are written. -/
def World.finish (w : World) (id : AccountId) : Stage Writing Bool → World × Stage Point Answer
  | .waits point => (w, .waits (.writing id point))
  | .ended true => ({ w with setupRequired := false }, .ended (.complete id))
  | .ended false => (w, .ended .failed)

/-- `completeSetup` behind the count of the accounts. -/
def configure (w : World) (request : Request) : World × Stage Point Answer :=
  match accountProblem numeral request.username request.password with
  | some message => (w, .ended (.refused 400 message))
  | none =>
    let changed := changedSettings numeral w.live request.settings
    match applySettings numeral w.live changed with
    | .error message => (w, .ended (.refused 400 message))
    | .ok live =>
      if !live.config.ready then ({ w with live }, .ended (.refused 400 "baseDomain is required"))
      else ({ w with live }, .waits (.looking ⟨request.username, request.password⟩ changed
        (w.accounts.byUsername (textOf numeral request.username)).isSome))

/-- `create` behind the search for the name. -/
def createAdmin (w : World) (account : Given) (changed : Entries) (hash : String) :
    World × Stage Point Answer :=
  match account.password, column cell account.username with
  | some (.text _), some name =>
    ({ w with accounts := w.accounts.run (.createAccount name hash .admin) },
      .waits (.creating account changed (w.accounts.takes (.createAccount name hash .admin))))
  | _, _ => (w, .ended .failed)

def resume (w : World) (point : Point) (hash : String) : World × Stage Point Answer :=
  match point with
  | .counted request accounts =>
    if accounts ≠ 0 then (w, .ended (.refused 409 "Setup has already been completed"))
    else configure numeral w request
  | .looking account changed taken =>
    if taken then (w, .ended (.refused 409 "That username is taken"))
    else createAdmin cell w account changed hash
  | .creating account changed done =>
    if done then (w, .waits (.describing changed
      ((w.accounts.byUsername (textOf numeral account.username)).map Prod.fst)))
    else (w, .ended .failed)
  | .describing changed found =>
    match found with
    | some id => w.finish id (write w.stored changed)
    | none => (w, .ended .failed)
  | .writing id point =>
    World.finish { w with stored := (point.resume w.stored).1 } id (point.resume w.stored).2

def handlers : Handlers World Request String Point Answer where
  start w request := (w, .waits (.counted request w.accounts.accounts.entries.length))
  resume := resume numeral cell

abbrev State := System World Point Answer

def machine (w : World) : Machine State (Event Request String) :=
  (handlers numeral cell).machine fun s => s = ⟨w, []⟩

/-! ## Careful calls -/

def isLooking : Point → Bool
  | .looking .. => true
  | _ => false

/-- Accepted settings leave a base domain or change nothing. With a base domain, the name
and the password are such that the store takes them, and no account has been created or is
about to be. -/
def Careful (s : State) (request : Request) : Prop :=
  accountProblem numeral request.username request.password = none →
  ∀ next, applySettings numeral s.world.live
      (changedSettings numeral s.world.live request.settings) = .ok next →
    (next.config.ready = false → next = s.world.live) ∧
    (next.config.ready = true →
      column cell request.username = some (textOf numeral request.username) ∧
      (∃ password, request.password = some (.text password)) ∧
      s.world.accounts.accounts.entries = [] ∧
      ∀ k point, s.pointOf k = some point → isLooking point = false)

/-- The condition on a call that goes on after it has counted no account. -/
def ok (s : State) : Event Request String → Prop
  | .call _ => True
  | .resume i _ =>
    ∀ request, s.pointOf i = some (.counted request 0) → Careful numeral cell s request

end

variable {numeral : ℚ → String} {cell : Value → String} {w : World} {s : State}
  {request : Request} {hash : String} {i : Nat}

/-! ## What a turn does -/

/-- A call past the check that no account exists. -/
def isPast : Stage Point Answer → Bool
  | .waits (.counted ..) => false
  | .waits _ => true
  | .ended (.complete _) => true
  | .ended _ => false

/-- How a setting is looked up and stored with no other call in between. -/
def Honest (stored : Stored) : Writing → Prop
  | .finding found entry _ => found = (stored entry.1).isSome
  | .storing done _ => done = true

/-- A call past the check goes through with what it has found. -/
def Sound (numeral : ℚ → String) (cell : Value → String) (w : World) : Stage Point Answer → Prop
  | .waits (.looking account _ taken) =>
    w.accounts.accounts.entries = [] ∧ taken = false ∧
      column cell account.username = some (textOf numeral account.username) ∧
      ∃ password, account.password = some (.text password)
  | .waits (.creating account _ done) =>
    done = true ∧ (w.accounts.byUsername (textOf numeral account.username)).isSome ∧
      w.accounts.accounts.entries ≠ []
  | .waits (.describing _ found) => found.isSome ∧ w.accounts.accounts.entries ≠ []
  | .waits (.writing _ point) => Honest w.stored point ∧ w.accounts.accounts.entries ≠ []
  | .ended (.complete _) => w.accounts.accounts.entries ≠ []
  | .ended .failed => False
  | _ => True

theorem Sound.of_not_past {w w' : World} {stage : Stage Point Answer}
    (h : Sound numeral cell w stage) (hp : isPast stage = false) :
    Sound numeral cell w' stage := by
  cases stage with
  | waits point =>
    cases point with
    | counted request accounts => trivial
    | _ => cases hp
  | ended answer =>
    cases answer with
    | complete id => cases hp
    | refused code message => trivial
    | failed => exact h

theorem Sound.of_same {w w' : World} {stage : Stage Point Answer}
    (h : Sound numeral cell w stage) (ha : w'.accounts = w.accounts)
    (hs : w'.stored = w.stored) : Sound numeral cell w' stage := by
  unfold Sound at h ⊢
  rw [ha, hs]
  exact h

/-- With no account and no call that looks a name up, no call is past the check. -/
theorem Sound.not_past {stage : Stage Point Answer} (h : Sound numeral cell w stage)
    (hempty : w.accounts.accounts.entries = [])
    (hlooking : ∀ point, stage = .waits point → isLooking point = false) :
    isPast stage = false := by
  cases stage with
  | waits point =>
    cases point with
    | counted request accounts => rfl
    | looking account changed taken => cases hlooking _ rfl
    | creating account changed done => exact absurd hempty h.2.2
    | describing changed found => exact absurd hempty h.2
    | writing id point => exact absurd hempty h.2
  | ended answer =>
    cases answer with
    | complete id => exact absurd hempty h
    | refused code message => rfl
    | failed => rfl

/-- A turn past the check: the call goes through, and there is one account at most. -/
structure Kept (numeral : ℚ → String) (cell : Value → String) (w : World)
    (turn : World × Stage Point Answer) : Prop where
  past : isPast turn.2 = true
  sound : Sound numeral cell turn.1 turn.2
  few : turn.1.accounts.accounts.entries.length = w.accounts.accounts.entries.length ∨
    turn.1.accounts.accounts.entries.length = 1

/-- The first account. -/
theorem run_createAccount (name hash : String) (role : Role) {accounts : Accounts.Rows.World}
    (h : accounts.accounts.entries = []) :
    accounts.takes (.createAccount name hash role) = true ∧
    ((accounts.run (.createAccount name hash role)).byUsername name).isSome ∧
    (accounts.run (.createAccount name hash role)).accounts.entries.length = 1 := by
  have htakes : accounts.takes (.createAccount name hash role) = true := by
    rw [Accounts.Rows.World.takes, Accounts.Rows.World.byUsername, h]
    rfl
  have hrun : (accounts.run (.createAccount name hash role)).accounts.entries =
      [(accounts.names.length, { username := name, passwordHash := hash, role })] := by
    simp only [Accounts.Rows.World.run, htakes, Bool.not_true, Bool.false_eq_true, if_false,
      OrderedMap.set, h, assign]
  refine ⟨htakes, ?_, by rw [hrun]; rfl⟩
  rw [Accounts.Rows.World.byUsername, hrun]
  simp

theorem kept_write {changed : Entries} {id : AccountId}
    (h : w.accounts.accounts.entries ≠ []) :
    Kept numeral cell w (w.finish id (write w.stored changed)) := by
  cases changed with
  | nil => exact ⟨rfl, h, .inl rfl⟩
  | cons entry rest => exact ⟨rfl, ⟨rfl, h⟩, .inl rfl⟩

theorem kept_writing {id : AccountId} {point : Writing} (h : Honest w.stored point)
    (ha : w.accounts.accounts.entries ≠ []) :
    Kept numeral cell w (World.finish { w with stored := (point.resume w.stored).1 } id
      (point.resume w.stored).2) := by
  cases point with
  | finding found entry rest =>
    cases hf : (w.stored entry.1).isSome with
    | true =>
      obtain rfl : found = true := h.trans hf
      exact ⟨rfl, ⟨rfl, ha⟩, .inl rfl⟩
    | false =>
      obtain rfl : found = false := h.trans hf
      simp only [Writing.resume, hf]
      exact ⟨rfl, ⟨rfl, ha⟩, .inl rfl⟩
  | storing done rest =>
    obtain rfl : done = true := h
    exact kept_write (w := w) ha

theorem kept_resume (hash : String) {point : Point} (hp : isPast (.waits point) = true)
    (h : Sound numeral cell w (.waits point)) :
    Kept numeral cell w (resume numeral cell w point hash) := by
  cases point with
  | counted request accounts => cases hp
  | looking account changed taken =>
    obtain ⟨hempty, rfl, hname, password, hpassword⟩ := h
    obtain ⟨htakes, hfound, hone⟩ := run_createAccount
      (textOf numeral account.username) hash .admin hempty
    rw [resume, if_neg Bool.false_ne_true, createAdmin, hpassword, hname]
    refine ⟨rfl, ⟨htakes, hfound, fun hnil => ?_⟩, .inr hone⟩
    rw [hnil] at hone
    cases hone
  | creating account changed done =>
    obtain ⟨rfl, hfound, ha⟩ := h
    refine ⟨rfl, ⟨?_, ha⟩, .inl rfl⟩
    rwa [Option.isSome_map]
  | describing changed found =>
    obtain ⟨hfound, ha⟩ := h
    obtain ⟨id, rfl⟩ := Option.isSome_iff_exists.mp hfound
    exact kept_write ha
  | writing id point => exact kept_writing h.1 h.2

/-- Behind the count a call is refused with the world as it was, or it is past the check. -/
theorem configure_cases (h : Careful numeral cell s request) :
    (∃ code message, configure numeral s.world request =
      (s.world, .ended (.refused code message))) ∨
    ∃ live changed, configure numeral s.world request = ({ s.world with live },
        .waits (.looking ⟨request.username, request.password⟩ changed false)) ∧
      column cell request.username = some (textOf numeral request.username) ∧
      (∃ password, request.password = some (.text password)) ∧
      s.world.accounts.accounts.entries = [] ∧
      ∀ k point, s.pointOf k = some point → isLooking point = false := by
  unfold configure
  cases hproblem : accountProblem numeral request.username request.password with
  | some message => exact .inl ⟨400, message, rfl⟩
  | none =>
    dsimp only
    cases happly : applySettings numeral s.world.live
        (changedSettings numeral s.world.live request.settings) with
    | error message => exact .inl ⟨400, message, rfl⟩
    | ok next =>
      obtain ⟨hsame, hgate⟩ := h hproblem next happly
      dsimp only
      cases hready : next.config.ready with
      | false =>
        obtain rfl := hsame hready
        exact .inl ⟨400, "baseDomain is required", rfl⟩
      | true =>
        obtain ⟨hname, hpassword, hempty, hlooking⟩ := hgate hready
        have htaken : s.world.accounts.byUsername (textOf numeral request.username) = none := by
          rw [Accounts.Rows.World.byUsername, hempty]
          rfl
        refine .inr ⟨next, changedSettings numeral s.world.live request.settings, ?_, hname,
          hpassword, hempty, hlooking⟩
        rw [htaken]
        rfl

/-! ## Runs -/

/-- A call that is not past the check has changed nothing, one that is goes through. -/
structure Good (numeral : ℚ → String) (cell : Value → String) (w : World)
    (call : Call World Point Answer) : Prop where
  clean : isPast call.stage = false → ∀ turn ∈ call.turns, turn.2 = turn.1
  sound : Sound numeral cell w call.stage

/-- One call at most is past the check. -/
structure Inv (numeral : ℚ → String) (cell : Value → String) (w : World) (s : State) : Prop where
  few : s.world.accounts.accounts.entries.length ≤ w.accounts.accounts.entries.length + 1
  good : Each (fun _ => True) (Good numeral cell) s
  alone : ∀ (k k' : Nat) (call call' : Call World Point Answer), s.calls[k]? = some call →
    s.calls[k']? = some call' → isPast call.stage = true → isPast call'.stage = true → k = k'

variable {turns : List (World × World)} {point : Point} {turn : World × Stage Point Answer}

/-- A call goes on, with no other past the check if it is. -/
theorem Inv.goesOn (h : Inv numeral cell w s)
    (hgood : Good numeral cell turn.1 ⟨turns ++ [(s.world, turn.1)], turn.2⟩)
    (hothers : ∀ (k : Nat) (call : Call World Point Answer), k ≠ i → s.calls[k]? = some call →
      Sound numeral cell turn.1 call.stage ∧ (isPast turn.2 = true → isPast call.stage = false))
    (hfew : turn.1.accounts.accounts.entries.length ≤ w.accounts.accounts.entries.length + 1) :
    Inv numeral cell w (s.goesOn i turns turn) := by
  refine ⟨hfew, .goesOn trivial hgood fun k call hk hc =>
    ⟨(h.good.calls k call hc).clean, (hothers k call hk hc).1⟩, ?_⟩
  intro k k' call call' hk hk' hp hp'
  rw [System.goesOn, List.getElem?_set] at hk hk'
  split at hk <;> split at hk'
  · next hik hik' => exact hik.symm.trans hik'
  · next hik hik' =>
    split at hk
    · cases hk
      have := (hothers k' call' (fun h => hik' h.symm) hk').2 hp
      rw [this] at hp'
      cases hp'
    · cases hk
  · next hik hik' =>
    split at hk'
    · cases hk'
      have := (hothers k call (fun h => hik h.symm) hk).2 hp'
      rw [this] at hp
      cases hp
    · cases hk'
  · exact h.alone k k' call call' hk hk' hp hp'

/-- A call that is past the check goes on. -/
theorem Inv.goesOn_past (h : Inv numeral cell w s)
    (hc : s.calls[i]? = some ⟨turns, .waits point⟩) (hp : isPast (.waits point) = true) :
    Inv numeral cell w (s.goesOn i turns (resume numeral cell s.world point hash)) := by
  have hkept := kept_resume hash hp (h.good.calls i _ hc).sound
  have hothers : ∀ (k : Nat) (call : Call World Point Answer), k ≠ i → s.calls[k]? = some call →
      isPast call.stage = false := by
    intro k call hk hcall
    by_contra hpast
    exact hk (h.alone k i call _ hcall hc (by simpa using hpast) hp)
  refine h.goesOn ⟨fun hnot => ?_, hkept.sound⟩ (fun k call hk hcall => ?_) ?_
  · exact absurd (hnot.symm.trans hkept.past) Bool.false_ne_true
  · exact ⟨(h.good.calls k call hcall).sound.of_not_past (hothers k call hk hcall),
      fun _ => hothers k call hk hcall⟩
  · rcases hkept.few with hfew | hfew
    · exact hfew ▸ h.few
    · rw [hfew]
      exact Nat.le_add_left ..

/-- A call goes on behind the count. -/
theorem Inv.goesOn_counted (hash : String) {accounts : Nat} (h : Inv numeral cell w s)
    (hc : s.calls[i]? = some ⟨turns, .waits (.counted request accounts)⟩)
    (hok : accounts = 0 → Careful numeral cell s request) :
    Inv numeral cell w (s.goesOn i turns
      (resume numeral cell s.world (.counted request accounts) hash)) := by
  have hclean := (h.good.calls i _ hc).clean rfl
  have hrefused : ∀ code message, Inv numeral cell w
      (s.goesOn i turns (s.world, .ended (.refused code message))) := by
    intro code message
    refine h.goesOn ⟨fun _ turn hm => ?_, trivial⟩
      (fun k call _ hcall => ⟨(h.good.calls k call hcall).sound, nofun⟩) h.few
    rcases List.mem_append.mp hm with hm | hm
    · exact hclean turn hm
    · rw [List.mem_singleton.mp hm]
  rw [resume]
  split
  · exact hrefused _ _
  · next hzero =>
    obtain ⟨code, message, ht⟩ | ⟨live, changed, ht, hname, hpassword, hempty, hlooking⟩ :=
      configure_cases (hok (of_not_not hzero))
    · rw [ht]
      exact hrefused code message
    · rw [ht]
      refine h.goesOn ⟨nofun, hempty, rfl, hname, hpassword⟩ (fun k call _ hcall => ?_) h.few
      have hsound := (h.good.calls k call hcall).sound
      refine ⟨hsound.of_same rfl rfl, fun _ => hsound.not_past hempty fun point hp => ?_⟩
      obtain ⟨turns', stage⟩ := call
      obtain rfl : stage = .waits point := hp
      exact hlooking k point (System.pointOf_of_call hcall)

theorem Inv.begins (h : Inv numeral cell w s) :
    Inv numeral cell w (s.begins ((handlers numeral cell).start s.world request)) := by
  have hnew : Good numeral cell s.world ⟨[(s.world, s.world)],
      .waits (.counted request s.world.accounts.accounts.entries.length)⟩ := by
    refine ⟨fun _ turn hm => ?_, trivial⟩
    rw [List.mem_singleton.mp hm]
  have hold : ∀ (k : Nat) (call : Call World Point Answer),
      (s.begins ((handlers numeral cell).start s.world request)).calls[k]? = some call →
      isPast call.stage = true → s.calls[k]? = some call := by
    intro k call hk hp
    rw [System.begins, List.getElem?_append] at hk
    split at hk
    · exact hk
    · rw [List.getElem?_singleton] at hk
      split at hk
      · cases hk
        cases hp
      · cases hk
  exact ⟨h.few, .begins trivial hnew h.good.calls, fun k k' call call' hk hk' hp hp' =>
    h.alone k k' call call' (hold k call hk hp) (hold k' call' hk' hp') hp hp'⟩

theorem Inv.of_reaches (h : (machine numeral cell w).Reaches (ok numeral cell) s) :
    Inv numeral cell w s := by
  refine h.invariant (fun s h0 => ?_) fun s t e hs hok hst => ?_
  · subst h0
    exact ⟨Nat.le_succ _, ⟨trivial, nofun⟩, fun _ _ _ _ hcall => by simp at hcall⟩
  · rcases Handlers.step_cases hst with ⟨body, rfl, rfl⟩ | ⟨i, hash, turns, point, rfl, hc, rfl⟩
    · exact hs.begins
    · cases hp : isPast (.waits point) with
      | true => exact hs.goesOn_past hc hp
      | false =>
        cases point with
        | counted request accounts =>
          have hcareful : accounts = 0 → Careful numeral cell s request := by
            rintro rfl
            exact hok request (System.pointOf_of_call hc)
          exact hs.goesOn_counted hash hc hcareful
        | _ => cases hp

/-- When the calls are careful, one call at most succeeds, one account at most is created,
and a call that is answered with an error changes nothing. -/
theorem once_of_careful (numeral : ℚ → String) (cell : Value → String) (w : World) (s : State)
    (h : (machine numeral cell w).Reaches (ok numeral cell) s) :
    (∀ (i k : Nat) (call call' : Call World Point Answer) (id id' : AccountId),
      s.calls[i]? = some call → s.calls[k]? = some call' → call.stage = .ended (.complete id) →
      call'.stage = .ended (.complete id') → i = k) ∧
    s.world.accounts.accounts.entries.length ≤ w.accounts.accounts.entries.length + 1 ∧
    ∀ call ∈ s.calls, ∀ answer, call.stage = .ended answer → answer.isError = true →
      ∀ turn ∈ call.turns, turn.2 = turn.1 := by
  have hinv := Inv.of_reaches h
  refine ⟨fun i k call call' id id' hi hk hc hc' => ?_, hinv.few, fun call hm answer hstage herr => ?_⟩
  · exact hinv.alone i k call call' hi hk (by rw [hc]; rfl) (by rw [hc']; rfl)
  · obtain ⟨i, hi⟩ := List.mem_iff_getElem?.mp hm
    refine (hinv.good.calls i call hi).clean ?_
    rw [hstage]
    cases answer with
    | complete id => cases herr
    | refused code message => rfl
    | failed => rfl

/-- The settings are the defaults, and nothing is stored. -/
def fresh : World where
  live := ⟨Layers.normalize (fun _ => "") ⟨DEFAULTS, none⟩, fun _ => .default⟩
  stored _ := none
  accounts := {}
  setupRequired := true

def firstRequest : Request where
  username := some (.text "admin")
  password := some (.text "password")
  settings
    | .baseDomain => some (.text "a.b")
    | _ => none

/-- A setup that is completed, and a second one that comes too late. -/
def completed : List (Event Request String) :=
  .call firstRequest :: List.replicate 6 (.resume 0 "") ++ [.call firstRequest, .resume 1 ""]

/-- A call that counts no account is alone, and its settings leave a base domain. -/
def isAlone (s : State) : Event Request String → Bool
  | .call _ => true
  | .resume i _ =>
    match s.pointOf i with
    | some (.counted request 0) =>
      (applySettings (fun _ => "") s.world.live
        (changedSettings (fun _ => "") s.world.live request.settings)).toOption.all
          (·.config.ready) &&
      column (fun _ => "") request.username = some (textOf (fun _ => "") request.username) &&
      request.password.any (fun
        | .text _ => true
        | _ => false) &&
      s.world.accounts.accounts.entries.isEmpty && s.calls.length = 1
    | _ => true

theorem ok_of_isAlone {e : Event Request String} (h : isAlone s e = true) :
    ok (fun _ => "") (fun _ => "") s e := by
  cases e with
  | call request => trivial
  | resume i hash =>
    intro request hpoint _ next hnext
    simp only [isAlone, hpoint, hnext, Bool.and_eq_true, decide_eq_true_eq] at h
    obtain ⟨⟨⟨⟨hready, hname⟩, hpassword⟩, hempty⟩, hone⟩ := h
    have hready : next.config.ready = true := hready
    refine ⟨fun hnot => absurd (hnot.symm.trans hready) Bool.false_ne_true, fun _ =>
      ⟨hname, ?_, List.isEmpty_iff.mp hempty, fun k point hk => ?_⟩⟩
    · obtain ⟨password, hgiven, htext⟩ := (Option.any_eq_true _ _).mp hpassword
      cases password with
      | text password => exact ⟨password, hgiven⟩
      | _ => cases htext
    · obtain ⟨_, hi⟩ := System.pointOf_eq_some hpoint
      obtain ⟨_, hk'⟩ := System.pointOf_eq_some hk
      have hlt := (List.getElem?_eq_some_iff.mp hi).1
      have hlt' := (List.getElem?_eq_some_iff.mp hk').1
      obtain rfl : k = i := by omega
      rw [hpoint] at hk
      cases hk
      rfl

theorem once_completed : ∃ s : State, s.world.setupRequired = false ∧
    s.world.live.config.baseDomain = "a.b" ∧
    s.world.accounts.accounts.entries.length ≤ fresh.accounts.accounts.entries.length + 1 := by
  have hrun : ((machine (fun _ => "") (fun _ => "") fresh).exec ⟨fresh, []⟩ completed).any
      (fun s => decide (s.world.setupRequired = false ∧ s.world.live.config.baseDomain = "a.b" ∧
        (machine (fun _ => "") (fun _ => "") fresh).Allowed (fun s e => isAlone s e = true)
          ⟨fresh, []⟩ completed)) = true := by decide
  obtain ⟨s, hexec, hp⟩ := (Option.any_eq_true _ _).mp hrun
  obtain ⟨hrequired, hdomain, hallowed⟩ := of_decide_eq_true hp
  have hreach := (Machine.Reaches.init rfl).exec completed hallowed hexec
  exact ⟨s, hrequired, hdomain,
    (once_of_careful (fun _ => "") (fun _ => "") fresh s (hreach.mono fun _ _ => ok_of_isAlone)).2.1⟩

/-- A request that sets the grace period, but no base domain. -/
def domainless : Request where
  username := some (.text "admin")
  password := some (.text "password")
  settings
    | .gracePeriod => some (.number (.finite 60))
    | _ => none

/-- A call is refused for the base domain, and the grace period has changed. -/
theorem not_always_once : ¬ ∀ (numeral : ℚ → String) (cell : Value → String) (w : World)
    (s : State), (machine numeral cell w).Reachable s →
    (∀ (i k : Nat) (call call' : Call World Point Answer) (id id' : AccountId),
      s.calls[i]? = some call → s.calls[k]? = some call' → call.stage = .ended (.complete id) →
      call'.stage = .ended (.complete id') → i = k) ∧
    s.world.accounts.accounts.entries.length ≤ w.accounts.accounts.entries.length + 1 ∧
    ∀ call ∈ s.calls, ∀ answer, call.stage = .ended answer → answer.isError = true →
      ∀ turn ∈ call.turns, turn.2 = turn.1 := by
  intro h
  have hrun : ((machine (fun _ => "") (fun _ => "") fresh).exec ⟨fresh, []⟩
      [.call domainless, .resume 0 ""]).any (fun s => s.calls.any fun call =>
        isError call.stage && call.turns.any fun turn =>
          turn.2.live.config.gracePeriod ≠ turn.1.live.config.gracePeriod) = true := by
    decide
  obtain ⟨s, hexec, hp⟩ := (Option.any_eq_true _ _).mp hrun
  obtain ⟨⟨turns, stage⟩, hm, hp⟩ := List.any_eq_true.mp hp
  rw [Bool.and_eq_true] at hp
  obtain ⟨hend, hp⟩ := hp
  obtain ⟨turn, hturn, hne⟩ := List.any_eq_true.mp hp
  cases stage with
  | waits point => cases hend
  | ended answer =>
    have hsame := (h _ _ fresh s ((Machine.Reachable.init rfl).exec _ hexec)).2.2 _ hm answer rfl
      hend turn hturn
    exact of_decide_eq_true hne (by rw [hsame])

end Tunlit.Settings.Setup
