import Tunlit.Lib.Turns

/-! # Requests for the base certificate

`request`, `run`, `issueFor` and `client` of `lib/tls/manager.js`, over the settings that
`lib/tls/store.js` keeps. A call is cut at the awaits of `client`; `run`, and `issueFor` after
its client is built, are one wait each, for nothing of this changes there. A statement takes
effect when it is issued. -/
namespace Tunlit.Tls.Requests
open Tunlit.Lib.Runs Tunlit.Lib.Turns

/-! ## Settings -/

/-- The private keys of accounts, by number. -/
abbrev Key := ℕ

/-- A row of the table, with its defaults. -/
structure Settings where
  provider : String := "manual"
  credential : Option String := none
  accountKey : Option Key := none
deriving DecidableEq

/-- `settings`: `findOne` answers with the oldest row. -/
def settings (rows : List Settings) : Settings := rows.headD {}

/-- `Acme.update` of the row that was found, which is the oldest one, or `Acme.create`. -/
def store (rows : List Settings) (found : Bool) (accountKey : Key) : List Settings :=
  if found then rows.modifyHead fun row => { row with accountKey := some accountKey }
  else rows ++ [{ accountKey := some accountKey }]

structure Provider where
  title : String := ""
  needsCredential : Bool := false

/-- What every object of the language has a value for. -/
def INHERITED : List String :=
  ["constructor", "__defineGetter__", "__defineSetter__", "hasOwnProperty", "__lookupGetter__",
    "__lookupSetter__", "isPrototypeOf", "propertyIsEnumerable", "toString", "valueOf",
    "__proto__", "toLocaleString"]

/-- `providers.get` -/
def getProvider (id : String) : Option Provider :=
  if id = "cloudflare" then some { title := "Cloudflare", needsCredential := true }
  else if id = "manual" then some { title := "Add the record yourself" }
  else if id = "http" then some { title := "No DNS provider" }
  else if id ∈ INHERITED then some {}
  else none

/-! ## The manager -/

structure Config where
  ready : Bool
  wildcard : Bool
  managesTls : Bool

/-- The manager and its table. `clients` has the account key of every client built so far. -/
structure World where
  config : Config
  rows : List Settings := []
  busy : Bool := false
  issuing : List String := []
  clients : List Key := []

/-- The calls, and so what a client is built for. -/
inductive Use where
  | request
  | issueFor (hostname : String)
deriving DecidableEq

inductive Point where
  | settings (use : Use) (settings : Settings)
  | generating (use : Use) (settings : Settings)
  | finding (use : Use) (settings : Settings) (accountKey : Key) (found : Bool)
  | saving (use : Use) (settings : Settings) (accountKey : Key)
  | running
  | issuing (hostname : String)
deriving DecidableEq

inductive Answer where
  | requested
  | issued
  | refused (code : ℕ) (message : String)
  | failed (message : String)
deriving DecidableEq

/-- What `request` tests once it has its client. -/
def refusal (config : Config) (settings : Settings) : Option String :=
  if config.wildcard && settings.provider == "http" then
    some "Subdomain forwarding needs a wildcard certificate, which requires a DNS provider"
  else match getProvider settings.provider with
    | none => some s!"Unknown DNS provider \"{settings.provider}\""
    | some provider =>
      if provider.needsCredential && (settings.credential.getD "").isEmpty then
        some s!"{provider.title} needs an API token"
      else none

/-- The `finally` of `issueFor`. -/
def World.leaves (w : World) : Use → World
  | .request => w
  | .issueFor hostname => { w with issuing := w.issuing.erase hostname }

/-- What a call does with its client. -/
def World.built (w : World) (use : Use) (settings : Settings) (accountKey : Key) :
    World × Stage Point Answer :=
  match use with
  | .issueFor hostname =>
    ({ w with clients := w.clients ++ [accountKey] }, .waits (.issuing hostname))
  | .request =>
    match refusal w.config settings with
    | some message =>
      ({ w with clients := w.clients ++ [accountKey] }, .ended (.refused 400 message))
    | none => ({ w with clients := w.clients ++ [accountKey], busy := true }, .waits .running)

def start (w : World) : Use → World × Stage Point Answer
  | .request =>
    if w.busy then (w, .ended (.refused 409 "A certificate request is already running"))
    else if !w.config.ready then (w, .ended (.refused 400 "Set the base domain first"))
    else (w, .waits (.settings .request (settings w.rows)))
  | .issueFor hostname =>
    if w.issuing.contains hostname then
      (w, .ended (.failed s!"A certificate request for {hostname} is already running"))
    else if !w.config.managesTls then
      (w, .ended (.failed "tunlit does not manage certificates on this server"))
    else ({ w with issuing := w.issuing ++ [hostname] },
      .waits (.settings (.issueFor hostname) (settings w.rows)))

/-- What was waited for is there; where a key is made, it is this one. -/
def proceed (w : World) (key : Key) : Point → World × Stage Point Answer
  | .settings use settings =>
    match settings.accountKey with
    | some accountKey => w.built use settings accountKey
    | none => (w, .waits (.generating use settings))
  | .generating use settings => (w, .waits (.finding use settings key (!w.rows.isEmpty)))
  | .finding use settings accountKey found =>
    ({ w with rows := store w.rows found accountKey }, .waits (.saving use settings accountKey))
  | .saving use settings accountKey => w.built use settings accountKey
  | .running => ({ w with busy := false }, .ended .requested)
  | .issuing hostname => (w.leaves (.issueFor hostname), .ended .issued)

/-- What a call does when what it waits for fails; `run` only logs it. -/
def fail (w : World) : Point → World × Stage Point Answer
  | .settings use _ | .generating use _ | .finding use _ _ _ | .saving use _ _ =>
    (w.leaves use, .ended (.failed "client"))
  | .running => ({ w with busy := false }, .ended .requested)
  | .issuing hostname => (w.leaves (.issueFor hostname), .ended (.failed "issueFor"))

def handlers : Handlers World Use (Option Key) Point Answer where
  start := start
  resume
    | w, point, some key => proceed w key point
    | w, point, none => fail w point

abbrev Manager := System World Point Answer

/-- A manager starts with the settings that are stored, and with nothing under way. -/
def machine : Machine Manager (Event Use (Option Key)) :=
  handlers.machine fun s => s.calls = [] ∧ s.world.busy = false ∧ s.world.issuing = [] ∧
    s.world.clients = []

/-! ## One at a time -/

/-- The account key that is stored. -/
def World.accountKey (w : World) : Option Key := (settings w.rows).accountKey

/-- The use and the settings of a call that is in `client`. -/
def Point.inClient : Point → Option (Use × Settings)
  | .settings use stored | .generating use stored | .finding use stored _ _
  | .saving use stored _ => some (use, stored)
  | .running | .issuing _ => none

/-- The call runs, or it is a request in `client` that will. -/
def Point.runs (config : Config) (point : Point) : Prop :=
  point = .running ∨
    ∃ inside ∈ point.inClient, inside.1 = .request ∧ refusal config inside.2 = none

instance (config : Config) (point : Point) : Decidable (point.runs config) :=
  inferInstanceAs (Decidable (_ ∨ _))

/-- Two calls that are in each other's way: both are to run, or both are to make a key. -/
def Clash (w : World) (point other : Point) : Prop :=
  point.runs w.config ∧ other.runs w.config ∨
    w.accountKey = none ∧ point.inClient.isSome ∧ other.inClient.isSome

instance (w : World) (point other : Point) : Decidable (Clash w point other) :=
  inferInstanceAs (Decidable (_ ∨ _))

/-- One run at a time, which the flag tells of, and one account key. -/
structure Single (s : Manager) : Prop where
  one : ∀ i k, s.pointOf i = some .running → s.pointOf k = some .running → i = k
  busy : s.world.busy = true ↔ ∃ i, s.pointOf i = some .running
  key : ∀ key ∈ s.world.clients, s.world.accountKey = some key

/-- A call that enters `client` is in the way of no other there. -/
def ok (s : Manager) : Event Use (Option Key) → Prop
  | .call use => ∀ point ∈ (start s.world use).2.point, ∀ call ∈ s.calls,
    ∀ other ∈ call.stage.point, ¬ Clash s.world point other
  | .resume _ _ => True

instance (s : Manager) : ∀ e, Decidable (ok s e)
  | .call use => inferInstanceAs (Decidable (∀ point ∈ (start s.world use).2.point,
    ∀ call ∈ s.calls, ∀ other ∈ call.stage.point, ¬ Clash s.world point other))
  | .resume _ _ => .isTrue trivial

variable {s : Manager} {w : World} {point other : Point} {use : Use} {stored : Settings} {key : Key}

theorem store_accountKey (rows : List Settings) :
    (settings (store rows (!rows.isEmpty) key)).accountKey = some key := by
  cases rows <;> rfl

/-- What is known of the account key where a call waits. -/
def Fits (w : World) : Point → Prop
  | .settings _ stored => stored.accountKey = w.accountKey
  | .generating _ _ => w.accountKey = none
  | .finding _ _ _ found => w.accountKey = none ∧ found = !w.rows.isEmpty
  | .saving _ _ key => w.accountKey = some key
  | .running | .issuing _ => True

/-- The state of a manager whose calls are in each other's way nowhere. -/
structure Sound (s : Manager) : Prop where
  fits : ∀ i point, s.pointOf i = some point → Fits s.world point
  apart : ∀ i k point other, s.pointOf i = some point → s.pointOf k = some other →
    Clash s.world point other → i = k
  busy : s.world.busy = true ↔ ∃ i, s.pointOf i = some .running
  key : ∀ key ∈ s.world.clients, s.world.accountKey = some key

theorem Sound.single (h : Sound s) : Single s where
  one i k hi hk := h.apart i k _ _ hi hk (.inl ⟨.inl rfl, .inl rfl⟩)
  busy := h.busy
  key := h.key

/-! ## A turn -/

variable {turn : World × Stage Point Answer} {w' : World}

theorem accountKey_congr (h : w'.rows = w.rows) : w'.accountKey = w.accountKey := by
  rw [World.accountKey, h, World.accountKey]

theorem Fits.congr (h : w'.rows = w.rows) (hf : Fits w point) : Fits w' point := by
  cases point <;> simp only [Fits, accountKey_congr h, h] at hf ⊢ <;> exact hf

theorem Clash.symm (h : Clash w point other) : Clash w other point := by
  rcases h with ⟨hp, ho⟩ | ⟨hk, hp, ho⟩
  · exact .inl ⟨ho, hp⟩
  · exact .inr ⟨hk, ho, hp⟩

/-- A turn that leaves the rows alone: where its call goes on to, and what it adds. -/
structure Plain (w : World) (point : Point) (turn : World × Stage Point Answer) : Prop where
  config : turn.1.config = w.config
  rows : turn.1.rows = w.rows
  fits : ∀ next ∈ turn.2.point, Fits w next
  runs : ∀ next ∈ turn.2.point, next.runs w.config → point.runs w.config
  inClient : ∀ next ∈ turn.2.point, next.inClient.isSome = true → point.inClient.isSome = true
  busy : turn.1.busy = (if turn.2.point = some .running then true
    else if point = .running then false else w.busy)
  clients : ∀ key ∈ turn.1.clients, key ∈ w.clients ∨ w.accountKey = some key

theorem ne_running_of_inClient {inside : Use × Settings} (h : point.inClient = some inside) :
    point ≠ .running := by
  intro he
  rw [he] at h
  cases h

theorem Plain.ended {answer : Answer} (hc : w'.config = w.config) (hr : w'.rows = w.rows)
    (hb : w'.busy = (if point = .running then false else w.busy)) (hl : w'.clients = w.clients) :
    Plain w point (w', .ended answer) where
  config := hc
  rows := hr
  fits := nofun
  runs := nofun
  inClient := nofun
  busy := hb
  clients _ hm := .inl (hl ▸ hm)

theorem mem_clients {clients : List Key} {other : Key} (hk : w.accountKey = some key)
    (hm : other ∈ clients ++ [key]) : other ∈ clients ∨ w.accountKey = some other := by
  rcases List.mem_append.mp hm with hm | hm
  · exact .inl hm
  · rw [List.mem_singleton.mp hm]
    exact .inr hk

theorem built_plain (hp : point.inClient = some (use, stored)) (hk : w.accountKey = some key) :
    Plain w point (w.built use stored key) := by
  have hne := ne_running_of_inClient hp
  have hin : point.inClient.isSome = true := by rw [hp]; rfl
  cases use with
  | issueFor hostname =>
    refine ⟨rfl, rfl, ?_, ?_, fun _ _ _ => hin, ?_, fun _ hm => mem_clients hk hm⟩
    · intro next hn
      cases hn
      trivial
    · intro next hn hr
      cases hn
      simp [Point.runs, Point.inClient] at hr
    · simp [World.built, Stage.point, hne]
  | request =>
    rw [World.built]
    split
    · refine ⟨rfl, rfl, nofun, nofun, nofun, ?_, fun _ hm => mem_clients hk hm⟩
      simp [Stage.point, hne]
    · next hrefusal =>
      refine ⟨rfl, rfl, ?_, ?_, fun _ _ _ => hin, rfl, fun _ hm => mem_clients hk hm⟩
      · intro next hn
        cases hn
        trivial
      · intro _ _ _
        exact .inr ⟨_, hp, rfl, hrefusal⟩

theorem leaves_plain {answer : Answer} (hne : point ≠ .running) (use : Use) :
    Plain w point (w.leaves use, .ended answer) := by
  cases use <;> exact Plain.ended rfl rfl (if_neg hne).symm rfl

theorem fail_plain (w : World) (point : Point) : Plain w point (fail w point) := by
  cases point with
  | running => exact Plain.ended rfl rfl rfl rfl
  | _ => refine leaves_plain ?_ _; nofun

theorem proceed_plain (hf : Fits w point)
    (hp : ∀ use stored key found, point ≠ .finding use stored key found) :
    Plain w point (proceed w key point) := by
  cases point with
  | settings use stored =>
    rw [proceed]
    split
    · next accountKey hkey =>
      exact built_plain rfl (hf.symm.trans hkey)
    · next hkey =>
      refine ⟨rfl, rfl, ?_, ?_, fun _ _ _ => rfl, rfl, fun _ hm => .inl hm⟩
      · intro next hn
        cases hn
        exact hf.symm.trans hkey
      · intro next hn hr
        cases hn
        exact .inr (hr.resolve_left nofun)
  | generating use stored =>
    refine ⟨rfl, rfl, ?_, ?_, fun _ _ _ => rfl, rfl, fun _ hm => .inl hm⟩
    · intro next hn
      cases hn
      exact ⟨hf, rfl⟩
    · intro next hn hr
      cases hn
      exact .inr (hr.resolve_left nofun)
  | finding use stored accountKey found => exact absurd rfl (hp use stored accountKey found)
  | saving use stored accountKey => exact built_plain rfl hf
  | running => exact Plain.ended rfl rfl rfl rfl
  | issuing hostname => refine leaves_plain ?_ _; nofun

/-! ## A run -/

theorem Plain.clash {next : Point} (h : Plain w point turn) (hn : turn.2 = .waits next)
    (hc : Clash turn.1 next other) : Clash w point other := by
  have hm : next ∈ turn.2.point := by rw [hn]; rfl
  rcases hc with ⟨hp, ho⟩ | ⟨hk, hp, ho⟩
  · rw [h.config] at hp ho
    exact .inl ⟨h.runs next hm hp, ho⟩
  · exact .inr ⟨accountKey_congr h.rows ▸ hk, h.inClient next hm hp, ho⟩

theorem Clash.congr (hc : w'.config = w.config) (hr : w'.rows = w.rows)
    (h : Clash w' point other) : Clash w point other := by
  rwa [Clash, hc, accountKey_congr hr] at h

theorem Sound.plain {i : Nat} {turns : List (World × World)} (h : Sound s)
    (hi : s.calls[i]? = some ⟨turns, .waits point⟩) (ht : Plain s.world point turn) :
    Sound (s.goesOn i turns turn) := by
  have hpoint : s.pointOf i = some point := System.pointOf_of_call hi
  refine ⟨fun k next hk => ?_, fun k q next other hk hq hc => ?_, ?_, fun key hm => ?_⟩
  · rcases System.pointOf_goesOn hk with ⟨-, hk⟩ | ⟨-, hn⟩
    · exact (h.fits k next hk).congr ht.rows
    · exact (ht.fits next (by rw [hn]; rfl)).congr ht.rows
  · rcases System.pointOf_goesOn hk with ⟨-, hk'⟩ | ⟨rfl, hn⟩
    · rcases System.pointOf_goesOn hq with ⟨-, hq⟩ | ⟨rfl, hn⟩
      · exact h.apart k q next other hk' hq (hc.congr ht.config ht.rows)
      · exact h.apart k q next point hk' hpoint (ht.clash hn hc.symm).symm
    · rcases System.pointOf_goesOn hq with ⟨hqi, hq⟩ | ⟨rfl, -⟩
      · exact h.apart k q point other hpoint hq (ht.clash hn hc)
      · rfl
  · -- the flag tells of the calls that run
    change turn.1.busy = true ↔ _
    rw [ht.busy]
    split
    · next hn => exact iff_of_true rfl ⟨i, System.pointOf_goesOn_self hi hn⟩
    · next hn =>
      have hothers : (∃ k, (s.goesOn i turns turn).pointOf k = some .running) ↔
          ∃ k, k ≠ i ∧ s.pointOf k = some .running := by
        refine exists_congr fun k => ⟨fun hk => ?_, fun ⟨hne, hk⟩ =>
          System.pointOf_goesOn_of hne hk⟩
        exact (System.pointOf_goesOn hk).resolve_right fun ⟨_, he⟩ => hn (by rw [he]; rfl)
      rw [hothers]
      split
      · next hrun =>
        refine iff_of_false nofun fun ⟨k, hne, hk⟩ => hne ?_
        exact h.apart k i _ _ hk hpoint (.inl ⟨.inl rfl, .inl hrun⟩)
      · next hrun =>
        rw [h.busy]
        refine exists_congr fun k => ⟨fun hk => ⟨?_, hk⟩, And.right⟩
        rintro rfl
        exact hrun (Option.some.inj (hpoint.symm.trans hk))
  · change turn.1.accountKey = some key
    rw [accountKey_congr ht.rows]
    rcases ht.clients key hm with hm | hm
    · exact h.key key hm
    · exact hm

/-- A key is stored: no other call was in `client`. -/
theorem Sound.store {i : Nat} {turns : List (World × World)} {accountKey : Key} {found : Bool}
    (h : Sound s) (key : Key)
    (hi : s.calls[i]? = some ⟨turns, .waits (.finding use stored accountKey found)⟩) :
    Sound (s.goesOn i turns (proceed s.world key (.finding use stored accountKey found))) := by
  have hpoint : s.pointOf i = some (.finding use stored accountKey found) :=
    System.pointOf_of_call hi
  obtain ⟨hnone, hfound⟩ := h.fits i _ hpoint
  have hkey : (proceed s.world key (.finding use stored accountKey found)).1.accountKey =
      some accountKey := by
    rw [hfound]
    exact store_accountKey s.world.rows
  have houtside : ∀ k other, k ≠ i → s.pointOf k = some other → other.inClient = none := by
    intro k other hne hk
    by_contra hin
    refine hne (h.apart k i other _ hk hpoint (.inr ⟨hnone, ?_, rfl⟩))
    exact Option.isSome_iff_ne_none.mpr hin
  refine ⟨fun k next hk => ?_, fun k q next other hk hq hc => ?_, ?_, fun key hm => ?_⟩
  · rcases System.pointOf_goesOn hk with ⟨hne, hk⟩ | ⟨-, hn⟩
    · have hout := houtside k next hne hk
      cases next with
      | running | issuing _ => trivial
      | _ => cases hout
    · cases hn
      exact hkey
  · have hruns : next.runs s.world.config ∧ other.runs s.world.config := by
      refine hc.resolve_right fun hnokey => ?_
      exact absurd (hkey.symm.trans hnokey.1) nofun
    have hback : ∀ k next, (s.goesOn i turns (proceed s.world key
        (.finding use stored accountKey found))).pointOf k = some next →
        next.runs s.world.config → ∃ before, s.pointOf k = some before ∧
          before.runs s.world.config := by
      intro k next hk hr
      rcases System.pointOf_goesOn hk with ⟨-, hk⟩ | ⟨rfl, hn⟩
      · exact ⟨next, hk, hr⟩
      · cases hn
        exact ⟨_, hpoint, .inr (hr.resolve_left nofun)⟩
    obtain ⟨before, hk, hr⟩ := hback k next hk hruns.1
    obtain ⟨before', hq, hr'⟩ := hback q other hq hruns.2
    exact h.apart k q before before' hk hq (.inl ⟨hr, hr'⟩)
  · change s.world.busy = true ↔ _
    rw [h.busy]
    refine exists_congr fun k => ⟨fun hk => System.pointOf_goesOn_of ?_ hk, fun hk => ?_⟩
    · rintro rfl
      cases hpoint.symm.trans hk
    · rcases System.pointOf_goesOn hk with ⟨-, hk⟩ | ⟨-, hn⟩
      · exact hk
      · cases hn
  · exact absurd (hnone.symm.trans (h.key key hm)) nofun

/-- What a call does when it begins. -/
theorem start_cases (w : World) (use : Use) :
    (start w use).2.point = none ∧ (start w use).1 = w ∨
    (start w use).2 = .waits (.settings use (settings w.rows)) ∧
      ∃ issuing, (start w use).1 = { w with issuing } := by
  cases use with
  | request =>
    rw [start]
    split
    · exact .inl ⟨rfl, rfl⟩
    · split
      · exact .inl ⟨rfl, rfl⟩
      · exact .inr ⟨rfl, w.issuing, rfl⟩
  | issueFor hostname =>
    rw [start]
    split
    · exact .inl ⟨rfl, rfl⟩
    · split
      · exact .inl ⟨rfl, rfl⟩
      · exact .inr ⟨rfl, _, rfl⟩

theorem mem_of_pointOf {i : Nat} (h : s.pointOf i = some point) :
    ∃ call ∈ s.calls, point ∈ call.stage.point := by
  obtain ⟨turns, hc⟩ := System.pointOf_eq_some h
  exact ⟨_, List.mem_of_getElem? hc, rfl⟩

theorem Sound.begins (h : Sound s) (hok : ok s (.call use)) :
    Sound (s.begins (start s.world use)) := by
  have hworld : ∃ issuing, (start s.world use).1 = { s.world with issuing } := by
    rcases start_cases s.world use with ⟨-, hw⟩ | ⟨-, hw⟩
    · exact ⟨s.world.issuing, hw⟩
    · exact hw
  obtain ⟨issuing, hworld⟩ := hworld
  have hnew : ∀ next, (start s.world use).2 = .waits next →
      next = .settings use (settings s.world.rows) := by
    intro next hn
    rcases start_cases s.world use with ⟨hended, -⟩ | ⟨hwaits, -⟩
    · rw [hn] at hended
      cases hended
    · cases hn.symm.trans hwaits
      rfl
  have hclear : ∀ k next other, (start s.world use).2 = .waits next → s.pointOf k = some other →
      ¬ Clash s.world next other := by
    intro k next other hn hk
    obtain ⟨call, hm, ho⟩ := mem_of_pointOf hk
    exact hok next (by rw [hn]; rfl) call hm other ho
  have hclash : ∀ point other, Clash (start s.world use).1 point other →
      Clash s.world point other := by
    intro point other hc
    rw [hworld] at hc
    exact hc
  refine ⟨fun k next hk => ?_, fun k q next other hk hq hc => ?_, ?_, fun key hm => ?_⟩
  · change Fits (start s.world use).1 next
    rw [hworld]
    rcases System.pointOf_begins_cases hk with hk | ⟨-, hn⟩
    · exact (h.fits k next hk).congr rfl
    · rw [hnew next hn]
      rfl
  · replace hc := hclash _ _ hc
    rcases System.pointOf_begins_cases hk with hk | ⟨rfl, hn⟩
    · rcases System.pointOf_begins_cases hq with hq | ⟨rfl, hn⟩
      · exact h.apart k q next other hk hq hc
      · exact absurd hc.symm (hclear k other next hn hk)
    · rcases System.pointOf_begins_cases hq with hq | ⟨rfl, -⟩
      · exact absurd hc (hclear q next other hn hq)
      · rfl
  · change (start s.world use).1.busy = true ↔ _
    rw [hworld, h.busy]
    refine exists_congr fun k => ⟨System.pointOf_begins_of, fun hk => ?_⟩
    rcases System.pointOf_begins hk with hk | hn
    · exact hk
    · cases hnew _ hn
  · change key ∈ (start s.world use).1.clients at hm
    change (start s.world use).1.accountKey = some key
    rw [hworld] at hm ⊢
    exact h.key key hm

theorem sound (h : machine.Reaches ok s) : Sound s := by
  refine h.invariant (fun s hs => ?_) fun s t e hs hok hst => ?_
  · obtain ⟨hcalls, hbusy, -, hclients⟩ := hs
    have hnone : ∀ i point, s.pointOf i ≠ some point := by
      intro i point hi
      rw [System.pointOf, hcalls] at hi
      cases hi
    refine ⟨fun i point hi => absurd hi (hnone i point),
      fun i _ point _ hi => absurd hi (hnone i point), ?_, ?_⟩
    · rw [hbusy]
      refine iff_of_false Bool.false_ne_true ?_
      intro hrunning
      obtain ⟨i, hi⟩ := hrunning
      exact hnone i _ hi
    · rw [hclients]
      intro _ hm
      cases hm
  · rcases Handlers.step_cases hst with ⟨use, rfl, rfl⟩ | ⟨i, input, turns, point, rfl, hi, rfl⟩
    · exact hs.begins hok
    · have hf := hs.fits i point (System.pointOf_of_call hi)
      cases input with
      | none => exact hs.plain hi (fail_plain _ _)
      | some key =>
        by_cases hp : ∃ use stored key found, point = .finding use stored key found
        · obtain ⟨use, stored, accountKey, found, rfl⟩ := hp
          exact hs.store key hi
        · exact hs.plain hi (proceed_plain hf fun use stored key found he =>
            hp ⟨use, stored, key, found, he⟩)

/-- Where no call enters `client` in the way of another one, there is one run at a time and
one account key. -/
theorem one_request (s : Manager) (h : machine.Reaches ok s) : Single s := (sound h).single

/-- A manager before its first certificate. -/
def fresh : Manager := ⟨{ config := ⟨true, false, true⟩ }, []⟩

/-- A certificate is requested; while `run` goes on, one for a hostname is issued and another
request is refused. -/
def apart : List (Event Use (Option Key)) :=
  [.call .request, .resume 0 (some 0), .resume 0 (some 1), .resume 0 (some 0),
    .resume 0 (some 0), .call (.issueFor "shop.org"), .call .request, .resume 1 (some 0)]

theorem one_request_apart : ∃ s, machine.Reaches ok s ∧ Single s ∧ s.world.busy = true ∧
    s.world.clients = [1, 1] := by
  have hrun : (machine.exec fresh apart).any (fun s =>
      decide (s.world.busy = true ∧ s.world.clients = [1, 1])) = true := by decide
  obtain ⟨s, hexec, hs⟩ := (Option.any_eq_true _ _).mp hrun
  have hinit : machine.init fresh := ⟨rfl, rfl, rfl, rfl⟩
  have hallowed : machine.Allowed ok fresh apart := by decide
  have hreach : machine.Reaches ok s := (Machine.Reaches.init hinit).exec apart hallowed hexec
  exact ⟨s, hreach, one_request s hreach, of_decide_eq_true hs⟩

/-- Two requests begin at once: both make a key, and both run. -/
def together : List (Event Use (Option Key)) :=
  [.call .request, .call .request, .resume 0 (some 0), .resume 1 (some 0), .resume 0 (some 1),
    .resume 1 (some 2), .resume 0 (some 0), .resume 1 (some 0), .resume 0 (some 0),
    .resume 1 (some 0)]

theorem two_requests : ∃ s, machine.Reachable s ∧ ¬ Single s := by
  have hrun : (machine.exec fresh together).any (fun s =>
      decide (s.pointOf 0 = some .running ∧ s.pointOf 1 = some .running)) = true := by
    decide
  obtain ⟨s, hexec, hs⟩ := (Option.any_eq_true _ _).mp hrun
  have hinit : machine.init fresh := ⟨rfl, rfl, rfl, rfl⟩
  have hreach : machine.Reachable s := (Machine.Reachable.init hinit).exec together hexec
  obtain ⟨hfirst, hsecond⟩ := of_decide_eq_true hs
  exact ⟨s, hreach, fun h => absurd (h.one 0 1 hfirst hsecond) nofun⟩

end Tunlit.Tls.Requests
