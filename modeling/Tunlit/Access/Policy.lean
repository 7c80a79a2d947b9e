import Tunlit.Access.Address

/-! # Access policies

`lib/access.js` from `emptyPolicy` to `evaluate`: what a policy holds, how it is built
from what a client or the web UI sends, and which addresses it turns away. A value of
JSON that is neither a list nor a text is taken as the text `String` makes of it. -/
namespace Tunlit.Access.Policy
open Tunlit.Js.Text Tunlit.Access.Address

/-- An `Error` with a `code`. -/
structure Failure where
  message : String
  code : String
deriving DecidableEq, Repr

inductive AuthMode where
  | none
  | password
  | tunlit
deriving DecidableEq, Repr

def AUTH_MODES : List (String × AuthMode) :=
  [("none", .none), ("password", .password), ("tunlit", .tunlit)]

inductive Category where
  | tor
  | vpn
  | datacenter
  | blocklist
deriving DecidableEq, Repr

def CATEGORIES : List (String × Category) :=
  [("tor", .tor), ("vpn", .vpn), ("datacenter", .datacenter), ("blocklist", .blocklist)]

structure AllowRules where
  ips : List String := []
  countries : List String := []
deriving DecidableEq, Repr

structure BlockRules where
  ips : List String := []
  countries : List String := []
  categories : List Category := []
deriving DecidableEq, Repr

structure AccessPolicy where
  auth : AuthMode := .none
  passwordHash : Option String := Option.none
  allow : AllowRules := {}
  block : BlockRules := {}
deriving DecidableEq, Repr

def emptyPolicy : AccessPolicy := {}

/-! ## Building a policy -/

inductive ListInput where
  | list (entries : List String)
  | text (value : String)
deriving DecidableEq, Repr

structure PolicyInput where
  allowIps : Option ListInput := none
  allowCountries : Option ListInput := none
  blockIps : Option ListInput := none
  blockCountries : Option ListInput := none
  blockCategories : Option ListInput := none
  auth : Option String := none
  password : Option String := none
deriving DecidableEq, Repr

def fail {α : Type} (message : String) : Except Failure α := .error ⟨message, "bad_request"⟩

/-- The length of a string of JavaScript, in code units. -/
def utf16Length (s : String) : Nat := (s.toList.map fun c => if c.toNat < 0x10000 then 1 else 2).sum

def listOf : ListInput → List String
  | .list entries => (entries.map trim).filter (· ≠ "")
  | .text value => ((split ',' value.toList).map fun entry => trim (.ofList entry)).filter (· ≠ "")

def ipRules (value : ListInput) : Except Failure (List String) :=
  let rules := listOf value
  match rules.find? fun rule => (parseRule rule).isNone with
  | some rule => fail ("\"" ++ rule ++ "\" is not an IP address or CIDR range")
  | none => if 64 < rules.length then fail "At most 64 IP rules" else .ok rules

def isCountryCode (code : String) : Bool := code.length = 2 && code.toList.all isUpper

def countryCodes (value : ListInput) : Except Failure (List String) :=
  let codes := ((listOf value).map toUpperCase).eraseDups
  match codes.find? fun code => !isCountryCode code with
  | some code => fail ("\"" ++ code ++ "\" is not a country code")
  | none => .ok codes

def categories (value : ListInput) : Except Failure (List Category) :=
  (((listOf value).map toLowerCase).eraseDups).mapM fun entry =>
    match CATEGORIES.lookup entry with
    | some category => .ok category
    | none => fail ("\"" ++ entry ++ "\" is not one of " ++
        ", ".intercalate (CATEGORIES.map Prod.fst))

/-- The new value of a field that the input may leave alone. -/
def replaced {α : Type} (build : ListInput → Except Failure α) (input : Option ListInput)
    (previous : α) : Except Failure α :=
  match input with
  | some value => build value
  | none => .ok previous

/-- The authentication mode that is asked for. -/
def authOf (input : PolicyInput) (previous : AuthMode) : Except Failure AuthMode :=
  match input.auth with
  | none => .ok previous
  | some text =>
    match AUTH_MODES.lookup (if text = "" then "none" else text) with
    | some mode => .ok mode
    | none => fail ("auth must be one of " ++ ", ".intercalate (AUTH_MODES.map Prod.fst))

/-- The policy with the lists that the input gives. -/
def withRules (input : PolicyInput) (previous : AccessPolicy) : Except Failure AccessPolicy := do
  let allowIps ← replaced ipRules input.allowIps previous.allow.ips
  let allowCountries ← replaced countryCodes input.allowCountries previous.allow.countries
  let blockIps ← replaced ipRules input.blockIps previous.block.ips
  let blockCountries ← replaced countryCodes input.blockCountries previous.block.countries
  let blockCategories ← replaced categories input.blockCategories previous.block.categories
  pure { previous with
    allow := ⟨allowIps, allowCountries⟩
    block := ⟨blockIps, blockCountries, blockCategories⟩ }

/-- The policy with the password that the input gives; `hashPassword` salts and hashes it. -/
def withPassword (hashPassword : String → String) (input : PolicyInput) (policy : AccessPolicy) :
    Except Failure AccessPolicy :=
  match input.password with
  | none | some "" => .ok policy
  | some password =>
    if utf16Length password < 4 then fail "The tunnel password must be at least 4 characters"
    else .ok { policy with
      passwordHash := some (hashPassword password)
      auth := if input.auth.isNone then .password else policy.auth }

/-- The last lines of `buildPolicy`: a hash is there if and only if it is asked for. -/
def settled (policy : AccessPolicy) : Except Failure AccessPolicy :=
  if policy.auth = .password ∧ policy.passwordHash = none then
    fail "Password protection needs a password"
  else if policy.auth ≠ .password then .ok { policy with passwordHash := none }
  else .ok policy

def buildPolicy (hashPassword : String → String) (input : PolicyInput)
    (previous : AccessPolicy) : Except Failure AccessPolicy := do
  let policy ← withRules input previous
  let auth ← authOf input policy.auth
  let policy ← withPassword hashPassword input { policy with auth := auth }
  settled policy

/-! ## Evaluating a policy -/

/-- What is known about an address. -/
structure Intel where
  country : Option String := none
  tor : Bool := false
  vpn : Bool := false
  datacenter : Bool := false
  blocklisted : Bool := false
deriving DecidableEq, Repr

def Intel.inCountry (intel : Intel) (countries : List String) : Bool :=
  countries.any fun code => intel.country = some code

/-- `intel[CATEGORY_KEYS[category]]`. -/
def Intel.flag (intel : Intel) : Category → Bool
  | .tor => intel.tor
  | .vpn => intel.vpn
  | .datacenter => intel.datacenter
  | .blocklist => intel.blocklisted

inductive Reason where
  | address
  | country
  | category (category : Category)
deriving DecidableEq, Repr

def hasRules (policy : AccessPolicy) : Bool :=
  0 < policy.allow.ips.length + policy.allow.countries.length + policy.block.ips.length +
    policy.block.countries.length + policy.block.categories.length

def isRestricted (policy : AccessPolicy) : Bool := policy.auth ≠ .none || hasRules policy

def evaluate (policy : AccessPolicy) (ip : String) (intel : Intel) : Option Reason :=
  if !hasRules policy then none
  else if policy.block.ips ≠ [] && isAllowed ip policy.block.ips then some .address
  else if intel.inCountry policy.block.countries then some .country
  else match policy.block.categories.find? intel.flag with
    | some category => some (.category category)
    | none =>
      if policy.allow.ips ≠ [] && !isAllowed ip policy.allow.ips then some .address
      else if policy.allow.countries ≠ [] && !intel.inCountry policy.allow.countries then
        some .country
      else none

/-! ## What a policy asks for -/

/-- The address meets no block rule and every list of allow rules that is not empty. -/
structure Admits (policy : AccessPolicy) (ip : String) (intel : Intel) : Prop where
  blockIps : ∀ rule ∈ policy.block.ips, ¬ Matches ip rule
  blockCountries : ∀ code ∈ policy.block.countries, intel.country ≠ some code
  blockCategories : ∀ category ∈ policy.block.categories, intel.flag category = false
  allowIps : policy.allow.ips ≠ [] → ∃ rule ∈ policy.allow.ips, Matches ip rule
  allowCountries : policy.allow.countries ≠ [] →
    ∃ code ∈ policy.allow.countries, intel.country = some code

theorem hasRules_eq_false {policy : AccessPolicy} :
    hasRules policy = false ↔ policy.allow = {} ∧ policy.block = {} := by
  obtain ⟨auth, hash, ⟨ai, ac⟩, ⟨bi, bc, bk⟩⟩ := policy
  simp [hasRules, List.length_eq_zero_iff]
  tauto

theorem not_hasRules_admits {policy : AccessPolicy} {ip : String} {intel : Intel}
    (h : hasRules policy = false) : Admits policy ip intel := by
  obtain ⟨ha, hb⟩ := hasRules_eq_false.mp h
  constructor <;> simp [ha, hb]

theorem inCountry_iff {intel : Intel} {countries : List String} :
    intel.inCountry countries ↔ ∃ code ∈ countries, intel.country = some code := by
  simp [Intel.inCountry]

theorem blocked_ips_iff {ip : String} {rules : List String} :
    (decide (rules ≠ []) && isAllowed ip rules) = false ↔ ∀ rule ∈ rules, ¬ Matches ip rule := by
  rw [Bool.and_eq_false_iff, decide_eq_false_iff_not, ← Bool.not_eq_true, isAllowed_iff]
  cases rules with
  | nil => simp
  | cons rule rules => simp

theorem missed_ips_iff {ip : String} {rules : List String} :
    (decide (rules ≠ []) && !isAllowed ip rules) = false ↔
      (rules ≠ [] → ∃ rule ∈ rules, Matches ip rule) := by
  rw [Bool.and_eq_false_iff, decide_eq_false_iff_not, Bool.not_eq_false', isAllowed_iff]
  cases rules with
  | nil => simp
  | cons rule rules => simp

theorem missed_countries_iff {intel : Intel} {countries : List String} :
    (decide (countries ≠ []) && !intel.inCountry countries) = false ↔
      (countries ≠ [] → ∃ code ∈ countries, intel.country = some code) := by
  rw [Bool.and_eq_false_iff, decide_eq_false_iff_not, Bool.not_eq_false', inCountry_iff]
  cases countries with
  | nil => simp
  | cons code countries => simp

/-- An address is let through when the rules ask for that, and only then. -/
theorem evaluate_eq_none {policy : AccessPolicy} {ip : String} {intel : Intel} :
    evaluate policy ip intel = none ↔ Admits policy ip intel := by
  unfold evaluate
  split
  · rename_i h
    have h : hasRules policy = false := by simpa using h
    exact iff_of_true rfl (not_hasRules_admits h)
  split
  · rename_i h
    refine iff_of_false (by simp) fun ha => ?_
    rw [blocked_ips_iff.mpr ha.blockIps] at h
    cases h
  rename_i hbi
  split
  · rename_i h
    obtain ⟨code, hm, hc⟩ := inCountry_iff.mp h
    exact iff_of_false (by simp) fun ha => ha.blockCountries code hm hc
  rename_i hbc
  split
  · rename_i category h
    refine iff_of_false (by simp) fun ha => ?_
    have := ha.blockCategories category (List.mem_of_find?_eq_some h)
    rw [List.find?_some h] at this
    cases this
  rename_i hbk
  split
  · rename_i h
    refine iff_of_false (by simp) fun ha => ?_
    rw [missed_ips_iff.mpr ha.allowIps] at h
    cases h
  rename_i hai
  split
  · rename_i h
    refine iff_of_false (by simp) fun ha => ?_
    rw [missed_countries_iff.mpr ha.allowCountries] at h
    cases h
  rename_i hac
  rw [Bool.not_eq_true] at hbi hai hac
  refine iff_of_true rfl ⟨blocked_ips_iff.mp hbi, ?_, ?_, missed_ips_iff.mp hai,
    missed_countries_iff.mp hac⟩
  · intro code hm hc
    exact hbc (inCountry_iff.mpr ⟨code, hm, hc⟩)
  · intro category hm
    simpa using List.find?_eq_none.mp hbk category hm

/-- Without rules nothing is turned away, so an unrestricted policy admits everyone. -/
theorem not_isRestricted {policy : AccessPolicy} {ip : String} {intel : Intel}
    (h : isRestricted policy = false) : policy.auth = .none ∧ Admits policy ip intel := by
  simp only [isRestricted, Bool.or_eq_false_iff, decide_eq_false_iff_not, not_not] at h
  exact ⟨h.1, not_hasRules_admits h.2⟩

/-! ## What is built -/

/-- The policy asks for a password only if it has one, and keeps none otherwise. -/
def WellFormed (policy : AccessPolicy) : Prop :=
  policy.auth = .password ↔ policy.passwordHash.isSome

theorem wellFormed_emptyPolicy : WellFormed emptyPolicy := by simp [WellFormed, emptyPolicy]

theorem settled_wellFormed {previous policy : AccessPolicy} (h : settled previous = .ok policy) :
    WellFormed policy := by
  unfold settled at h
  split at h
  · cases h
  rename_i hp
  split at h
  · rename_i ha
    cases h
    exact iff_of_false ha (by simp)
  · rename_i ha
    cases h
    have ha : previous.auth = .password := not_not.mp ha
    exact iff_of_true ha (Option.isSome_iff_ne_none.mpr fun hn => hp ⟨ha, hn⟩)

theorem bind_ok {α β : Type} {x : Except Failure α} {f : α → Except Failure β} {b : β}
    (h : x >>= f = .ok b) : ∃ a, x = .ok a ∧ f a = .ok b := by
  cases x with
  | error e => cases h
  | ok a => exact ⟨a, rfl, h⟩

theorem buildPolicy_wellFormed {hash : String → String} {input : PolicyInput}
    {previous policy : AccessPolicy} (h : buildPolicy hash input previous = .ok policy) :
    WellFormed policy := by
  obtain ⟨_, -, h⟩ := bind_ok h
  obtain ⟨_, -, h⟩ := bind_ok h
  obtain ⟨_, -, h⟩ := bind_ok h
  exact settled_wellFormed h

/-! ## What an input leaves alone -/

/-- The input asks for no authentication. -/
def PolicyInput.LeavesAuth (input : PolicyInput) : Prop :=
  input.auth = none ∧ (input.password = none ∨ input.password = some "")

/-- The fields that an input does not set are the old ones; the mode and the password of the
authentication are one field, and there is a password only where the mode asks for one. -/
structure Keeps (input : PolicyInput) (old new : AccessPolicy) : Prop where
  allowIps : input.allowIps = none → new.allow.ips = old.allow.ips
  allowCountries : input.allowCountries = none → new.allow.countries = old.allow.countries
  blockIps : input.blockIps = none → new.block.ips = old.block.ips
  blockCountries : input.blockCountries = none → new.block.countries = old.block.countries
  blockCategories : input.blockCategories = none → new.block.categories = old.block.categories
  auth : input.LeavesAuth → new.auth = old.auth ∧
    (old.auth = .password → new.passwordHash = old.passwordHash)

theorem Keeps.rfl {input : PolicyInput} {policy : AccessPolicy} : Keeps input policy policy :=
  ⟨fun _ => .refl _, fun _ => .refl _, fun _ => .refl _, fun _ => .refl _, fun _ => .refl _,
    fun _ => ⟨.refl _, fun _ => .refl _⟩⟩

theorem replaced_none {α : Type} {build : ListInput → Except Failure α} {input : Option ListInput}
    {previous value : α} (h : replaced build input previous = .ok value) (hi : input = none) :
    value = previous := by
  subst hi
  cases h
  rfl

theorem withRules_keeps {input : PolicyInput} {previous policy : AccessPolicy}
    (h : withRules input previous = .ok policy) : Keeps input previous policy := by
  obtain ⟨allowIps, hai, h⟩ := bind_ok h
  obtain ⟨allowCountries, hac, h⟩ := bind_ok h
  obtain ⟨blockIps, hbi, h⟩ := bind_ok h
  obtain ⟨blockCountries, hbc, h⟩ := bind_ok h
  obtain ⟨blockCategories, hbk, h⟩ := bind_ok h
  cases h
  exact ⟨replaced_none hai, replaced_none hac, replaced_none hbi, replaced_none hbc,
    replaced_none hbk, fun _ => ⟨rfl, fun _ => rfl⟩⟩

theorem withPassword_none {hash : String → String} {input : PolicyInput}
    {previous policy : AccessPolicy} (h : withPassword hash input previous = .ok policy)
    (hp : input.password = none ∨ input.password = some "") : policy = previous := by
  unfold withPassword at h
  rcases hp with hp | hp <;> rw [hp] at h <;> cases h <;> rfl

theorem withPassword_rules {hash : String → String} {input : PolicyInput}
    {previous policy : AccessPolicy} (h : withPassword hash input previous = .ok policy) :
    policy.allow = previous.allow ∧ policy.block = previous.block := by
  unfold withPassword at h
  split at h
  · cases h; exact ⟨rfl, rfl⟩
  · cases h; exact ⟨rfl, rfl⟩
  · split at h <;> cases h
    exact ⟨rfl, rfl⟩

theorem settled_keeps {input : PolicyInput} {previous policy : AccessPolicy}
    (h : settled previous = .ok policy) : Keeps input previous policy := by
  unfold settled at h
  split at h
  · cases h
  split at h
  · next ha =>
    cases h
    exact ⟨fun _ => rfl, fun _ => rfl, fun _ => rfl, fun _ => rfl, fun _ => rfl,
      fun _ => ⟨rfl, fun hp => absurd hp ha⟩⟩
  · cases h
    exact .rfl

theorem Keeps.trans {input : PolicyInput} {p q r : AccessPolicy} (h : Keeps input p q)
    (h' : Keeps input q r) : Keeps input p r where
  allowIps hi := (h'.allowIps hi).trans (h.allowIps hi)
  allowCountries hi := (h'.allowCountries hi).trans (h.allowCountries hi)
  blockIps hi := (h'.blockIps hi).trans (h.blockIps hi)
  blockCountries hi := (h'.blockCountries hi).trans (h.blockCountries hi)
  blockCategories hi := (h'.blockCategories hi).trans (h.blockCategories hi)
  auth hi := ⟨(h'.auth hi).1.trans (h.auth hi).1, fun hp =>
    ((h'.auth hi).2 ((h.auth hi).1.trans hp)).trans ((h.auth hi).2 hp)⟩

/-- `buildPolicy` changes only what the input sets. -/
theorem buildPolicy_keeps {hash : String → String} {input : PolicyInput}
    {previous policy : AccessPolicy} (h : buildPolicy hash input previous = .ok policy) :
    Keeps input previous policy := by
  obtain ⟨ruled, hr, h⟩ := bind_ok h
  obtain ⟨auth, ha, h⟩ := bind_ok h
  obtain ⟨hashed, hw, h⟩ := bind_ok h
  have hrules := withPassword_rules hw
  have hmid : Keeps input ruled hashed := by
    refine ⟨fun _ => by rw [hrules.1], fun _ => by rw [hrules.1], fun _ => by rw [hrules.2],
      fun _ => by rw [hrules.2], fun _ => by rw [hrules.2], fun hi => ?_⟩
    rw [authOf, hi.1] at ha
    cases ha
    rw [withPassword_none hw hi.2]
    exact ⟨rfl, fun _ => rfl⟩
  exact (withRules_keeps hr).trans (hmid.trans (settled_keeps h))

end Tunlit.Access.Policy
