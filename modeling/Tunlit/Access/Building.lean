import Tunlit.Access.Policy

/-! # Building policies

`buildPolicy` of `lib/access.js` on the values of JSON, and on objects that it copies and
assigns to: what it returns is `Policy.withRules` and what follows it, and no object that was
there before changes. A value of JSON in place of the object of an input or of its `allow` or
`block` has none of their fields. -/
namespace Tunlit.Access.Building
open Tunlit.Js.Text Tunlit.Access.Address Tunlit.Access.Policy

/-! ## Values of JSON -/

inductive Leaf (Number : Type) where
  | null
  | bool (value : Bool)
  | number (value : Number)
  | text (value : String)
  | list (entries : List (Leaf Number))

/-- The value of `allow` or `block`. -/
inductive Part (Number : Type) where
  | leaf (value : Leaf Number)
  | lists (ips countries categories : Option (Leaf Number))

structure Input (Number : Type) where
  allow : Option (Part Number) := none
  block : Option (Part Number) := none
  auth : Option (Leaf Number) := none
  password : Option (Leaf Number) := none

section
variable {Number : Type} (numeral : Number → String)

mutual

/-- `String(value)`; `numeral` is that of a number. -/
def Leaf.string : Leaf Number → String
  | .null => "null"
  | .bool value => if value then "true" else "false"
  | .number value => numeral value
  | .text value => value
  | .list entries => ",".intercalate (joined entries)

/-- What `join` puts between its commas. -/
def joined : List (Leaf Number) → List String
  | [] => []
  | .null :: entries => "" :: joined entries
  | entry :: entries => entry.string :: joined entries

end

def Leaf.isTruthy [Zero Number] [DecidableEq Number] : Leaf Number → Bool
  | .null => false
  | .bool value => value
  | .number value => value ≠ 0
  | .text value => value ≠ ""
  | .list _ => true

/-- The value as `listOf` takes it. -/
def Leaf.asList : Leaf Number → ListInput
  | .list entries => .list (entries.map (·.string numeral))
  | value => .text (value.string numeral)

def Part.ips : Option (Part Number) → Option (Leaf Number)
  | some (.lists ips _ _) => ips
  | _ => none

def Part.countries : Option (Part Number) → Option (Leaf Number)
  | some (.lists _ countries _) => countries
  | _ => none

def Part.categories : Option (Part Number) → Option (Leaf Number)
  | some (.lists _ _ categories) => categories
  | _ => none

/-- The lists of an input. -/
def Input.lists (input : Input Number) : PolicyInput where
  allowIps := (Part.ips input.allow).map (·.asList numeral)
  allowCountries := (Part.countries input.allow).map (·.asList numeral)
  blockIps := (Part.ips input.block).map (·.asList numeral)
  blockCountries := (Part.countries input.block).map (·.asList numeral)
  blockCategories := (Part.categories input.block).map (·.asList numeral)

/-! ## The source -/

/-- `hashPassword`, with the salt and the hash in hexadecimal digits. -/
def hashPassword (salted : String → String × String) (password : String) : String :=
  "scrypt$" ++ (salted password).1 ++ "$" ++ (salted password).2

variable [Zero Number] [DecidableEq Number] (hash : String → String)

def authOf (auth : Option (Leaf Number)) (previous : AuthMode) : Except Failure AuthMode :=
  match auth with
  | none => .ok previous
  | some value =>
    match AUTH_MODES.lookup (if value.isTruthy then value.string numeral else "none") with
    | some mode => .ok mode
    | none => fail ("auth must be one of " ++ ", ".intercalate (AUTH_MODES.map Prod.fst))

def withAuth (input : Input Number) (policy : AccessPolicy) : Except Failure AccessPolicy :=
  (authOf numeral input.auth policy.auth).map fun auth => { policy with auth := auth }

def withPassword (input : Input Number) (policy : AccessPolicy) : Except Failure AccessPolicy :=
  match input.password with
  | none => .ok policy
  | some value =>
    if value.isTruthy then
      let password := value.string numeral
      if utf16Length password < 4 then fail "The tunnel password must be at least 4 characters"
      else .ok { policy with
        passwordHash := some (hash password)
        auth := if input.auth.isNone then .password else policy.auth }
    else .ok policy

/-- What `buildPolicy` returns, or the error that it throws. -/
def build (input : Input Number) (previous : AccessPolicy) : Except Failure AccessPolicy := do
  let policy ← withRules (input.lists numeral) previous
  let policy ← withAuth numeral input policy
  let policy ← withPassword numeral hash input policy
  settled policy

end

/-! ## Objects -/

/-- The object of a policy, with references to its two others. -/
structure PolicyObject where
  auth : AuthMode
  passwordHash : Option String
  allow : Nat
  block : Nat

/-- The objects there are of every kind, and the first reference that is free. -/
structure Heap where
  policy : Nat → PolicyObject
  allow : Nat → AllowRules
  block : Nat → BlockRules
  next : Nat

namespace Heap

/-- The policy that an object stands for. -/
def read (heap : Heap) (r : Nat) : AccessPolicy where
  auth := (heap.policy r).auth
  passwordHash := (heap.policy r).passwordHash
  allow := heap.allow (heap.policy r).allow
  block := heap.block (heap.policy r).block

def setAllow (heap : Heap) (r : Nat) (allow : AllowRules) : Heap :=
  { heap with allow := fun q => if q = r then allow else heap.allow q }

def setBlock (heap : Heap) (r : Nat) (block : BlockRules) : Heap :=
  { heap with block := fun q => if q = r then block else heap.block q }

def setPolicy (heap : Heap) (r : Nat) (policy : PolicyObject) : Heap :=
  { heap with policy := fun q => if q = r then policy else heap.policy q }

end Heap

/-- What runs on the objects and may throw: they stay as they are at that moment. -/
abbrev Run (α : Type) := ExceptT Failure (StateM Heap) α

/-- `{ ...previous, allow: { ...previous.allow }, block: { ...previous.block } }` -/
def spread (previous : Nat) : Run Nat := do
  let heap ← get
  let r := heap.next
  let copy := { heap.policy previous with allow := r, block := r }
  let heap := (heap.setAllow r (heap.read previous).allow).setBlock r (heap.read previous).block
  set { heap.setPolicy r copy with next := r + 1 }
  pure r

def raise {α : Type} (result : Except Failure α) : Run α := fun heap => (result, heap)

section
variable {Number : Type} (numeral : Number → String)

/-- Assigns a list of the input, if it is there. -/
def assign {α : Type} (given : Option (Leaf Number)) (build : ListInput → Except Failure α)
    (write : α → Heap → Heap) : Run Unit :=
  match given with
  | none => pure ()
  | some value => do
    let entries ← raise (build (value.asList numeral))
    modify (write entries)

def assignAllow (r : Nat) (change : AllowRules → AllowRules) (heap : Heap) : Heap :=
  heap.setAllow (heap.policy r).allow (change (heap.allow (heap.policy r).allow))

def assignBlock (r : Nat) (change : BlockRules → BlockRules) (heap : Heap) : Heap :=
  heap.setBlock (heap.policy r).block (change (heap.block (heap.policy r).block))

def assignLists (input : Input Number) (r : Nat) : Run Unit := do
  assign numeral (Part.ips input.allow) ipRules fun ips =>
    assignAllow r fun allow => { allow with ips := ips }
  assign numeral (Part.countries input.allow) countryCodes fun countries =>
    assignAllow r fun allow => { allow with countries := countries }
  assign numeral (Part.ips input.block) ipRules fun ips =>
    assignBlock r fun block => { block with ips := ips }
  assign numeral (Part.countries input.block) countryCodes fun countries =>
    assignBlock r fun block => { block with countries := countries }
  assign numeral (Part.categories input.block) categories fun categories =>
    assignBlock r fun block => { block with categories := categories }

variable [Zero Number] [DecidableEq Number] (hash : String → String)

/-- Assigns the mode and the hash that a step makes of the policy, or throws its error. -/
def assignFields (r : Nat) (step : AccessPolicy → Except Failure AccessPolicy) : Run Unit := do
  let heap ← get
  let policy ← raise (step (heap.read r))
  set (heap.setPolicy r
    { heap.policy r with auth := policy.auth, passwordHash := policy.passwordHash })

/-- What `buildPolicy` does to its copy. -/
def assignParts (input : Input Number) (r : Nat) : Run Unit := do
  assignLists numeral input r
  assignFields r (withAuth numeral input)
  assignFields r (withPassword numeral hash input)
  assignFields r settled

/-- `buildPolicy`: it returns a reference to the new policy. -/
def buildPolicy (input : Input Number) (previous : Nat) : Run Nat := do
  let r ← spread previous
  assignParts numeral hash input r
  pure r

end

/-! ## What runs is what is built -/

theorem run_ok {α β : Type} {run : Run α} {next : α → Run β} {heap heap' : Heap} {a : α}
    (h : run heap = (.ok a, heap')) : (run >>= next) heap = next a heap' := by
  show (ExceptT.bind run next) heap = _
  simp only [ExceptT.bind, ExceptT.mk, bind, StateT.bind, h]
  rfl

theorem run_error {α β : Type} {run : Run α} {next : α → Run β} {heap heap' : Heap}
    {failure : Failure} (h : run heap = (.error failure, heap')) :
    (run >>= next) heap = (.error failure, heap') := by
  show (ExceptT.bind run next) heap = _
  simp only [ExceptT.bind, ExceptT.mk, bind, StateT.bind, h]
  rfl

/-- All objects but those at one reference are as they were. -/
structure Others (old : Heap) (r : Nat) (heap : Heap) : Prop where
  policy : ∀ q, q ≠ r → heap.policy q = old.policy q
  allow : ∀ q, q ≠ r → heap.allow q = old.allow q
  block : ∀ q, q ≠ r → heap.block q = old.block q
  next : r < heap.next

/-- The objects at the reference stand for the policy. -/
structure Stands (old : Heap) (r : Nat) (policy : AccessPolicy) (heap : Heap) : Prop where
  object : heap.policy r = ⟨policy.auth, policy.passwordHash, r, r⟩
  allow : heap.allow r = policy.allow
  block : heap.block r = policy.block
  others : Others old r heap

/-- What ran ended like the step: with its policy in the objects, or with its error. -/
inductive After (old : Heap) (r : Nat) :
    Except Failure AccessPolicy → Except Failure Unit × Heap → Prop where
  | ok {policy : AccessPolicy} {heap : Heap} (stands : Stands old r policy heap) :
      After old r (.ok policy) (.ok (), heap)
  | error {failure : Failure} {heap : Heap} (others : Others old r heap) :
      After old r (.error failure) (.error failure, heap)

def Simulates (old : Heap) (r : Nat) (run : Run Unit)
    (step : AccessPolicy → Except Failure AccessPolicy) : Prop :=
  ∀ policy heap, Stands old r policy heap → After old r (step policy) (run heap)

variable {old : Heap} {r : Nat}

theorem Stands.read {policy : AccessPolicy} {heap : Heap} (h : Stands old r policy heap) :
    heap.read r = policy := by
  rw [Heap.read, h.object]
  dsimp only
  rw [h.allow, h.block]

theorem simulates_bind {run run' : Run Unit}
    {step step' : AccessPolicy → Except Failure AccessPolicy} (h : Simulates old r run step)
    (h' : Simulates old r run' step') :
    Simulates old r (run >>= fun _ => run') fun policy => step policy >>= step' := by
  intro policy heap hstands
  have hrun := h policy heap hstands
  generalize ho : step policy = outcome at hrun
  generalize hr : run heap = ran at hrun
  dsimp only
  rw [ho]
  cases hrun with
  | ok hstands' =>
    rw [run_ok hr]
    exact h' _ _ hstands'
  | error hothers =>
    rw [run_error hr]
    exact .error hothers

/-- The steps of `withRules`: one of them for a list. -/
def replace {α : Type} (given : Option ListInput) (build : ListInput → Except Failure α)
    (change : α → AccessPolicy → AccessPolicy) (policy : AccessPolicy) :
    Except Failure AccessPolicy :=
  match given with
  | none => .ok policy
  | some value => (build value).map fun entries => change entries policy

theorem simulates_assign {Number : Type} {numeral : Number → String} {α : Type}
    {given : Option (Leaf Number)} {build : ListInput → Except Failure α}
    {write : α → Heap → Heap} {change : α → AccessPolicy → AccessPolicy}
    (h : ∀ entries policy heap, Stands old r policy heap →
      Stands old r (change entries policy) (write entries heap)) :
    Simulates old r (assign numeral given build write)
      (replace (given.map (·.asList numeral)) build change) := by
  intro policy heap hstands
  cases given with
  | none => exact .ok hstands
  | some value =>
    show After old r ((build (value.asList numeral)).map _) _
    cases hbuild : build (value.asList numeral) with
    | error failure =>
      have hraise : raise (build (value.asList numeral)) heap = (.error failure, heap) := by
        rw [hbuild]
        rfl
      rw [assign]
      rw [run_error hraise]
      exact .error hstands.others
    | ok entries =>
      have hraise : raise (build (value.asList numeral)) heap = (.ok entries, heap) := by
        rw [hbuild]
        rfl
      rw [assign]
      rw [run_ok hraise]
      exact .ok (h entries policy heap hstands)

theorem stands_assignAllow {change : AllowRules → AllowRules} {policy : AccessPolicy} {heap : Heap}
    (h : Stands old r policy heap) :
    Stands old r { policy with allow := change policy.allow } (assignAllow r change heap) := by
  have hobject := h.object
  refine ⟨hobject, ?_, h.block, h.others.policy, fun q hq => ?_, h.others.block,
    h.others.next⟩
  · simp [assignAllow, Heap.setAllow, hobject, h.allow]
  · simpa [assignAllow, Heap.setAllow, hobject, hq] using h.others.allow q hq

theorem stands_assignBlock {change : BlockRules → BlockRules} {policy : AccessPolicy} {heap : Heap}
    (h : Stands old r policy heap) :
    Stands old r { policy with block := change policy.block } (assignBlock r change heap) := by
  have hobject := h.object
  refine ⟨hobject, h.allow, ?_, h.others.policy, h.others.allow, fun q hq => ?_,
    h.others.next⟩
  · simp [assignBlock, Heap.setBlock, hobject, h.block]
  · simpa [assignBlock, Heap.setBlock, hobject, hq] using h.others.block q hq

theorem simulates_assignFields {step : AccessPolicy → Except Failure AccessPolicy}
    (h : ∀ policy policy', step policy = .ok policy' →
      policy'.allow = policy.allow ∧ policy'.block = policy.block) :
    Simulates old r (assignFields r step) step := by
  intro policy heap hstands
  have hget : (get : Run Heap) heap = (.ok heap, heap) := rfl
  rw [assignFields, run_ok hget, hstands.read]
  cases hstep : step policy with
  | error failure =>
    have hraise : (raise (.error failure) : Run AccessPolicy) heap = (.error failure, heap) := rfl
    rw [run_error hraise]
    exact .error hstands.others
  | ok policy' =>
    have hraise : (raise (.ok policy') : Run AccessPolicy) heap = (.ok policy', heap) := rfl
    rw [run_ok hraise]
    obtain ⟨hallow, hblock⟩ := h policy policy' hstep
    refine .ok ⟨?_, hstands.allow.trans hallow.symm, hstands.block.trans hblock.symm,
      fun q hq => ?_, hstands.others.allow, hstands.others.block, hstands.others.next⟩
    · simp [Heap.setPolicy, hstands.object]
    · simpa [Heap.setPolicy, hq] using hstands.others.policy q hq

/-- The lists one after the other. -/
def ruleSteps (lists : PolicyInput) (policy : AccessPolicy) : Except Failure AccessPolicy := do
  let policy ← replace lists.allowIps ipRules
    (fun ips policy => { policy with allow := { policy.allow with ips := ips } }) policy
  let policy ← replace lists.allowCountries countryCodes
    (fun countries policy => { policy with allow := { policy.allow with countries := countries } })
    policy
  let policy ← replace lists.blockIps ipRules
    (fun ips policy => { policy with block := { policy.block with ips := ips } }) policy
  let policy ← replace lists.blockCountries countryCodes
    (fun countries policy => { policy with block := { policy.block with countries := countries } })
    policy
  replace lists.blockCategories categories
    (fun categories policy =>
      { policy with block := { policy.block with categories := categories } }) policy

theorem replace_eq {α : Type} (build : ListInput → Except Failure α) (given : Option ListInput)
    (change : α → AccessPolicy → AccessPolicy) (policy : AccessPolicy) (previous : α)
    (h : change previous policy = policy) :
    replace given build change policy =
      replaced build given previous >>= fun entries => .ok (change entries policy) := by
  cases given with
  | none => exact congrArg Except.ok h.symm
  | some value => cases hbuild : build value <;> simp [replace, replaced, hbuild] <;> rfl

theorem ok_bind {α β : Type} (a : α) (next : α → Except Failure β) :
    (Except.ok a >>= next) = next a := rfl

theorem ruleSteps_eq (lists : PolicyInput) : ruleSteps lists = withRules lists := by
  funext policy
  unfold ruleSteps withRules
  rw [replace_eq _ _ _ policy policy.allow.ips rfl]
  cases replaced ipRules lists.allowIps policy.allow.ips with
  | error failure => rfl
  | ok allowIps =>
  rw [ok_bind, ok_bind, ok_bind, replace_eq _ _ _ _ policy.allow.countries rfl]
  cases replaced countryCodes lists.allowCountries policy.allow.countries with
  | error failure => rfl
  | ok allowCountries =>
  rw [ok_bind, ok_bind, ok_bind, replace_eq _ _ _ _ policy.block.ips rfl]
  cases replaced ipRules lists.blockIps policy.block.ips with
  | error failure => rfl
  | ok blockIps =>
  rw [ok_bind, ok_bind, ok_bind, replace_eq _ _ _ _ policy.block.countries rfl]
  cases replaced countryCodes lists.blockCountries policy.block.countries with
  | error failure => rfl
  | ok blockCountries =>
  rw [ok_bind, ok_bind, ok_bind, replace_eq _ _ _ _ policy.block.categories rfl]
  rfl

section
variable {Number : Type} {numeral : Number → String}

theorem simulates_assignAllow {α : Type} (given : Option (Leaf Number))
    (build : ListInput → Except Failure α) (change : α → AllowRules → AllowRules) :
    Simulates old r (assign numeral given build fun entries => assignAllow r (change entries))
      (replace (given.map (·.asList numeral)) build fun entries policy =>
        { policy with allow := change entries policy.allow }) :=
  simulates_assign fun _ _ _ => stands_assignAllow

theorem simulates_assignBlock {α : Type} (given : Option (Leaf Number))
    (build : ListInput → Except Failure α) (change : α → BlockRules → BlockRules) :
    Simulates old r (assign numeral given build fun entries => assignBlock r (change entries))
      (replace (given.map (·.asList numeral)) build fun entries policy =>
        { policy with block := change entries policy.block }) :=
  simulates_assign fun _ _ _ => stands_assignBlock

theorem simulates_assignLists (input : Input Number) :
    Simulates old r (assignLists numeral input r) (withRules (input.lists numeral)) := by
  rw [← ruleSteps_eq]
  refine simulates_bind (simulates_assignAllow _ _ fun ips allow => { allow with ips := ips }) ?_
  refine simulates_bind
    (simulates_assignAllow _ _ fun countries allow => { allow with countries := countries }) ?_
  refine simulates_bind (simulates_assignBlock _ _ fun ips block => { block with ips := ips }) ?_
  refine simulates_bind
    (simulates_assignBlock _ _ fun countries block => { block with countries := countries }) ?_
  exact simulates_assignBlock _ _ fun categories block => { block with categories := categories }

variable [Zero Number] [DecidableEq Number] {hash : String → String}

theorem withAuth_lists {input : Input Number} {policy policy' : AccessPolicy}
    (h : withAuth numeral input policy = .ok policy') :
    policy'.allow = policy.allow ∧ policy'.block = policy.block := by
  unfold withAuth at h
  cases hauth : authOf numeral input.auth policy.auth with
  | error failure =>
    rw [hauth] at h
    cases h
  | ok auth =>
    rw [hauth] at h
    cases h
    exact ⟨rfl, rfl⟩

theorem withPassword_lists {input : Input Number} {policy policy' : AccessPolicy}
    (h : withPassword numeral hash input policy = .ok policy') :
    policy'.allow = policy.allow ∧ policy'.block = policy.block := by
  unfold withPassword at h
  split at h
  · cases h
    exact ⟨rfl, rfl⟩
  · split at h
    · dsimp only at h
      split at h
      · cases h
      · cases h
        exact ⟨rfl, rfl⟩
    · cases h
      exact ⟨rfl, rfl⟩

theorem settled_lists {policy policy' : AccessPolicy} (h : settled policy = .ok policy') :
    policy'.allow = policy.allow ∧ policy'.block = policy.block := by
  unfold settled at h
  split at h
  · cases h
  · split at h
    · cases h
      exact ⟨rfl, rfl⟩
    · cases h
      exact ⟨rfl, rfl⟩

theorem simulates_assignParts (input : Input Number) :
    Simulates old r (assignParts numeral hash input r) (build numeral hash input) := by
  refine simulates_bind (simulates_assignLists input) ?_
  refine simulates_bind (simulates_assignFields fun _ _ => withAuth_lists) ?_
  refine simulates_bind (simulates_assignFields fun _ _ => withPassword_lists) ?_
  exact simulates_assignFields fun _ _ => settled_lists

end

/-! ## What was there before -/

/-- The objects of a policy are among those there are. -/
structure Heap.Has (heap : Heap) (r : Nat) : Prop where
  policy : r < heap.next
  allow : (heap.policy r).allow < heap.next
  block : (heap.policy r).block < heap.next

/-- The policies that were there before are there, and the same. -/
def Keeps (old heap : Heap) : Prop := ∀ r, old.Has r → heap.Has r ∧ heap.read r = old.read r

theorem Others.keeps {heap : Heap} (h : Others old old.next heap) : Keeps old heap := by
  intro q hhas
  have hpolicy := h.policy q (Nat.ne_of_lt hhas.policy)
  have hallow := h.allow _ (Nat.ne_of_lt hhas.allow)
  have hblock := h.block _ (Nat.ne_of_lt hhas.block)
  refine ⟨⟨Nat.lt_trans hhas.policy h.next, ?_, ?_⟩, ?_⟩
  · rw [hpolicy]
    exact Nat.lt_trans hhas.allow h.next
  · rw [hpolicy]
    exact Nat.lt_trans hhas.block h.next
  · rw [Heap.read, hpolicy, hallow, hblock]
    rfl

/-- What `buildPolicy` leaves behind: a new policy or an error, and the old policies. -/
inductive Built (old : Heap) : Except Failure AccessPolicy → Except Failure Nat × Heap → Prop where
  | ok {r : Nat} {heap : Heap} (has : heap.Has r) (keeps : Keeps old heap) :
      Built old (.ok (heap.read r)) (.ok r, heap)
  | error {failure : Failure} {heap : Heap} (keeps : Keeps old heap) :
      Built old (.error failure) (.error failure, heap)

theorem stands_spread (old : Heap) (previous : Nat) :
    ∃ heap, spread previous old = (.ok old.next, heap) ∧
      Stands old old.next (old.read previous) heap := by
  refine ⟨_, rfl, ?_, ?_, ?_, ?_, ?_, ?_, Nat.lt_succ_self _⟩
  · simp [Heap.setPolicy, Heap.read]
  · simp [Heap.setPolicy, Heap.setBlock, Heap.setAllow]
  · simp [Heap.setPolicy, Heap.setBlock]
  all_goals
    intro q hq
    simp [Heap.setPolicy, Heap.setBlock, Heap.setAllow, hq]

/-- The policy that is built is a new one, of new objects. -/
theorem buildPolicy_spec {Number : Type} [Zero Number] [DecidableEq Number]
    (numeral : Number → String) (hash : String → String) (input : Input Number) (previous : Nat)
    (old : Heap) :
    Built old (build numeral hash input (old.read previous))
      (buildPolicy numeral hash input previous old) := by
  obtain ⟨copied, hspread, hstands⟩ := stands_spread old previous
  have hsimulates : Simulates old old.next (assignParts numeral hash input old.next)
      (build numeral hash input) := simulates_assignParts input
  have hafter := hsimulates _ _ hstands
  rw [buildPolicy, run_ok hspread]
  generalize build numeral hash input (old.read previous) = outcome at hafter
  generalize hran : assignParts numeral hash input old.next copied = ran at hafter
  cases hafter with
  | ok hdone =>
    rw [run_ok hran, ← hdone.read]
    refine .ok ⟨hdone.others.next, ?_, ?_⟩ hdone.others.keeps
    all_goals
      rw [hdone.object]
      exact hdone.others.next
  | error hothers =>
    rw [run_error hran]
    exact .error hothers.keeps

/-! ## What a policy satisfies -/

structure Countries (codes : List String) : Prop where
  nodup : codes.Nodup
  pairs : ∀ code ∈ codes, isCountryCode code

structure Rules (rules : List String) : Prop where
  parse : ∀ rule ∈ rules, (parseRule rule).isSome

structure Valid (policy : AccessPolicy) : Prop where
  hash : WellFormed policy
  written : policy.passwordHash ≠ some ""
  allowIps : Rules policy.allow.ips
  allowCountries : Countries policy.allow.countries
  blockIps : Rules policy.block.ips
  blockCountries : Countries policy.block.countries
  blockCategories : policy.block.categories.Nodup

theorem valid_emptyPolicy : Valid emptyPolicy where
  hash := wellFormed_emptyPolicy
  written := by decide
  allowIps := ⟨by decide⟩
  allowCountries := ⟨by decide, by decide⟩
  blockIps := ⟨by decide⟩
  blockCountries := ⟨by decide, by decide⟩
  blockCategories := by decide

theorem nodup_eraseDups {α : Type} [BEq α] [LawfulBEq α] (l : List α) : l.eraseDups.Nodup := by
  induction hn : l.length using Nat.strong_induction_on generalizing l with
  | _ n ih =>
    cases l with
    | nil => exact List.nodup_nil
    | cons a l =>
      rw [List.eraseDups_cons]
      have hlength : (l.filter fun b => !b == a).length < n := by
        have hle := List.length_filter_le (fun b => !b == a) l
        rw [List.length_cons] at hn
        omega
      refine List.nodup_cons.mpr ⟨fun hmem => ?_, ih _ hlength _ rfl⟩
      simpa using (List.mem_filter.mp (List.mem_eraseDups.mp hmem)).2

theorem ipRules_ok {value : ListInput} {rules : List String} (h : ipRules value = .ok rules) :
    Rules rules ∧ rules.length ≤ 64 := by
  unfold ipRules at h
  dsimp only at h
  split at h
  · cases h
  · next hnone =>
    split at h
    · cases h
    · next hlength =>
      cases h
      refine ⟨⟨fun rule hrule => ?_⟩, Nat.not_lt.mp hlength⟩
      have hsome := List.find?_eq_none.mp hnone rule hrule
      simpa [Option.isSome_iff_ne_none] using hsome

theorem countryCodes_ok {value : ListInput} {codes : List String}
    (h : countryCodes value = .ok codes) : Countries codes := by
  unfold countryCodes at h
  dsimp only at h
  split at h
  · cases h
  · next hnone =>
    cases h
    refine ⟨nodup_eraseDups _, fun code hcode => ?_⟩
    have hpair := List.find?_eq_none.mp hnone code hcode
    simpa using hpair

section
variable {α β : Type} {f : α → Except Failure β}

theorem mapM_cons_ok {a : α} {l : List α} {made : List β} (h : (a :: l).mapM f = .ok made) :
    ∃ b rest, made = b :: rest ∧ f a = .ok b ∧ l.mapM f = .ok rest := by
  rw [List.mapM_cons] at h
  obtain ⟨b, hb, h⟩ := bind_ok h
  obtain ⟨rest, hrest, h⟩ := bind_ok h
  exact ⟨b, rest, (Except.ok.inj h).symm, hb, hrest⟩

theorem mem_of_mapM_ok {l : List α} {made : List β} (h : l.mapM f = .ok made) :
    ∀ b ∈ made, ∃ a ∈ l, f a = .ok b := by
  induction l generalizing made with
  | nil =>
    cases h
    intro b hb
    cases hb
  | cons a l ih =>
    obtain ⟨b, rest, rfl, hb, hrest⟩ := mapM_cons_ok h
    intro b' hb'
    rcases List.mem_cons.mp hb' with rfl | hmem
    · exact ⟨a, List.mem_cons_self, hb⟩
    · obtain ⟨a', ha', heq⟩ := ih hrest b' hmem
      exact ⟨a', List.mem_cons_of_mem _ ha', heq⟩

/-- What differs stays different. -/
theorem nodup_of_mapM_ok (hinj : ∀ a a' b, f a = .ok b → f a' = .ok b → a = a') {l : List α}
    {made : List β} (hl : l.Nodup) (h : l.mapM f = .ok made) : made.Nodup := by
  induction l generalizing made with
  | nil =>
    cases h
    exact List.nodup_nil
  | cons a l ih =>
    obtain ⟨b, rest, rfl, hb, hrest⟩ := mapM_cons_ok h
    obtain ⟨hnot, hl⟩ := List.nodup_cons.mp hl
    refine List.nodup_cons.mpr ⟨fun hmem => ?_, ih hl hrest⟩
    obtain ⟨a', ha', heq⟩ := mem_of_mapM_ok hrest b hmem
    exact hnot (hinj a a' b hb heq ▸ ha')

end

/-- A category has one name. -/
theorem lookup_category {entry entry' : String} {category : Category}
    (h : CATEGORIES.lookup entry = some category) (h' : CATEGORIES.lookup entry' = some category) :
    entry = entry' := by
  have key : ∀ named ∈ CATEGORIES, ∀ named' ∈ CATEGORIES, named.2 = named'.2 →
      named.1 = named'.1 := by decide
  obtain ⟨l₁, l₂, heq, -⟩ := List.lookup_eq_some_iff.mp h
  obtain ⟨l₁', l₂', heq', -⟩ := List.lookup_eq_some_iff.mp h'
  exact key (entry, category) (by rw [heq]; simp) (entry', category) (by rw [heq']; simp) rfl

theorem categories_ok {value : ListInput} {list : List Category}
    (h : categories value = .ok list) : list.Nodup := by
  refine nodup_of_mapM_ok (fun entry entry' category he he' => ?_) (nodup_eraseDups _) h
  split at he
  · next hl =>
    split at he'
    · next hl' =>
      cases he
      cases he'
      exact lookup_category hl hl'
    · cases he'
  · cases he

/-! ## What is built -/

theorem replaced_ok {α : Type} {build : ListInput → Except Failure α} {P : α → Prop}
    {given : Option ListInput} {previous result : α}
    (h : replaced build given previous = .ok result)
    (hbuild : ∀ value, build value = .ok result → P result) (hprevious : P previous) :
    P result := by
  cases given with
  | none =>
    cases h
    exact hprevious
  | some value => exact hbuild value h

/-- The lists are good ones, and short where the input sets them. -/
structure GoodLists (lists : PolicyInput) (policy : AccessPolicy) : Prop where
  allowIps : Rules policy.allow.ips
  allowCountries : Countries policy.allow.countries
  blockIps : Rules policy.block.ips
  blockCountries : Countries policy.block.countries
  blockCategories : policy.block.categories.Nodup
  allowShort : lists.allowIps.isSome → policy.allow.ips.length ≤ 64
  blockShort : lists.blockIps.isSome → policy.block.ips.length ≤ 64

theorem short_of_replaced {given : Option ListInput} {previous rules : List String}
    (h : replaced ipRules given previous = .ok rules) (hgiven : given.isSome) :
    rules.length ≤ 64 := by
  cases given with
  | none => cases hgiven
  | some value => exact (ipRules_ok h).2

theorem withRules_good {lists : PolicyInput} {previous policy : AccessPolicy}
    (hvalid : Valid previous) (h : withRules lists previous = .ok policy) :
    GoodLists lists policy := by
  obtain ⟨allowIps, hai, h⟩ := bind_ok h
  obtain ⟨allowCountries, hac, h⟩ := bind_ok h
  obtain ⟨blockIps, hbi, h⟩ := bind_ok h
  obtain ⟨blockCountries, hbc, h⟩ := bind_ok h
  obtain ⟨blockCategories, hbk, h⟩ := bind_ok h
  cases h
  exact {
    allowIps := replaced_ok hai (fun _ h => (ipRules_ok h).1) hvalid.allowIps
    allowCountries := replaced_ok hac (fun _ => countryCodes_ok) hvalid.allowCountries
    blockIps := replaced_ok hbi (fun _ h => (ipRules_ok h).1) hvalid.blockIps
    blockCountries := replaced_ok hbc (fun _ => countryCodes_ok) hvalid.blockCountries
    blockCategories := replaced_ok hbk (fun _ => categories_ok) hvalid.blockCategories
    allowShort := short_of_replaced hai
    blockShort := short_of_replaced hbi }

/-- A policy with lists that are as good as those of another one. -/
theorem GoodLists.of_eq {lists : PolicyInput} {policy policy' : AccessPolicy}
    (h : GoodLists lists policy)
    (heq : policy'.allow = policy.allow ∧ policy'.block = policy.block) :
    GoodLists lists policy' := by
  obtain ⟨hallow, hblock⟩ := heq
  constructor
  all_goals
    first
    | rw [hallow]
    | rw [hblock]
  · exact h.allowIps
  · exact h.allowCountries
  · exact h.blockIps
  · exact h.blockCountries
  · exact h.blockCategories
  · exact h.allowShort
  · exact h.blockShort

theorem hashPassword_ne_empty (salted : String → String × String) (password : String) :
    hashPassword salted password ≠ "" := by
  intro h
  have hlist := congrArg String.toList h
  simp [hashPassword, String.toList_append] at hlist

section
variable {Number : Type} [Zero Number] [DecidableEq Number] {numeral : Number → String}
  {salted : String → String × String} {input : Input Number} {previous policy : AccessPolicy}

theorem withAuth_hash {policy' : AccessPolicy} (h : withAuth numeral input policy = .ok policy') :
    policy'.passwordHash = policy.passwordHash := by
  unfold withAuth at h
  cases hauth : authOf numeral input.auth policy.auth with
  | error failure =>
    rw [hauth] at h
    cases h
  | ok auth =>
    rw [hauth] at h
    cases h
    rfl

theorem withPassword_written {policy' : AccessPolicy}
    (h : withPassword numeral (hashPassword salted) input policy = .ok policy')
    (hwritten : policy.passwordHash ≠ some "") : policy'.passwordHash ≠ some "" := by
  unfold withPassword at h
  split at h
  · cases h
    exact hwritten
  · split at h
    · dsimp only at h
      split at h
      · cases h
      · cases h
        intro hempty
        exact hashPassword_ne_empty _ _ (Option.some.inj hempty)
    · cases h
      exact hwritten

theorem settled_written {policy' : AccessPolicy} (h : settled policy = .ok policy')
    (hwritten : policy.passwordHash ≠ some "") : policy'.passwordHash ≠ some "" := by
  unfold settled at h
  split at h
  · cases h
  · split at h
    · cases h
      intro hsome
      cases hsome
    · cases h
      exact hwritten

/-- A policy that is built on a valid one is valid, and the lists of the input are short. -/
theorem build_valid (hvalid : Valid previous)
    (h : build numeral (hashPassword salted) input previous = .ok policy) :
    Valid policy ∧ GoodLists (input.lists numeral) policy := by
  obtain ⟨ruled, hruled, h⟩ := bind_ok h
  obtain ⟨authed, hauthed, h⟩ := bind_ok h
  obtain ⟨hashed, hhashed, hsettled⟩ := bind_ok h
  have hgood : GoodLists (input.lists numeral) policy :=
    (((withRules_good hvalid hruled).of_eq (withAuth_lists hauthed)).of_eq
      (withPassword_lists hhashed)).of_eq (settled_lists hsettled)
  have hsame : ruled.passwordHash = previous.passwordHash := by
    obtain ⟨_, -, hruled⟩ := bind_ok hruled
    obtain ⟨_, -, hruled⟩ := bind_ok hruled
    obtain ⟨_, -, hruled⟩ := bind_ok hruled
    obtain ⟨_, -, hruled⟩ := bind_ok hruled
    obtain ⟨_, -, hruled⟩ := bind_ok hruled
    cases hruled
    rfl
  have hwritten : policy.passwordHash ≠ some "" := by
    refine settled_written hsettled (withPassword_written hhashed ?_)
    rw [withAuth_hash hauthed, hsame]
    exact hvalid.written
  exact ⟨⟨settled_wellFormed hsettled, hwritten, hgood.allowIps, hgood.allowCountries,
    hgood.blockIps, hgood.blockCountries, hgood.blockCategories⟩, hgood⟩

/-- The lists that the input does not mention are the old ones. -/
structure KeepsLists (lists : PolicyInput) (old new : AccessPolicy) : Prop where
  allowIps : lists.allowIps = none → new.allow.ips = old.allow.ips
  allowCountries : lists.allowCountries = none → new.allow.countries = old.allow.countries
  blockIps : lists.blockIps = none → new.block.ips = old.block.ips
  blockCountries : lists.blockCountries = none → new.block.countries = old.block.countries
  blockCategories : lists.blockCategories = none → new.block.categories = old.block.categories

theorem build_keepsLists (h : build numeral (hashPassword salted) input previous = .ok policy) :
    KeepsLists (input.lists numeral) previous policy := by
  obtain ⟨ruled, hruled, h⟩ := bind_ok h
  obtain ⟨authed, hauthed, h⟩ := bind_ok h
  obtain ⟨hashed, hhashed, hsettled⟩ := bind_ok h
  obtain ⟨hallow, hblock⟩ := withAuth_lists hauthed
  obtain ⟨hallow', hblock'⟩ := withPassword_lists hhashed
  obtain ⟨hallow'', hblock''⟩ := settled_lists hsettled
  have hkeeps := withRules_keeps hruled
  constructor
  all_goals
    first
    | rw [hallow'', hallow', hallow]
    | rw [hblock'', hblock', hblock]
  · exact hkeeps.allowIps
  · exact hkeeps.allowCountries
  · exact hkeeps.blockIps
  · exact hkeeps.blockCountries
  · exact hkeeps.blockCategories

end

/-! ## What is thrown -/

/-- Whatever it throws is a bad request. -/
def Bad {α : Type} (result : Except Failure α) : Prop :=
  ∀ failure, result = .error failure → failure.code = "bad_request"

theorem bad_ok {α : Type} (a : α) : Bad (.ok a) := by
  intro failure h
  cases h

theorem bad_fail {α : Type} (message : String) : Bad (fail message : Except Failure α) := by
  intro failure h
  cases h
  rfl

theorem Bad.bind {α β : Type} {x : Except Failure α} {next : α → Except Failure β} (h : Bad x)
    (hnext : ∀ a, Bad (next a)) : Bad (x >>= next) := by
  cases x with
  | error failure =>
    intro failure' heq
    cases heq
    exact h failure rfl
  | ok a => exact hnext a

theorem bad_mapM {α β : Type} {f : α → Except Failure β} (h : ∀ a, Bad (f a)) (l : List α) :
    Bad (l.mapM f) := by
  induction l with
  | nil => exact bad_ok _
  | cons a l ih =>
    rw [List.mapM_cons]
    exact (h a).bind fun b => ih.bind fun rest => bad_ok _

theorem bad_ipRules (value : ListInput) : Bad (ipRules value) := by
  unfold ipRules
  dsimp only
  split
  · exact bad_fail _
  · split
    · exact bad_fail _
    · exact bad_ok _

theorem bad_countryCodes (value : ListInput) : Bad (countryCodes value) := by
  unfold countryCodes
  dsimp only
  split
  · exact bad_fail _
  · exact bad_ok _

theorem bad_categories (value : ListInput) : Bad (categories value) := by
  refine bad_mapM (fun entry => ?_) _
  split
  · exact bad_ok _
  · exact bad_fail _

theorem bad_replaced {α : Type} {build : ListInput → Except Failure α}
    (h : ∀ value, Bad (build value)) (given : Option ListInput) (previous : α) : Bad (replaced build given previous) := by
  cases given with
  | none => exact bad_ok _
  | some value => exact h value

theorem bad_withRules (lists : PolicyInput) (previous : AccessPolicy) :
    Bad (withRules lists previous) :=
  (bad_replaced bad_ipRules _ _).bind fun _ => (bad_replaced bad_countryCodes _ _).bind fun _ =>
    (bad_replaced bad_ipRules _ _).bind fun _ => (bad_replaced bad_countryCodes _ _).bind fun _ =>
      (bad_replaced bad_categories _ _).bind fun _ => bad_ok _

theorem bad_settled (policy : AccessPolicy) : Bad (settled policy) := by
  unfold settled
  split
  · exact bad_fail _
  · split
    · exact bad_ok _
    · exact bad_ok _

section
variable {Number : Type} [Zero Number] [DecidableEq Number] (numeral : Number → String)
  (hash : String → String) (input : Input Number) (policy : AccessPolicy)

theorem bad_authOf (previous : AuthMode) : Bad (authOf numeral input.auth previous) := by
  unfold authOf
  split
  · exact bad_ok _
  · split
    · exact bad_ok _
    · exact bad_fail _

theorem bad_withAuth : Bad (withAuth numeral input policy) :=
  (bad_authOf numeral input policy.auth).bind fun _ => bad_ok _

theorem bad_withPassword : Bad (withPassword numeral hash input policy) := by
  unfold withPassword
  split
  · exact bad_ok _
  · split
    · dsimp only
      split
      · exact bad_fail _
      · exact bad_ok _
    · exact bad_ok _

/-- `buildPolicy` throws nothing else than bad requests. -/
theorem bad_build : Bad (build numeral hash input policy) :=
  (bad_withRules _ _).bind fun policy => (bad_withAuth numeral input policy).bind fun policy =>
    (bad_withPassword numeral hash input policy).bind bad_settled

end

/-! ## Inputs of texts -/

def textList {Number : Type} : ListInput → Leaf Number
  | .list entries => .list (entries.map .text)
  | .text value => .text value

/-- The input that has these texts. -/
def textInput {Number : Type} (input : PolicyInput) : Input Number where
  allow := some (.lists (input.allowIps.map textList) (input.allowCountries.map textList) none)
  block := some (.lists (input.blockIps.map textList) (input.blockCountries.map textList)
    (input.blockCategories.map textList))
  auth := input.auth.map .text
  password := input.password.map .text

section
variable {Number : Type} (numeral : Number → String)

theorem asList_textList (value : ListInput) : (textList value).asList numeral = value := by
  cases value with
  | text value => rfl
  | list entries =>
    have hstrings : (entries.map fun entry => (.text entry : Leaf Number)).map
        (·.string numeral) = entries := by
      simp [Leaf.string, List.map_map, Function.comp_def]
    exact congrArg ListInput.list hstrings

theorem lists_textInput (input : PolicyInput) :
    (textInput input).lists numeral = { input with auth := none, password := none } := by
  have key : ∀ given : Option ListInput,
      (given.map textList).map (Leaf.asList numeral) = given := by
    intro given
    cases given with
    | none => rfl
    | some value => exact congrArg some (asList_textList numeral value)
  simp [Input.lists, textInput, Part.ips, Part.countries, Part.categories, key]

/-- On texts it builds the policies of `Policy.buildPolicy`. -/
theorem build_textInput [Zero Number] [DecidableEq Number] (hash : String → String)
    (input : PolicyInput) (previous : AccessPolicy) :
    build numeral hash (textInput input) previous = Policy.buildPolicy hash input previous := by
  have hauth : ∀ policy : AccessPolicy,
      authOf numeral (input.auth.map Leaf.text) policy.auth = Policy.authOf input policy.auth := by
    intro policy
    unfold authOf Policy.authOf
    cases input.auth with
    | none => rfl
    | some text =>
      by_cases h : text = ""
      · simp only [Option.map_some, Leaf.isTruthy, h, ne_eq, not_true, decide_false, if_true]
        rfl
      · simp only [Option.map_some, Leaf.isTruthy, Leaf.string, h, ne_eq, not_false_iff,
          decide_true, if_true, if_false] <;> rfl
  have hpassword : ∀ policy : AccessPolicy,
      withPassword numeral hash (textInput input) policy =
        Policy.withPassword hash input policy := by
    intro policy
    unfold withPassword Policy.withPassword
    cases hp : input.password with
    | none => simp [textInput, hp]
    | some text =>
      by_cases h : text = ""
      · simp [textInput, hp, h, Leaf.isTruthy]
      · simp [textInput, hp, h, Leaf.isTruthy, Leaf.string]
  unfold build Policy.buildPolicy
  rw [lists_textInput]
  show (withRules input previous >>= _) = (withRules input previous >>= _)
  cases withRules input previous with
  | error failure => rfl
  | ok policy =>
    rw [ok_bind, ok_bind]
    unfold withAuth
    show ((authOf numeral (input.auth.map Leaf.text) policy.auth).map _ >>= _) = _
    rw [hauth]
    cases Policy.authOf input policy.auth with
    | error failure => rfl
    | ok auth =>
      show (withPassword numeral hash (textInput input) _ >>= settled) = _
      rw [hpassword]
      rfl

end

end Tunlit.Access.Building
