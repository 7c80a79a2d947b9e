import Tunlit.Access.Building
import Tunlit.Access.Store
import Tunlit.Lib.Json

/-! # Policies that are saved and changed

`columns` and `toPolicy` of `lib/persistent.js`, and `updateAccess` of `controllers/tunnels.js`
over the objects of `buildPolicy`. The database takes what it is given. -/
namespace Tunlit.Access.Saved
open Tunlit.Access.Policy Tunlit.Access.Building Tunlit.Access.Store Tunlit.Lib.Json

/-! ## Columns -/

structure Columns where
  rules : Text
  auth : String
  passwordHash : Option String
deriving DecidableEq

def modeName : AuthMode → String
  | .none => "none"
  | .password => "password"
  | .tunlit => "tunlit"

def categoryName : Category → String
  | .tor => "tor"
  | .vpn => "vpn"
  | .datacenter => "datacenter"
  | .blocklist => "blocklist"

def texts (entries : List String) : Value := .list (entries.map fun entry => .text entry.toList)

def allowValue (allow : AllowRules) : Value :=
  .object [("ips".toList, texts allow.ips), ("countries".toList, texts allow.countries)]

def blockValue (block : BlockRules) : Value :=
  .object [("ips".toList, texts block.ips), ("countries".toList, texts block.countries),
    ("categories".toList, texts (block.categories.map categoryName))]

/-- `{ allow: policy.allow, block: policy.block }` -/
def rules (policy : AccessPolicy) : Value :=
  .object [("allow".toList, allowValue policy.allow), ("block".toList, blockValue policy.block)]

def columns (policy : AccessPolicy) : Columns where
  rules := write (rules policy)
  auth := modeName policy.auth
  passwordHash := policy.passwordHash.filter (· ≠ "")

/-- `value[name]`: the last field of the name. -/
def field (name : String) : Value → Option Value
  | .object fields => fields.reverse.lookup name.toList
  | _ => none

def readText : Value → Option String
  | .text value => some (.ofList value)
  | _ => none

structure Viewer where
  admin : Bool
  account : Nat
deriving DecidableEq

structure Tunnel where
  accountId : Nat
  persistent : Bool
  policy : Nat
deriving DecidableEq

structure Server where
  heap : Heap
  tunnels : String → Option Tunnel
  store : AccessStore
  rows : String → Option Columns

structure Reply where
  code : Option Nat
  message : String
deriving DecidableEq

def mayTouch (tunnel : Tunnel) (viewer : Viewer) : Bool :=
  viewer.admin || tunnel.accountId = viewer.account

def savePolicy (server : Server) (name : String) (policy : AccessPolicy) : Server :=
  { server with rows := fun other =>
      if other = name then (server.rows other).map fun _ => columns policy else server.rows other }

section
variable {Number : Type} [Zero Number] [DecidableEq Number] (numeral : Number → String)
  (hash : String → String)

/-- `{ ...input, password: input.password || undefined }` -/
def withoutEmpty (input : Input Number) : Input Number :=
  { input with password := input.password.filter (·.isTruthy) }

def updateAccess (server : Server) (id : String) (input : Input Number) (viewer : Viewer) :
    Reply × Server :=
  match (server.tunnels id).filter (mayTouch · viewer) with
  | none => (⟨some 404, "Tunnel not found"⟩, server)
  | some tunnel =>
    match buildPolicy numeral hash (withoutEmpty input) tunnel.policy server.heap with
    | (.error failure, heap) =>
      (⟨some (if failure.code = "bad_request" then 400 else 500), failure.message⟩,
        { server with heap := heap })
    | (.ok policy, heap) =>
      let server := { server with
        heap := heap
        tunnels := fun other => if other = id then some { tunnel with policy := policy }
          else server.tunnels other
        store := server.store.forget id }
      (⟨none, "Access updated"⟩,
        if tunnel.persistent then savePolicy server id (heap.read policy) else server)

/-- Every tunnel has a valid policy. -/
structure Sound (server : Server) : Prop where
  has : ∀ id tunnel, server.tunnels id = some tunnel → server.heap.Has tunnel.policy
  valid : ∀ id tunnel, server.tunnels id = some tunnel → Valid (server.heap.read tunnel.policy)

/-- What a call of `buildPolicy` comes to: it throws a bad request, or it returns a new valid
policy with short lists where the input sets them and the old ones where it does not; the
policies that there were before are the same. -/
inductive BuiltWell (lists : PolicyInput) (old : Heap) (previous : Nat) :
    Except Failure Nat × Heap → Prop where
  | thrown {failure : Failure} {heap : Heap} (bad : failure.code = "bad_request")
      (keeps : Keeps old heap) : BuiltWell lists old previous (.error failure, heap)
  | returned {r : Nat} {heap : Heap} (has : heap.Has r) (valid : Valid (heap.read r))
      (good : GoodLists lists (heap.read r))
      (same : KeepsLists lists (old.read previous) (heap.read r)) (keeps : Keeps old heap) :
      BuiltWell lists old previous (.ok r, heap)

variable {numeral} {salted : String → String × String}

theorem builtWell_buildPolicy {input : Input Number} {previous : Nat} {old : Heap}
    (hvalid : Valid (old.read previous)) :
    BuiltWell (input.lists numeral) old previous
      (buildPolicy numeral (hashPassword salted) input previous old) := by
  have hbuilt := buildPolicy_spec numeral (hashPassword salted) input previous old
  generalize hout : build numeral (hashPassword salted) input (old.read previous) = outcome
    at hbuilt
  generalize buildPolicy numeral (hashPassword salted) input previous old = ran at hbuilt ⊢
  cases hbuilt with
  | ok hhas hkeeps =>
    obtain ⟨hnew, hgood⟩ := build_valid hvalid hout
    exact .returned hhas hnew hgood (build_keepsLists hout) hkeeps
  | error hkeeps => exact .thrown (bad_build _ _ _ _ _ hout) hkeeps

theorem Sound.keeps {server : Server} {heap : Heap} (hsound : Sound server)
    (hkeeps : Keeps server.heap heap) : Sound { server with heap := heap } where
  has id tunnel htunnel := (hkeeps _ (hsound.has id tunnel htunnel)).1
  valid id tunnel htunnel := by
    show Valid (heap.read tunnel.policy)
    rw [(hkeeps _ (hsound.has id tunnel htunnel)).2]
    exact hsound.valid id tunnel htunnel

/-- Whatever is asked for, every tunnel has a valid policy afterwards. -/
theorem updateAccess_sound {server : Server} (hsound : Sound server) (id : String)
    (input : Input Number) (viewer : Viewer) :
    Sound (updateAccess numeral (hashPassword salted) server id input viewer).2 := by
  unfold updateAccess
  cases htunnel : (server.tunnels id).filter (mayTouch · viewer) with
  | none => exact hsound
  | some tunnel =>
    dsimp only
    have hvalid := hsound.valid id tunnel (Option.eq_some_of_filter_eq_some htunnel)
    have hwell : BuiltWell ((withoutEmpty input).lists numeral) server.heap tunnel.policy
        (buildPolicy numeral (hashPassword salted) (withoutEmpty input) tunnel.policy
          server.heap) := builtWell_buildPolicy hvalid
    generalize buildPolicy numeral (hashPassword salted) (withoutEmpty input) tunnel.policy
      server.heap = ran at hwell ⊢
    cases hwell with
    | thrown hbad hkeeps => exact hsound.keeps hkeeps
    | @returned policy heap hhas hnew hgood hsame hkeeps =>
      have hkept := hsound.keeps hkeeps
      have hupdated : ∀ other changed,
          (if other = id then some { tunnel with policy := policy } else server.tunnels other) =
            some changed →
          heap.Has changed.policy ∧ Valid (heap.read changed.policy) := by
        intro other changed hchanged
        split at hchanged
        · cases hchanged
          exact ⟨hhas, hnew⟩
        · exact ⟨hkept.has other changed hchanged, hkept.valid other changed hchanged⟩
      dsimp only
      split
      · exact ⟨fun o c h => (hupdated o c h).1, fun o c h => (hupdated o c h).2⟩
      · exact ⟨fun o c h => (hupdated o c h).1, fun o c h => (hupdated o c h).2⟩

end

end Tunlit.Access.Saved
