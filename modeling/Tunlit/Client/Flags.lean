import Tunlit.Registry.State

/-! # What the command line asks for

The options of `tunnel.rs` in the CLI, and the `register` message that is built from them
each time the CLI connects. `shape` has no part in that message. -/
namespace Tunlit.Client.Flags
open Tunlit.Access.Policy

/-- The CLI's own `Target`, with an address that may be one of IPv6. -/
structure Target where
  host : String
  port : Nat
  tls : Bool := false
deriving DecidableEq, Repr

def Target.authority (target : Target) : String :=
  if ':' ∈ target.host.toList then "[" ++ target.host ++ "]:" ++ toString target.port
  else target.host ++ ":" ++ toString target.port

structure Rules where
  allowIps : List String := []
  allowCountries : List String := []
  blockIps : List String := []
  blockCountries : List String := []
  block : List String := []
deriving DecidableEq, Repr

def Rules.isEmpty (rules : Rules) : Bool :=
  rules.allowIps.isEmpty && rules.allowCountries.isEmpty && rules.blockIps.isEmpty &&
    rules.blockCountries.isEmpty && rules.block.isEmpty

/-- The access flags; a password and a login are not asked for together. -/
structure Access where
  rules : Rules := {}
  password : Option String := none
  requireLogin : Bool := false
  exclusive : password.isSome → requireLogin = false := by decide

def Access.new (rules : Rules) (password : Option String) (requireLogin : Bool) :
    Except String Access :=
  if h : password.isSome → requireLogin = false then .ok ⟨rules, password, requireLogin, h⟩
  else .error "Use either --password or --require-login, not both"

/-- `as_json`: none when there is nothing to ask for. -/
def Access.asJson (access : Access) : Option PolicyInput :=
  if access.rules.isEmpty && access.password.isNone && !access.requireLogin then none
  else some {
    auth := some (if access.requireLogin then "tunlit"
      else if access.password.isSome then "password" else "none")
    password := access.password
    allowIps := some (.list access.rules.allowIps)
    allowCountries := some (.list access.rules.allowCountries)
    blockIps := some (.list access.rules.blockIps)
    blockCountries := some (.list access.rules.blockCountries)
    blockCategories := some (.list access.rules.block) }

structure Options where
  mode : String
  name : Option String
  keepHost : Bool
  access : Access

def Options.http (name : Option String) (keepHost : Bool) (access : Access) : Options :=
  ⟨"http", name, keepHost, access⟩

def Options.tcp (name : Option String) (access : Access) : Options := ⟨"tcp", name, false, access⟩

/-- The message of `register`. -/
def Options.message (opts : Options) (target : Target) (resume share : Option String) :
    Registry.State.Request where
  mode := opts.mode
  target := some target.authority
  name := opts.name
  keepHost := opts.keepHost
  resume := resume
  share := share
  policy := opts.access.asJson

end Tunlit.Client.Flags
