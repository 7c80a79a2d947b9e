import Mathlib.Data.List.Sort
import Tunlit.Lib.Insertion
import Tunlit.Lib.Turns

/-! # Visitors

`lib/visitors.js`. Calls are counted in entries, by tunnel and address; a flush takes the
entries and adds them to the rows, one after the other, and prunes the tunnels it met. A
list begins with a flush. A statement takes effect when it is issued. The calls that were
made since the row of an address was last dropped are counted beside the rows. -/
namespace Tunlit.Visitors.Flushing
open Tunlit.Lib.Insertion Tunlit.Lib.Runs Tunlit.Lib.Turns

/-! ## Data -/

/-- A tunnel and an address. -/
abbrev Key := String × String

inductive Counter where
  | requests
  | blocked
deriving DecidableEq, Repr

structure Entry where
  tunnel : String
  ip : String
  requests : Nat := 0
  blocked : Nat := 0
  reason : Option String := none
  firstSeen : Nat
  intel : String := ""
  lastSeen : Nat := 0
deriving DecidableEq, Repr

structure Row where
  id : Nat
  intel : String
  requests : Nat
  blocked : Nat
  reason : Option String
  firstSeen : Nat
  lastSeen : Nat
deriving DecidableEq, Repr

def Entry.key (entry : Entry) : Key := (entry.tunnel, entry.ip)

def Entry.count (entry : Entry) : Counter → Nat
  | .requests => entry.requests
  | .blocked => entry.blocked

def Row.count (row : Row) : Counter → Nat
  | .requests => row.requests
  | .blocked => row.blocked

structure World where
  /-- the rows that a tunnel keeps -/
  limit : Nat
  pending : OrderedMap Key Entry := ∅
  rows : OrderedMap Key Row := ∅
  nextId : Nat := 0
  /-- the calls since the row was last dropped -/
  calls : Counter → Key → Nat := fun _ _ => 0

inductive Request where
  | seen (tunnel ip intel : String) (now : Nat)
  | blocked (tunnel ip intel reason : String) (now : Nat)
  | flush
  | forget (tunnel : String)

inductive Point where
  | finding (entry : Entry) (row : Option Row) (rest : List Entry) (tunnels : List String)
  | storing (done : Bool) (rest : List Entry) (tunnels : List String)
  | pruning (tunnel : String) (last : Option Nat) (tunnels : List String)
  | pruned (tunnels : List String)
deriving DecidableEq

/-- Whether a call threw; a flush catches it. -/
abbrev Answer := Bool

/-! ## Counting -/

namespace World

variable (w : World)

def touch (tunnel ip intel : String) (now : Nat) : Entry :=
  let entry := (w.pending.get (tunnel, ip)).getD { tunnel, ip, firstSeen := now }
  { entry with intel, lastSeen := now }

/-- An entry is counted up, and so are the calls. -/
def add (entry : Entry) (counter : Counter) : World :=
  { w with
    pending := w.pending.set entry.key entry
    calls := fun c k => w.calls c k + if c = counter ∧ k = entry.key then 1 else 0 }

def seen (tunnel ip intel : String) (now : Nat) : World :=
  let entry := w.touch tunnel ip intel now
  w.add { entry with requests := entry.requests + 1 } .requests

def blocked (tunnel ip intel reason : String) (now : Nat) : World :=
  let entry := w.touch tunnel ip intel now
  w.add { entry with blocked := entry.blocked + 1, reason := some reason } .blocked

/-! ## Rows -/

/-- The row that an entry is added to. -/
def merged (row : Row) (entry : Entry) : Row :=
  { row with
    intel := entry.intel
    requests := row.requests + entry.requests
    blocked := row.blocked + entry.blocked
    reason := entry.reason.or row.reason
    lastSeen := entry.lastSeen }

/-- `Visitor.update` of the row that was found, by its id. -/
def update (entry : Entry) (row : Row) : World :=
  match w.rows.get entry.key with
  | none => w
  | some stored =>
    if stored.id = row.id then { w with rows := w.rows.set entry.key (merged row entry) } else w

/-- `Visitor.create` where there is no row of the address. -/
def create (entry : Entry) : World :=
  { w with
    rows := w.rows.set entry.key ⟨w.nextId, entry.intel, entry.requests, entry.blocked,
      entry.reason, entry.firstSeen, entry.lastSeen⟩
    nextId := w.nextId + 1 }

/-- Rows are dropped, and their calls count no more. -/
def drop (dropped : Key → Row → Bool) : World :=
  { w with
    rows := w.rows.filter fun key row => !dropped key row
    calls := fun c k => if (w.rows.get k).any (dropped k) then 0 else w.calls c k }

/-- The time of the first row behind those that a tunnel keeps. -/
def last (tunnel : String) : Option Nat :=
  let times := (w.rows.entries.filter fun entry => entry.1.1 = tunnel).map (·.2.lastSeen)
  (times.insertionSort (· ≥ ·))[w.limit]?

/-! ## Flushes -/

/-- `prune` of the tunnels that are left. -/
def prune : List String → World × Stage Point Answer
  | [] => (w, .ended true)
  | tunnel :: tunnels => (w, .waits (.pruning tunnel (w.last tunnel) tunnels))

/-- The entries that are left are looked up, then the tunnels are pruned. -/
def store (tunnels : List String) : List Entry → World × Stage Point Answer
  | [] => w.prune tunnels
  | entry :: rest => (w, .waits (.finding entry (w.rows.get entry.key) rest tunnels))

def flush : World × Stage Point Answer :=
  if w.pending.entries.isEmpty then (w, .ended true)
  else
    let batch := w.pending.values
    { w with pending := ∅ }.store (batch.map Entry.tunnel).eraseDups batch

/-- The entries of the tunnel are dropped with its rows; no call of it counts any more. -/
def forget (tunnel : String) : World :=
  { w with
    pending := w.pending.filter fun key _ => key.1 ≠ tunnel
    rows := w.rows.filter fun key _ => key.1 ≠ tunnel
    calls := fun c k => if k.1 = tunnel then 0 else w.calls c k }

end World

def start (w : World) : Request → World × Stage Point Answer
  | .seen tunnel ip intel now => (w.seen tunnel ip intel now, .ended true)
  | .blocked tunnel ip intel reason now => (w.blocked tunnel ip intel reason now, .ended true)
  | .flush => w.flush
  | .forget tunnel => (w.forget tunnel, .ended true)

def resume (w : World) : Point → World × Stage Point Answer
  | .finding entry (some row) rest tunnels =>
    (w.update entry row, .waits (.storing true rest tunnels))
  | .finding entry none rest tunnels =>
    if w.rows.has entry.key then (w, .waits (.storing false rest tunnels))
    else (w.create entry, .waits (.storing true rest tunnels))
  | .storing true rest tunnels => w.store tunnels rest
  | .storing false _ _ => (w, .ended false)
  | .pruning _ none tunnels => w.prune tunnels
  | .pruning tunnel (some last) tunnels =>
    (w.drop fun key row => key.1 = tunnel && row.lastSeen ≤ last, .waits (.pruned tunnels))
  | .pruned tunnels => w.prune tunnels

def handlers : Handlers World Request Unit Point Answer where
  start := start
  resume w point _ := resume w point

abbrev State := System World Point Answer

def machine : Machine State (Event Request Unit) :=
  handlers.machine fun s => ∃ limit, s = ⟨{ limit }, []⟩

end Tunlit.Visitors.Flushing
