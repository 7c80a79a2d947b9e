import Mathlib.Data.List.Sort
import Mathlib.Logic.Function.Basic
import Tunlit.Lib.Runs

/-! # The log of relayed connections

`lib/connections.js`. Entries are objects: the maps and lists hold their keys, and what is
opened keeps its key for good. `flush` is cut at every `await`; an operation of the store is
applied when it is issued, and a flush that waits may be resumed at any later time. -/
namespace Tunlit.Logs.Connections
open Function Tunlit.Lib.Runs

abbrev Key := Nat

def PER_TUNNEL_LIMIT : Nat := 500

inductive Direction where
  | «in»
  | out
deriving DecidableEq, Repr

structure Entry where
  tunnel : String
  protocol : String
  ip : String
  intel : String
  client : String
  joiner : String
  startedAt : Nat
  endedAt : Option Nat := none
  bytesIn : Nat := 0
  bytesOut : Nat := 0
  reason : Option String := none
  detail : Option String := none
  sniffedIn : Bool := false
  sniffedOut : Bool := false
deriving DecidableEq, Repr

instance : Inhabited Entry := ⟨⟨"", "", "", "", "", "", 0, none, 0, 0, none, none, false, false⟩⟩

structure Row where
  key : Key
  tunnel : String
  protocol : String
  ip : String
  intel : String
  client : String
  joiner : String
  startedAt : Nat
  endedAt : Option Nat
  bytesIn : Nat
  bytesOut : Nat
  reason : Option String
  detail : Option String
deriving DecidableEq, Repr

/-- What a flush waits for; `clearing` is a `clear` that waits for its flush to be over. -/
inductive Point where
  | creating
  | finding (tunnel : String) (left : List String) (found : Option Nat)
  | destroying (left : List String)
  | updating (key : Key)
  | clearing (tunnel : String)
deriving DecidableEq, Repr

/-- A flush under way, with the keys it has yet to come to; `clears` is the tunnel of the
`clear` that waits for it. -/
structure Flush where
  inserts : List Key
  dirty : List Key
  point : Point := .creating
  clears : Option String := none
deriving DecidableEq, Repr

structure Log where
  entries : Key → Entry := default
  nextKey : Key := 0
  live : List Key := []
  inserts : List Key := []
  dirty : List Key := []
  rows : List Row := []
  flushes : List Flush := []
  now : Nat := 0

/-- What `bulkCreate` is given for an entry. -/
def rowOf (key : Key) (entry : Entry) : Row where
  key := key
  tunnel := entry.tunnel
  protocol := entry.protocol
  ip := entry.ip
  intel := entry.intel
  client := entry.client
  joiner := entry.joiner
  startedAt := entry.startedAt
  endedAt := entry.endedAt
  bytesIn := entry.bytesIn
  bytesOut := entry.bytesOut
  reason := entry.reason
  detail := entry.detail

namespace Log

def ended (log : Log) (key : Key) : Bool := (log.entries key).endedAt.isSome

/-! ## Entries -/

def «open» (log : Log) (tunnel protocol ip intel client joiner : String) : Log :=
  { log with
    entries := update log.entries log.nextKey
      { tunnel, protocol, ip, intel, client, joiner, startedAt := log.now }
    nextKey := log.nextKey + 1
    live := log.live ++ [log.nextKey]
    inserts := log.inserts ++ [log.nextKey] }

/-- `dirty.add` -/
def touch (log : Log) (key : Key) : Log :=
  if key ∈ log.dirty then log else { log with dirty := log.dirty ++ [key] }

def onEntry (log : Log) (key : Key) (f : Entry → Entry) : Log :=
  { log with entries := update log.entries key (f (log.entries key)) }

def sniffed (entry : Entry) : Direction → Bool
  | .in => entry.sniffedIn
  | .out => entry.sniffedOut

def counted (entry : Entry) (length : Nat) : Direction → Entry
  | .in => { entry with bytesIn := entry.bytesIn + length }
  | .out => { entry with bytesOut := entry.bytesOut + length }

def marked (entry : Entry) : Direction → Entry
  | .in => { entry with sniffedIn := true }
  | .out => { entry with sniffedOut := true }

/-- `found` is what `sniff` makes of the buffer. -/
def data (log : Log) (key : Key) (direction : Direction) (length : Nat) (found : Option String) :
    Log :=
  let log := log.onEntry key fun entry => counted entry length direction
  if sniffed (log.entries key) direction then log
  else
    let log := log.onEntry key fun entry => marked entry direction
    if (log.entries key).detail.isSome then log
    else
      let log := log.onEntry key fun entry => { entry with detail := found }
      if found.isSome then log.touch key else log

def close (log : Log) (key : Key) (reason : String) : Log :=
  (log.onEntry key fun entry =>
    { entry with endedAt := some log.now, reason := some reason }).touch key

/-! ## The store -/

def bulkCreate (log : Log) (keys : List Key) : Log :=
  { log with rows := log.rows ++ keys.map fun key => rowOf key (log.entries key) }

/-- `update`: the columns of the row are those of the entry now. -/
def store (log : Log) (key : Key) : Log :=
  let entry := log.entries key
  { log with rows := log.rows.map fun row => if row.key = key then { row with
      bytesIn := entry.bytesIn
      bytesOut := entry.bytesOut
      reason := entry.reason
      detail := entry.detail
      endedAt := entry.endedAt } else row }

def destroy (log : Log) (where_ : Row → Bool) : Log :=
  { log with rows := log.rows.filter fun row => !where_ row }

/-- The query of `prune`. -/
def find (log : Log) (tunnel : String) : Option Nat :=
  (((log.rows.filter fun row => row.tunnel = tunnel && row.endedAt.isSome).map
    (·.startedAt)).insertionSort (· ≥ ·))[PER_TUNNEL_LIMIT]?

def endedBefore (tunnel : String) (startedAt : Nat) (row : Row) : Bool :=
  row.tunnel = tunnel && row.endedAt.isSome && row.startedAt ≤ startedAt

/-! ## Flushing -/

def drop (log : Log) (key : Key) : Log := { log with live := log.live.filter (· ≠ key) }

/-- `if (entry.endedAt) this.live.delete(key)` -/
def settle (log : Log) (key : Key) : Log := if log.ended key then log.drop key else log

/-- The loop over the dirty keys, up to the next `await`. Without an entry it throws, and the
flush is over. -/
def updates (log : Log) (flush : Flush) : List Key → Log × Option Flush
  | [] => (log, none)
  | key :: left =>
    if key ∈ log.live then
      if key ∈ flush.inserts then (log.settle key).updates flush left
      else (log.store key, some { flush with dirty := left, point := .updating key })
    else (log, none)

/-- The loop over the tunnels to prune, up to the next `await`. -/
def prunes (log : Log) (flush : Flush) : List String → Log × Option Flush
  | [] => log.updates flush flush.dirty
  | tunnel :: left => (log, some { flush with point := .finding tunnel left (log.find tunnel) })

def resume (log : Log) (flush : Flush) : Log × Option Flush :=
  match flush.point with
  | .creating => log.prunes flush (flush.inserts.map fun key => (log.entries key).tunnel).eraseDups
  | .finding _ left none => log.prunes flush left
  | .finding tunnel left (some startedAt) =>
    (log.destroy (endedBefore tunnel startedAt), some { flush with point := .destroying left })
  | .destroying left => log.prunes flush left
  | .updating key => (log.settle key).updates flush flush.dirty
  | .clearing tunnel => (log.destroy fun row => row.tunnel = tunnel && row.endedAt.isSome, none)

/-- `flush` up to its first `await`. -/
def flush (log : Log) (clears : Option String) : Log × Option Flush :=
  let flush : Flush := { inserts := log.inserts, dirty := log.dirty, clears := clears }
  let log := { log with inserts := [], dirty := [] }
  if flush.inserts = [] then log.updates flush flush.dirty
  else (log.bulkCreate flush.inserts, some flush)

def forget (log : Log) (tunnel : String) : Log :=
  let log := { log with
    live := log.live.filter fun key => (log.entries key).tunnel ≠ tunnel
    inserts := log.inserts.filter fun key => (log.entries key).tunnel ≠ tunnel }
  log.destroy fun row => row.tunnel = tunnel

/-- What waits after a turn of a flush: itself, or the `clear` behind it. -/
def waiting (clears : Option String) : Option Flush → List Flush
  | some flush => [flush]
  | none => clears.toList.map fun tunnel =>
      { inserts := [], dirty := [], point := .clearing tunnel }

def awaiting (before after : List Flush) (clears : Option String) (turn : Log × Option Flush) :
    Log :=
  { turn.1 with flushes := before ++ waiting clears turn.2 ++ after }

end Log

/-! ## The machine -/

inductive Event where
  | tick (ms : Nat)
  | «open» (tunnel protocol ip intel client joiner : String)
  | data (key : Key) (direction : Direction) (length : Nat) (found : Option String)
  | close (key : Key) (reason : String)
  | flush
  | resume (place : Nat)
  | clear (tunnel : String)
  | forget (tunnel : String)
deriving DecidableEq, Repr

def step (log : Log) : Event → Option Log
  | .tick ms => some { log with now := log.now + ms }
  | .open tunnel protocol ip intel client joiner =>
    some (log.open tunnel protocol ip intel client joiner)
  | .data key direction length found =>
    if key < log.nextKey then some (log.data key direction length found) else none
  | .close key reason => if key < log.nextKey then some (log.close key reason) else none
  | .flush => some (Log.awaiting log.flushes [] none (log.flush none))
  | .clear tunnel => some (Log.awaiting log.flushes [] (some tunnel) (log.flush (some tunnel)))
  | .resume place => log.flushes[place]?.map fun flush =>
      Log.awaiting (log.flushes.take place) (log.flushes.drop (place + 1)) flush.clears
        (log.resume flush)
  | .forget tunnel => some (log.forget tunnel)

def machine : Machine Log Event where
  init log := ∃ now, log = { now := now }
  step := step

end Tunlit.Logs.Connections
