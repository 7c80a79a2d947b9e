import Tunlit.Lib.Retention
import Tunlit.Lib.Runs
import Tunlit.Logs.Har

/-! # The log of requests

`lib/traffic.js`: what is recorded waits for a flush, which stores it and prunes the rows of its
tunnels. The calls are cut at every `await`; a statement they wait for takes effect at any later
time, in any order, or fails. -/
namespace Tunlit.Logs.Traffic
open Tunlit.Lib.Runs Tunlit.Lib.Retention

def PER_TUNNEL_LIMIT : ℕ := 200

/-! ## Entries -/

structure GivenPart where
  headers : Option (List (String × String)) := none
  body : Option (List UInt8) := none
  bytes : Option ℕ := none

/-- What `record` is given. -/
structure Given where
  time : ℕ
  duration : Option ℕ := none
  kind : Option String := none
  connection : Option String := none
  method : Option String := none
  path : Option String := none
  status : Option ℕ := none
  ip : Option String := none
  host : Option String := none
  request : Option GivenPart := none
  response : Option GivenPart := none

/-- `value || null` -/
def orNull (value : Option String) : Option String := value.filter (· ≠ "")

def part (given : Option GivenPart) : Har.Part where
  headers := (given.bind GivenPart.headers).getD []
  body := given.bind GivenPart.body
  bytes := (given.bind GivenPart.bytes).getD 0

def columns (entry : Given) : Har.Row where
  time := entry.time
  duration := entry.duration.getD 0
  kind := (orNull entry.kind).getD "http"
  connection := orNull entry.connection
  method := orNull entry.method
  path := orNull entry.path
  status := entry.status.filter (· ≠ 0)
  ip := orNull entry.ip
  host := orNull entry.host
  request := part entry.request
  response := part entry.response

/-- A row to store; `key` is its number among all that were recorded, which is not stored. -/
structure Item where
  key : ℕ
  tunnel : String
  row : Har.Row

structure Stored where
  id : ℕ
  item : Item

/-- What a flush waits for. -/
inductive Flush
  | creating (batch : List Item)
  | finding (tunnel : String) (left : List String)
  | destroying (tunnel : String) (id : ℕ) (left : List String)

structure Log where
  limit : ℕ := PER_TUNNEL_LIMIT
  pending : List Item := []
  rows : List Stored := []
  flushes : List Flush := []
  /-- the updates that `finish` waits for -/
  updates : List (String × ℕ) := []
  /-- the tunnels whose rows `forget` waits for to go -/
  clears : List String := []
  nextId : ℕ := 1
  nextKey : ℕ := 0

namespace Log

/-! ## The calls -/

def record (log : Log) (tunnel : String) (entry : Given) : Log :=
  { log with
    pending := log.pending ++ [⟨log.nextKey, tunnel, columns entry⟩]
    nextKey := log.nextKey + 1 }

def flush (log : Log) : Log :=
  if log.pending = [] then log
  else { log with pending := [], flushes := log.flushes ++ [.creating log.pending] }

def Item.finish (item : Item) (duration : ℕ) : Item :=
  { item with row := { item.row with duration := duration } }

/-- The first row of the connection, with its duration set. -/
def finishFirst (connection : String) (duration : ℕ) : List Item → Option (List Item)
  | [] => none
  | item :: items =>
    if item.row.connection = some connection then some (Item.finish item duration :: items)
    else (finishFirst connection duration items).map (item :: ·)

def finish (log : Log) (connection : String) (duration : ℕ) : Log :=
  match finishFirst connection duration log.pending with
  | some pending => { log with pending := pending }
  | none => { log with updates := log.updates ++ [(connection, duration)] }

def forget (log : Log) (tunnel : String) : Log :=
  { log with
    pending := log.pending.filter fun item => item.tunnel ≠ tunnel
    clears := log.clears ++ [tunnel] }

/-! ## The store -/

def of (log : Log) (tunnel : String) : List Stored :=
  log.rows.filter fun row => row.item.tunnel = tunnel

def bulkCreate (log : Log) (batch : List Item) : Log :=
  { log with
    rows := log.rows ++ (batch.zipIdx log.nextId).map fun (item, id) => ⟨id, item⟩
    nextId := log.nextId + batch.length }

def destroy (log : Log) (where_ : Stored → Bool) : Log :=
  { log with rows := log.rows.filter fun row => !where_ row }

def update (log : Log) (connection : String) (duration : ℕ) : Log :=
  { log with rows := log.rows.map fun row =>
      if row.item.row.connection = some connection then
        { row with item := Item.finish row.item duration } else row }

/-- The loop over the tunnels to prune, up to its next `await`. -/
def prunes : List String → List Flush
  | [] => []
  | tunnel :: left => [.finding tunnel left]

/-- The statement a flush waits for, and what it does then. -/
def run (log : Log) : Flush → Log × List Flush
  | .creating batch => (log.bulkCreate batch, prunes (batch.map Item.tunnel).eraseDups)
  | .finding tunnel left =>
    (log, match (log.of tunnel).reverse[log.limit]? with
      | none => prunes left
      | some row => [.destroying tunnel row.id left])
  | .destroying tunnel id left =>
    (log.destroy fun row => row.item.tunnel = tunnel && row.id ≤ id, prunes left)

end Log

/-! ## The machine -/

inductive Event
  | record (tunnel : String) (entry : Given)
  | flush
  | finish (connection : String) (duration : ℕ)
  | forget (tunnel : String)
  | run (place : ℕ)
  /-- the statement a flush waits for fails -/
  | fail (place : ℕ)
  | update (place : ℕ)
  | clear (place : ℕ)

def step (log : Log) : Event → Option Log
  | .record tunnel entry => some (log.record tunnel entry)
  | .flush => some log.flush
  | .finish connection duration => some (log.finish connection duration)
  | .forget tunnel => some (log.forget tunnel)
  | .run place => log.flushes[place]?.map fun flush => { (log.run flush).1 with
      flushes := log.flushes.take place ++ (log.run flush).2 ++ log.flushes.drop (place + 1) }
  | .fail place => log.flushes[place]?.map fun _ =>
      { log with flushes := log.flushes.eraseIdx place }
  | .update place => log.updates[place]?.map fun (connection, duration) =>
      { log.update connection duration with updates := log.updates.eraseIdx place }
  | .clear place => log.clears[place]?.map fun tunnel =>
      { log.destroy (fun row => row.item.tunnel = tunnel) with
        clears := log.clears.eraseIdx place }

end Tunlit.Logs.Traffic
