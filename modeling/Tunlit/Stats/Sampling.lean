import Mathlib.Algebra.Order.BigOperators.Group.Finset
import Tunlit.Registry.Seating

/-! # Samples of the traffic of tunnels

`lib/stats.js` reads the counters of the session of every tunnel from time to time and
passes what is new to `quotas.record`. A counter belongs to a session, a series to the
id of a tunnel; the listener of `index.js` drops the series when the tunnel is removed. -/
namespace Tunlit.Stats.Sampling
open Function Tunlit.Lib.Insertion Tunlit.Lib.Runs Tunlit.Registry Tunlit.Registry.State
  Tunlit.Registry.Seating

inductive Way where
  | sent
  | received
deriving DecidableEq, Repr

/-- `bytesSent` and `bytesReceived` of a `MuxSession`. -/
structure Counters where
  bytesSent : Nat := 0
  bytesReceived : Nat := 0
deriving DecidableEq, Repr

def Counters.at (counters : Counters) : Way → Nat
  | .sent => counters.bytesSent
  | .received => counters.bytesReceived

/-- Bytes to a tunnel and from it, and its requests. -/
structure Traffic where
  bytesIn : Nat := 0
  bytesOut : Nat := 0
  requests : Nat := 0
deriving DecidableEq, Repr

def Traffic.bytes (traffic : Traffic) : Way → Nat
  | .sent => traffic.bytesIn
  | .received => traffic.bytesOut

def Traffic.add (total traffic : Traffic) : Traffic :=
  ⟨total.bytesIn + traffic.bytesIn, total.bytesOut + traffic.bytesOut,
    total.requests + traffic.requests⟩

structure Bucket where
  t : Nat
  traffic : Traffic
deriving DecidableEq, Repr

/-- An entry of `Stats.series`, as `empty` makes it. -/
structure Entry where
  buckets : List Bucket := []
  totals : Traffic := {}
  pendingRequests : Nat := 0
  lastSent : Nat := 0
  lastReceived : Nat := 0
  session : Option SessionRef := none
deriving DecidableEq, Repr

def Entry.last (entry : Entry) : Way → Nat
  | .sent => entry.lastSent
  | .received => entry.lastReceived

def BUCKETS : Nat := 90

/-- The part of a sample that reads a session which is open. -/
def Entry.read (entry : Entry) (x : SessionRef) (counters : Counters) : Entry × Nat × Nat :=
  let entry := if entry.session ≠ some x then
    { entry with session := some x, lastSent := 0, lastReceived := 0 } else entry
  -- a subtraction of natural numbers is `Math.max(0, ..)`
  ({ entry with lastSent := counters.bytesSent, lastReceived := counters.bytesReceived },
    counters.bytesSent - entry.lastSent, counters.bytesReceived - entry.lastReceived)

/-- A sample of one tunnel: its series, and what is passed to `quotas.record`. -/
def Entry.sample (entry : Entry) (now : Nat) (session : Option (SessionRef × Counters)) :
    Entry × Traffic :=
  let (entry, inBytes, outBytes) := match session with
    | some (x, counters) => entry.read x counters
    | none => ({ entry with session := none }, 0, 0)
  let traffic : Traffic := ⟨inBytes, outBytes, entry.pendingRequests⟩
  let buckets := entry.buckets ++ [⟨now, traffic⟩]
  ({ entry with
      pendingRequests := 0
      totals := entry.totals.add traffic
      buckets := buckets.drop (buckets.length - BUCKETS) }, traffic)

/-! ## The machine -/

/-- A call of `quotas.record`, and the tunnel that it is made for. -/
structure Charge where
  accountId : AccountId
  tunnel : TunnelRef
  traffic : Traffic

structure Meters where
  hub : Hub := {}
  counters : SessionRef → Counters := fun _ => {}
  series : String → Option Entry := fun _ => none
  -- the calls of `quotas.record` and those of `recordRequest`
  charges : List Charge := []
  requests : List TunnelRef := []

namespace Meters

/-- `_for` -/
def entryOf (s : Meters) (id : String) : Entry := (s.series id).getD {}

def setEntry (s : Meters) (id : String) (entry : Entry) : Meters :=
  { s with series := update s.series id (some entry) }

/-- The session of a tunnel with its counters, if it is not closed. -/
def openSession (s : Meters) (r : TunnelRef) : Option (SessionRef × Counters) :=
  match (s.hub.heap r).session with
  | some x => if (s.hub.sessions x).closed then none else some (x, s.counters x)
  | none => none

def sampleTunnel (s : Meters) (r : TunnelRef) : Meters :=
  let tunnel := s.hub.heap r
  let (entry, traffic) := (s.entryOf tunnel.id).sample s.hub.now (s.openSession r)
  { s.setEntry tunnel.id entry with charges := s.charges ++ [⟨tunnel.accountId, r, traffic⟩] }

def sample (s : Meters) : Meters := s.hub.tunnels.values.foldl sampleTunnel s

def recordRequest (s : Meters) (r : TunnelRef) : Meters :=
  let id := (s.hub.heap r).id
  let entry := s.entryOf id
  { s.setEntry id { entry with pendingRequests := entry.pendingRequests + 1 } with
    requests := s.requests ++ [r] }

/-- `_send` of a frame with data. -/
def send (s : Meters) (x : SessionRef) (length : Nat) : Meters :=
  if (s.hub.sessions x).closed || !(s.hub.sessions x).wsOpen then s
  else
    let counters := s.counters x
    let counters := { counters with bytesSent := counters.bytesSent + length }
    { s with counters := update s.counters x counters }

/-- `_onFrame` of a frame with data. -/
def receive (s : Meters) (x : SessionRef) (length : Nat) : Meters :=
  let counters := s.counters x
  let counters := { counters with bytesReceived := counters.bytesReceived + length }
  { s with counters := update s.counters x counters }

/-- A turn of the registry: whatever is removed from it is forgotten. -/
def follow (s : Meters) (hub : Hub) : Meters :=
  { s with
    hub := hub
    series := fun id => if s.hub.tunnels.has id && !hub.tunnels.has id then none else s.series id }

end Meters

/-- The frames are those of type `DATA` or `DATAGRAM`, with the lengths of their payloads. -/
inductive Event where
  | registry (e : System.Event)
  | send (x : SessionRef) (length : Nat)
  | receive (x : SessionRef) (length : Nat)
  | recordRequest (r : TunnelRef)
  | sample

def step (s : Meters) : Event → Option Meters
  | .registry e => (System.step s.hub e).map s.follow
  | .send x length => if x < s.hub.nextSession then some (s.send x length) else none
  | .receive x length =>
    if x < s.hub.nextSession && !(s.hub.sessions x).closed then some (s.receive x length) else none
  | .recordRequest r => if r < s.hub.nextTunnel then some (s.recordRequest r) else none
  | .sample => some s.sample

def machine : Machine Meters Event where
  init s := ∃ config, s = { hub := { config := config } }
  step := step

/-! ## What is charged and what there is to charge -/

/-- The bytes of all the sessions of a tunnel. -/
def carried (s : Meters) (r : TunnelRef) (way : Way) : Nat :=
  ∑ x ∈ Finset.range s.hub.nextSession,
    if tunnelOf s.hub x = some r then (s.counters x).at way else 0

def chargesOf (s : Meters) (r : TunnelRef) : List Charge := s.charges.filter fun c => c.tunnel = r

def charged (s : Meters) (r : TunnelRef) (way : Way) : Nat :=
  ((chargesOf s r).map fun c => c.traffic.bytes way).sum

def chargedRequests (s : Meters) (r : TunnelRef) : Nat :=
  ((chargesOf s r).map fun c => c.traffic.requests).sum

/-- All traffic of the tunnel has been passed to `quotas.record`, once. -/
def Exact (s : Meters) (r : TunnelRef) : Prop :=
  (∀ way, charged s r way = carried s r way) ∧ chargedRequests s r = s.requests.count r

/-- What the series has read of a session of the tunnel. -/
def lastOf (s : Meters) (r : TunnelRef) (x : SessionRef) (way : Way) : Nat :=
  let entry := s.entryOf (s.hub.heap r).id
  if entry.session = some x then entry.last way else 0

def pendingOf (s : Meters) (r : TunnelRef) : Nat := (s.entryOf (s.hub.heap r).id).pendingRequests

/-- The series has read all of a session. -/
def Read (s : Meters) (r : TunnelRef) (x : SessionRef) : Prop :=
  ∀ way, (s.counters x).at way = lastOf s r x way

/-- The session of a frame with data is the one of its tunnel, or has none. -/
def Metered (s : Meters) (x : SessionRef) : Prop := ∀ r ∈ tunnelOf s.hub x, Current s.hub r x

/-- No traffic is out of the reach of the next sample: a session that ends to be the one of its
tunnel has been read, and carries nothing afterwards; a tunnel that is removed has no request
that is not charged, and none afterwards. -/
def Sampled (s : Meters) : Event → Prop
  | .registry e => ∀ hub ∈ System.step s.hub e,
      (∀ x < hub.nextSession, ∀ r ∈ tunnelOf hub x, Current hub r x ∨
        (tunnelOf s.hub x = some r ∧ ¬ Current s.hub r x) ∨ Read s r x) ∧
      ∀ r < s.hub.nextTunnel, Registered s.hub r → ¬ Registered hub r → pendingOf s r = 0
  | .send x length => length ≠ 0 → (s.hub.sessions x).closed = false →
      (s.hub.sessions x).wsOpen = true → Metered s x
  | .receive x length => length ≠ 0 → Metered s x
  | .recordRequest r => Registered s.hub r
  | .sample => True

instance (s : Meters) (r : TunnelRef) (x : SessionRef) : Decidable (Read s r x) :=
  decidable_of_iff ((s.counters x).at .sent = lastOf s r x .sent ∧
      (s.counters x).at .received = lastOf s r x .received)
    ⟨fun h way => by cases way; exacts [h.1, h.2], fun h => ⟨h _, h _⟩⟩

instance (s : Meters) (x : SessionRef) : Decidable (Metered s x) :=
  inferInstanceAs (Decidable (∀ r ∈ tunnelOf s.hub x, Current s.hub r x))

instance (s : Meters) : (e : Event) → Decidable (Sampled s e)
  | .registry e => inferInstanceAs (Decidable (∀ hub ∈ System.step s.hub e,
      (∀ x < hub.nextSession, ∀ r ∈ tunnelOf hub x, Current hub r x ∨
        (tunnelOf s.hub x = some r ∧ ¬ Current s.hub r x) ∨ Read s r x) ∧
      ∀ r < s.hub.nextTunnel, Registered s.hub r → ¬ Registered hub r → pendingOf s r = 0))
  | .send x length => inferInstanceAs (Decidable (length ≠ 0 →
      (s.hub.sessions x).closed = false → (s.hub.sessions x).wsOpen = true → Metered s x))
  | .receive x length => inferInstanceAs (Decidable (length ≠ 0 → Metered s x))
  | .recordRequest r => inferInstanceAs (Decidable (Registered s.hub r))
  | .sample => inferInstanceAs (Decidable True)

end Tunlit.Stats.Sampling
