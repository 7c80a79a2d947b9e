import Tunlit.Lib.Runs
import Tunlit.Mux.Cli

/-! # The pump between a local connection and a stream

`pump_tcp` of `cli/src/tcp.rs`, over the CLI's end of a stream. Without a shape there is one
task for each direction; with one there are two, with a queue between them. A chunk of
`Shape::next` is held back for a time that only the shape knows, so it is let go at any time.
What a read or a write of the local socket does is given by what the local app has sent and
by the room it has left for more. -/
namespace Tunlit.Client.Pumping
open Tunlit.Lib.Runs Tunlit.Mux.Frames Tunlit.Mux.Cli

def QUEUE : Nat := 256

/-! ## The local socket -/

/-- How the local app's half of the connection ends. -/
inductive End where
  | eof
  | error
deriving DecidableEq, Repr

structure Socket where
  /-- what can be read, and the end behind it -/
  input : Bytes := []
  ending : Option End := none
  /-- how much can be written; or writes fail -/
  room : Nat := 0
  broken : Bool := false
  /-- the write half was shut down -/
  shut : Bool := false
  -- what has happened: the bytes that the app has sent, and those written to it
  offered : Bytes := []
  taken : Bytes := []
deriving DecidableEq

inductive Got where
  | bytes (chunk : Bytes)
  | ended (ending : End)
deriving DecidableEq

/-- `rd.read` returns some of the bytes that are there, or the end. -/
def Socket.read (socket : Socket) (n : Nat) : Option (Got × Socket) :=
  if socket.input = [] then socket.ending.map fun ending => (.ended ending, socket)
  else if 0 < n ∧ n ≤ CHUNK ∧ n ≤ socket.input.length then
    some (.bytes (socket.input.take n), { socket with input := socket.input.drop n })
  else none

/-- `write_all` gets rid of some of the bytes that are left. -/
def Socket.write (socket : Socket) (left : Bytes) (n : Nat) : Option (Bytes × Socket) :=
  if 0 < n ∧ n ≤ socket.room ∧ n ≤ left.length then
    some (left.drop n,
      { socket with room := socket.room - n, taken := socket.taken ++ left.take n })
  else none

def Socket.shutdown (socket : Socket) : Socket := { socket with shut := true }

/-! ## Tasks -/

/-- `to_mux`: at the read, in `writer.send`, or in `writer.close`. -/
inductive ToMux where
  | reading | sending | closing | ended
deriving DecidableEq

/-- `read_socket`: at the read, or at the send to a full queue. -/
inductive ReadSocket where
  | reading | passing (chunk : Bytes) | ended
deriving DecidableEq

/-- `write_mux`: at the queue, at the sleep of `Shape::next`, in `writer.send`, or in
`writer.close`. -/
inductive WriteMux where
  | waiting | sleeping (chunk : Bytes) | sending | closing | ended
deriving DecidableEq

/-- `from_mux`: in `reader.recv`, or in `write_all`. -/
inductive FromMux where
  | receiving | writing (left : Bytes) | ended
deriving DecidableEq

inductive ReadMux where
  | receiving | passing (chunk : Bytes) | ended
deriving DecidableEq

inductive WriteSocket where
  | waiting | sleeping (chunk : Bytes) | writing (left : Bytes) | ended
deriving DecidableEq

/-- The tasks from the socket to the stream. -/
inductive Outward where
  | plain (toMux : ToMux)
  | shaped (readSocket : ReadSocket) (queue : List Bytes) (writeMux : WriteMux)
deriving DecidableEq

/-- The tasks from the stream to the socket. -/
inductive Inward where
  | plain (fromMux : FromMux)
  | shaped (readMux : ReadMux) (queue : List Bytes) (writeSocket : WriteSocket)
deriving DecidableEq

structure Pump where
  out : Outward
  back : Inward
  cli : CliStream := CliStream.recv {}
  socket : Socket := {}
  /-- `pump_tcp` has returned, and its socket and its stream are dropped -/
  returned : Bool := false
  -- what has happened: the items for the reader, and `recv` has returned Reset
  told : List Incoming := []
  sawReset : Bool := false
deriving DecidableEq

/-- The tasks that `tokio::join!` starts. -/
def start (active : Bool) : Pump :=
  if active then { out := .shaped .reading [] .waiting, back := .shaped .receiving [] .waiting }
  else { out := .plain .reading, back := .plain .receiving }

def Outward.Ended (out : Outward) : Prop :=
  out = .plain .ended ∨ out = .shaped .ended [] .ended

def Inward.Ended (back : Inward) : Prop :=
  back = .plain .ended ∨ back = .shaped .ended [] .ended

instance (out : Outward) : Decidable out.Ended := inferInstanceAs (Decidable (_ ∨ _))
instance (back : Inward) : Decidable back.Ended := inferInstanceAs (Decidable (_ ∨ _))

namespace Pump

variable (s : Pump)

/-! ## Socket to stream -/

/-- `writer.close` is called in the last turn of a task, and may have to wait there. -/
def close (closing ended : Outward) : Pump :=
  { s with cli := s.cli.close, out := if s.cli.close.writer = .idle then ended else closing }

/-- `read_socket` sends a chunk to the queue, which may be full or have no receiver. -/
def pass (queue : List Bytes) (writeMux : WriteMux) (chunk : Bytes) : Outward :=
  if writeMux = .ended then .shaped .ended queue writeMux
  else if queue.length < QUEUE then .shaped .reading (queue ++ [chunk]) writeMux
  else .shaped (.passing chunk) queue writeMux

def read (n : Nat) : Option Pump :=
  match s.out with
  | .plain .reading => (s.socket.read n).map fun
    | (.bytes chunk, socket) => { s with socket, cli := s.cli.send chunk, out := .plain .sending }
    | (.ended .eof, _) => s.close (.plain .closing) (.plain .ended)
    | (.ended .error, _) => { s with cli := s.cli.reset, out := .plain .ended }
  | .shaped .reading queue writeMux => (s.socket.read n).map fun
    | (.bytes chunk, socket) => { s with socket, out := pass queue writeMux chunk }
    | (.ended _, _) => { s with out := .shaped .ended queue writeMux }
  | _ => none

def passOn : Option Pump :=
  match s.out with
  | .shaped (.passing chunk) queue writeMux =>
    if writeMux = .ended ∨ queue.length < QUEUE then
      some { s with out := pass queue writeMux chunk }
    else none
  | _ => none

/-- The end of `write_mux`. Its receiver is dropped with it. -/
def closeShaped (readSocket : ReadSocket) (queue : List Bytes) : Pump :=
  s.close (.shaped readSocket queue .closing) (.shaped readSocket [] .ended)

/-- `Shape::next` of `write_mux`, up to its sleep. -/
def nextMux : Option Pump :=
  match s.out with
  | .shaped readSocket (chunk :: queue) .waiting =>
    some { s with out := .shaped readSocket queue (.sleeping chunk) }
  | .shaped .ended [] .waiting => some (s.closeShaped .ended [])
  | _ => none

def wakeMux : Option Pump :=
  match s.out with
  | .shaped readSocket queue (.sleeping chunk) =>
    some { s with cli := s.cli.send chunk, out := .shaped readSocket queue .sending }
  | _ => none

/-- The writer of the stream goes on, and so does the task that is in it. -/
def advance (cli : CliStream) : Option Pump :=
  let t := { s with cli }
  match s.out with
  | .plain .sending => some
    (if cli.writer ≠ .idle then t
    else if cli.failed then { t with out := .plain .ended }
    else { t with out := .plain .reading })
  | .plain .closing => some { t with out := .plain .ended }
  | .shaped readSocket queue .sending => some
    (if cli.writer ≠ .idle then t
    else if cli.failed then t.closeShaped readSocket queue
    else { t with out := .shaped readSocket queue .waiting })
  | .shaped readSocket _ .closing => some { t with out := .shaped readSocket [] .ended }
  | _ => none

/-! ## Stream to socket -/

/-- `from_mux` has `left` to write; behind it, it calls `recv`. -/
def writePlain (left : Bytes) : Pump :=
  if left = [] then { s with cli := s.cli.recv, back := .plain .receiving }
  else { s with back := .plain (.writing left) }

def writeShaped (readMux : ReadMux) (queue : List Bytes) (left : Bytes) : Pump :=
  { s with back := .shaped readMux queue (if left = [] then .waiting else .writing left) }

/-- `read_mux` sends a chunk to the queue, and calls `recv` again. -/
def passBack (queue : List Bytes) (writeSocket : WriteSocket) (chunk : Bytes) : Pump :=
  if writeSocket = .ended then { s with back := .shaped .ended queue writeSocket }
  else if queue.length < QUEUE then
    { s with cli := s.cli.recv, back := .shaped .receiving (queue ++ [chunk]) writeSocket }
  else { s with back := .shaped (.passing chunk) queue writeSocket }

/-- What `recv` returns: the first item, or Reset when no sender is left. -/
def item : Incoming := s.cli.rx.headD .reset

/-- The turn of `from_mux` or `read_mux` behind `recv`. -/
def receive (item : Incoming) : Option Pump :=
  match s.back with
  | .plain .receiving => some
    (match item with
    | .data d => s.writePlain d
    | .datagram _ => { s with cli := s.cli.recv }
    | .close => { s with socket := s.socket.shutdown, back := .plain .ended }
    | .reset => { s with back := .plain .ended })
  | .shaped .receiving queue writeSocket => some
    (match item with
    | .data d => s.passBack queue writeSocket d
    | .datagram _ => { s with cli := s.cli.recv }
    | .close | .reset => { s with back := .shaped .ended queue writeSocket })
  | _ => none

/-- `recv` has returned. -/
def got (cli : CliStream) : Pump :=
  { s with cli, sawReset := s.sawReset || decide (s.item = Incoming.reset) }

def received : Option Pump := s.cli.received?.bind fun cli => (s.got cli).receive s.item

def passBackOn : Option Pump :=
  match s.back with
  | .shaped (.passing chunk) queue writeSocket =>
    if writeSocket = .ended ∨ queue.length < QUEUE then some (s.passBack queue writeSocket chunk)
    else none
  | _ => none

/-- The end of `write_socket`. Its receiver is dropped with it. -/
def shutShaped (readMux : ReadMux) : Pump :=
  { s with socket := s.socket.shutdown, back := .shaped readMux [] .ended }

def nextSocket : Option Pump :=
  match s.back with
  | .shaped readMux (chunk :: queue) .waiting =>
    some { s with back := .shaped readMux queue (.sleeping chunk) }
  | .shaped .ended [] .waiting => some (s.shutShaped .ended)
  | _ => none

def wakeSocket : Option Pump :=
  match s.back with
  | .shaped readMux queue (.sleeping chunk) => some (s.writeShaped readMux queue chunk)
  | _ => none

def write (n : Nat) : Option Pump :=
  match s.back with
  | .plain (.writing left) =>
    if s.socket.broken then some { s with back := .plain .ended }
    else (s.socket.write left n).map fun (left, socket) => { s with socket }.writePlain left
  | .shaped readMux queue (.writing left) =>
    if s.socket.broken then some (s.shutShaped readMux)
    else (s.socket.write left n).map fun (left, socket) =>
      { s with socket }.writeShaped readMux queue left
  | _ => none

/-! ## The connection and the app -/

/-- The connection's tasks change the stream and may tell the reader something. -/
def tell (cli : CliStream) : Pump :=
  { s with cli, told := s.told ++ cli.rx.drop s.cli.rx.length }

end Pump

inductive Event where
  -- the pump's own tasks
  | read (n : Nat)
  | passOn
  | nextMux
  | wakeMux
  | take
  | outSend
  | received
  | passBackOn
  | nextSocket
  | wakeSocket
  | write (n : Nat)
  | finish
  -- the tasks of the connection
  | frame (frame : Frame)
  | closed
  | outClosed
  | shutdown
  | spawned (i : Nat)
  -- the local app
  | sends (bytes : Bytes)
  | ends (ending : End)
  | takes (n : Nat)
  | breaks
deriving DecidableEq

/-- The steps that the pump takes by itself. -/
def Event.isTask : Event → Bool
  | .read _ | .passOn | .nextMux | .wakeMux | .take | .outSend | .received | .passBackOn
  | .nextSocket | .wakeSocket | .write _ | .finish => true
  | _ => false

def step (s : Pump) : Event → Option Pump
  | .read n => s.read n
  | .passOn => s.passOn
  | .nextMux => s.nextMux
  | .wakeMux => s.wakeMux
  | .take => s.cli.take.bind s.advance
  | .outSend => s.cli.outSend.bind s.advance
  | .received => s.received
  | .passBackOn => s.passBackOn
  | .nextSocket => s.nextSocket
  | .wakeSocket => s.wakeSocket
  | .write n => s.write n
  | .finish =>
    if s.out.Ended ∧ s.back.Ended ∧ s.returned = false then
      some { s with cli := s.cli.drop, returned := true }
    else none
  | .frame frame => some (s.tell (s.cli.onFrame frame))
  | .closed => some { s with cli := { s.cli with closed := true } }
  | .outClosed => some { s with cli := { s.cli with outOpen := false } }
  | .shutdown => if s.cli.closed then some (s.tell s.cli.shutdown) else none
  | .spawned i => (s.cli.runSpawned i).map fun cli => { s with cli }
  | .sends bytes =>
    if s.socket.ending = none then
      some { s with socket := { s.socket with
        input := s.socket.input ++ bytes
        offered := s.socket.offered ++ bytes } }
    else none
  | .ends ending =>
    if s.socket.ending = none then
      some { s with socket := { s.socket with ending := some ending } }
    else none
  | .takes n => some { s with socket := { s.socket with room := s.socket.room + n } }
  | .breaks => some { s with socket := { s.socket with broken := true } }

/-- `pump_tcp` is called with the stream that was just opened. -/
def machine (active : Bool) : Machine Pump Event := ⟨(· = start active), step⟩

/-- No task can take a step. -/
def Stuck (s : Pump) : Prop := ∀ e : Event, e.isTask = true → step s e = none

/-! ## What a step can be -/

/-- The writer of the stream goes on. -/
def Advances (c d : CliStream) : Prop := c.step .take = some d ∨ c.step .outSend = some d

/-- The turns of the tasks from the socket to the stream. -/
inductive OutTurn (s : Pump) (e : Event) : Pump → Prop
  | read (n : Nat) (hi : s.socket.input ≠ []) (hn : 0 < n ∧ n ≤ CHUNK ∧ n ≤ s.socket.input.length)
      (ho : s.out = .plain .reading) :
      OutTurn s e { s with
        socket := { s.socket with input := s.socket.input.drop n }
        cli := s.cli.send (s.socket.input.take n)
        out := .plain .sending }
  | eof (hi : s.socket.input = []) (he : s.socket.ending = some .eof) (ho : s.out = .plain .reading) :
      OutTurn s e (s.close (.plain .closing) (.plain .ended))
  | error (hi : s.socket.input = []) (he : s.socket.ending = some .error)
      (ho : s.out = .plain .reading) : OutTurn s e { s with cli := s.cli.reset, out := .plain .ended }
  | advance (d : CliStream) (hd : Advances s.cli d) (ho : s.out = .plain .sending) :
      OutTurn s e { s with
        cli := d
        out := .plain (if d.writer ≠ .idle then .sending else if d.failed then .ended else .reading) }
  | closed (d : CliStream) (hd : Advances s.cli d) (ho : s.out = .plain .closing) :
      OutTurn s e { s with cli := d, out := .plain .ended }
  | readShaped (n : Nat) (queue : List Bytes) (w : WriteMux) (hi : s.socket.input ≠ [])
      (hn : 0 < n ∧ n ≤ CHUNK ∧ n ≤ s.socket.input.length) (ho : s.out = .shaped .reading queue w) :
      OutTurn s e { s with
        socket := { s.socket with input := s.socket.input.drop n }
        out := Pump.pass queue w (s.socket.input.take n) }
  | endShaped (n : Nat) (hn : e = .read n) (ending : End) (queue : List Bytes) (w : WriteMux)
      (hi : s.socket.input = []) (he : s.socket.ending = some ending)
      (ho : s.out = .shaped .reading queue w) :
      OutTurn s e { s with out := .shaped .ended queue w }
  | passOn (chunk : Bytes) (queue : List Bytes) (w : WriteMux)
      (hq : w = .ended ∨ queue.length < QUEUE) (ho : s.out = .shaped (.passing chunk) queue w) :
      OutTurn s e { s with out := Pump.pass queue w chunk }
  | next (r : ReadSocket) (chunk : Bytes) (queue : List Bytes)
      (ho : s.out = .shaped r (chunk :: queue) .waiting) :
      OutTurn s e { s with out := .shaped r queue (.sleeping chunk) }
  | none (ho : s.out = .shaped .ended [] .waiting) : OutTurn s e (s.closeShaped .ended [])
  | wake (r : ReadSocket) (chunk : Bytes) (queue : List Bytes)
      (ho : s.out = .shaped r queue (.sleeping chunk)) :
      OutTurn s e { s with cli := s.cli.send chunk, out := .shaped r queue .sending }
  | sending (r : ReadSocket) (queue : List Bytes) (d : CliStream) (hd : Advances s.cli d)
      (ho : s.out = .shaped r queue .sending) (hw : d.writer ≠ .idle ∨ d.failed = false) :
      OutTurn s e { s with
        cli := d
        out := .shaped r queue (if d.writer ≠ .idle then .sending else .waiting) }
  | failed (r : ReadSocket) (queue : List Bytes) (d : CliStream) (hd : Advances s.cli d)
      (ho : s.out = .shaped r queue .sending) (hw : d.writer = .idle) (hf : d.failed = true) :
      OutTurn s e ({ s with cli := d }.closeShaped r queue)
  | closedShaped (r : ReadSocket) (queue : List Bytes) (d : CliStream) (hd : Advances s.cli d)
      (ho : s.out = .shaped r queue .closing) :
      OutTurn s e { s with cli := d, out := .shaped r [] .ended }

/-- The turns of the tasks from the stream to the socket. -/
inductive BackTurn (s : Pump) : Event → Pump → Prop
  | received (d : CliStream) (t : Pump) (hd : s.cli.received? = some d)
      (ht : (s.got d).receive s.item = some t) :
      BackTurn s .received t
  | passBack (chunk : Bytes) (queue : List Bytes) (w : WriteSocket)
      (hq : w = .ended ∨ queue.length < QUEUE) (hb : s.back = .shaped (.passing chunk) queue w) :
      BackTurn s .passBackOn (s.passBack queue w chunk)
  | next (r : ReadMux) (chunk : Bytes) (queue : List Bytes)
      (hb : s.back = .shaped r (chunk :: queue) .waiting) :
      BackTurn s .nextSocket { s with back := .shaped r queue (.sleeping chunk) }
  | none (hb : s.back = .shaped .ended [] .waiting) : BackTurn s .nextSocket (s.shutShaped .ended)
  | wake (r : ReadMux) (chunk : Bytes) (queue : List Bytes)
      (hb : s.back = .shaped r queue (.sleeping chunk)) :
      BackTurn s .wakeSocket (s.writeShaped r queue chunk)
  | fails (n : Nat) (left : Bytes) (hk : s.socket.broken = true) (hb : s.back = .plain (.writing left)) :
      BackTurn s (.write n) { s with back := .plain .ended }
  | write (n : Nat) (left rest : Bytes) (k : Socket) (hk : s.socket.broken = false)
      (hw : s.socket.write left n = some (rest, k)) (hb : s.back = .plain (.writing left)) :
      BackTurn s (.write n) ({ s with socket := k }.writePlain rest)
  | failsShaped (n : Nat) (r : ReadMux) (queue : List Bytes) (left : Bytes)
      (hk : s.socket.broken = true) (hb : s.back = .shaped r queue (.writing left)) :
      BackTurn s (.write n) (s.shutShaped r)
  | writeShaped (r : ReadMux) (queue : List Bytes) (n : Nat) (left rest : Bytes) (k : Socket)
      (hk : s.socket.broken = false) (hw : s.socket.write left n = some (rest, k))
      (hb : s.back = .shaped r queue (.writing left)) :
      BackTurn s (.write n) ({ s with socket := k }.writeShaped r queue rest)

/-- What the connection and the app do to the stream and to the socket. -/
inductive Outside (s : Pump) : Pump → Prop
  | frame (frame : Frame) : Outside s (s.tell (s.cli.onFrame frame))
  | closed : Outside s { s with cli := { s.cli with closed := true } }
  | outClosed : Outside s { s with cli := { s.cli with outOpen := false } }
  | shutdown (hc : s.cli.closed = true) : Outside s (s.tell s.cli.shutdown)
  | spawned (i : Nat) (d : CliStream) (hd : s.cli.runSpawned i = some d) :
      Outside s { s with cli := d }
  | sends (bytes : Bytes) (he : s.socket.ending = none) :
      Outside s { s with socket := { s.socket with
        input := s.socket.input ++ bytes
        offered := s.socket.offered ++ bytes } }
  | ends (e : End) (he : s.socket.ending = none) :
      Outside s { s with socket := { s.socket with ending := some e } }
  | takes (n : Nat) : Outside s { s with socket := { s.socket with room := s.socket.room + n } }
  | breaks : Outside s { s with socket := { s.socket with broken := true } }

theorem read_cases {k k' : Socket} {n : Nat} {got : Got} (h : k.read n = some (got, k')) :
    (k.input ≠ [] ∧ (0 < n ∧ n ≤ CHUNK ∧ n ≤ k.input.length) ∧ got = .bytes (k.input.take n) ∧
      k' = { k with input := k.input.drop n }) ∨
    ∃ e, k.input = [] ∧ k.ending = some e ∧ got = .ended e ∧ k' = k := by
  unfold Socket.read at h
  split at h
  · next hi =>
    obtain ⟨e, he, h⟩ := Option.map_eq_some_iff.mp h
    cases h
    exact .inr ⟨e, hi, he, rfl, rfl⟩
  · next hi =>
    obtain ⟨hn, h⟩ := Option.ite_none_right_eq_some.mp h
    cases h
    exact .inl ⟨hi, hn, rfl, rfl⟩

theorem outTurn_read {s t : Pump} {n : Nat} (h : s.read n = some t) : OutTurn s (.read n) t := by
  unfold Pump.read at h
  split at h
  · next ho =>
    obtain ⟨⟨got, k⟩, hr, rfl⟩ := Option.map_eq_some_iff.mp h
    rcases read_cases hr with ⟨hi, hn, rfl, rfl⟩ | ⟨e, hi, he, rfl, rfl⟩
    · exact .read n hi hn ho
    · cases e with
      | eof => exact .eof hi he ho
      | error => exact .error hi he ho
  · next queue w ho =>
    obtain ⟨⟨got, k⟩, hr, rfl⟩ := Option.map_eq_some_iff.mp h
    rcases read_cases hr with ⟨hi, hn, rfl, rfl⟩ | ⟨e, hi, he, rfl, rfl⟩
    · exact .readShaped n queue w hi hn ho
    · exact .endShaped n rfl e queue w hi he ho
  · cases h

theorem outTurn_advance {s t : Pump} {e : Event} {d : CliStream} (hd : Advances s.cli d)
    (h : s.advance d = some t) : OutTurn s e t := by
  unfold Pump.advance at h
  split at h
  · next ho =>
    cases h
    have := OutTurn.advance (e := e) d hd ho
    by_cases hw : d.writer = .idle <;> by_cases hf : d.failed = true <;> simp_all
  · next ho =>
    cases h
    exact .closed d hd ho
  · next r queue ho =>
    cases h
    by_cases hw : d.writer = .idle
    · cases hf : d.failed with
      | true => simpa [hw] using OutTurn.failed (e := e) r queue d hd ho hw hf
      | false => simpa [hw] using OutTurn.sending (e := e) r queue d hd ho (.inr hf)
    · have := OutTurn.sending (e := e) r queue d hd ho (.inl hw)
      simp_all
  · next r queue ho =>
    cases h
    exact .closedShaped r queue d hd ho
  · cases h

theorem backTurn_write {s t : Pump} {n : Nat} (h : s.write n = some t) :
    BackTurn s (.write n) t := by
  unfold Pump.write at h
  split at h
  · next left hb =>
    split at h
    · next hk =>
      cases h
      exact .fails n left hk hb
    · next hk =>
      obtain ⟨⟨rest, k⟩, hw, rfl⟩ := Option.map_eq_some_iff.mp h
      exact .write n left rest k (by simpa using hk) hw hb
  · next r queue left hb =>
    split at h
    · next hk =>
      cases h
      exact .failsShaped n r queue left hk hb
    · next hk =>
      obtain ⟨⟨rest, k⟩, hw, rfl⟩ := Option.map_eq_some_iff.mp h
      exact .writeShaped r queue n left rest k (by simpa using hk) hw hb
  · cases h

theorem step_cases {s t : Pump} {e : Event} (h : step s e = some t) :
    OutTurn s e t ∨ BackTurn s e t ∨ Outside s t ∨
    s.out.Ended ∧ s.back.Ended ∧ s.returned = false ∧
      t = { s with cli := s.cli.drop, returned := true } := by
  cases e with
  | read n => exact .inl (outTurn_read h)
  | passOn =>
    simp only [step, Pump.passOn] at h
    split at h
    · next chunk queue w ho =>
      obtain ⟨hq, h⟩ := Option.ite_none_right_eq_some.mp h
      cases h
      exact .inl (.passOn chunk queue w hq ho)
    · cases h
  | nextMux =>
    simp only [step, Pump.nextMux] at h
    split at h
    · next r chunk queue ho =>
      cases h
      exact .inl (.next r chunk queue ho)
    · next ho =>
      cases h
      exact .inl (.none ho)
    · cases h
  | wakeMux =>
    simp only [step, Pump.wakeMux] at h
    split at h
    · next r queue chunk ho =>
      cases h
      exact .inl (.wake r chunk queue ho)
    · cases h
  | take =>
    obtain ⟨d, hd, h⟩ := Option.bind_eq_some_iff.mp h
    exact .inl (outTurn_advance (.inl hd) h)
  | outSend =>
    obtain ⟨d, hd, h⟩ := Option.bind_eq_some_iff.mp h
    exact .inl (outTurn_advance (.inr hd) h)
  | received =>
    obtain ⟨d, hd, h⟩ := Option.bind_eq_some_iff.mp h
    exact .inr (.inl (.received d t hd h))
  | passBackOn =>
    simp only [step, Pump.passBackOn] at h
    split at h
    · next chunk queue w hb =>
      obtain ⟨hq, h⟩ := Option.ite_none_right_eq_some.mp h
      cases h
      exact .inr (.inl (.passBack chunk queue w hq hb))
    · cases h
  | nextSocket =>
    simp only [step, Pump.nextSocket] at h
    split at h
    · next r chunk queue hb =>
      cases h
      exact .inr (.inl (.next r chunk queue hb))
    · next hb =>
      cases h
      exact .inr (.inl (.none hb))
    · cases h
  | wakeSocket =>
    simp only [step, Pump.wakeSocket] at h
    split at h
    · next r queue chunk hb =>
      cases h
      exact .inr (.inl (.wake r chunk queue hb))
    · cases h
  | write n => exact .inr (.inl (backTurn_write h))
  | finish =>
    obtain ⟨⟨ho, hb, hr⟩, h⟩ := Option.ite_none_right_eq_some.mp h
    cases h
    exact .inr (.inr (.inr ⟨ho, hb, hr, rfl⟩))
  | frame frame =>
    cases h
    exact .inr (.inr (.inl (.frame frame)))
  | closed =>
    cases h
    exact .inr (.inr (.inl .closed))
  | outClosed =>
    cases h
    exact .inr (.inr (.inl .outClosed))
  | shutdown =>
    obtain ⟨hc, h⟩ := Option.ite_none_right_eq_some.mp h
    cases h
    exact .inr (.inr (.inl (.shutdown hc)))
  | spawned i =>
    obtain ⟨d, hd, rfl⟩ := Option.map_eq_some_iff.mp h
    exact .inr (.inr (.inl (.spawned i d hd)))
  | sends bytes =>
    obtain ⟨he, h⟩ := Option.ite_none_right_eq_some.mp h
    cases h
    exact .inr (.inr (.inl (.sends bytes he)))
  | ends ending =>
    obtain ⟨he, h⟩ := Option.ite_none_right_eq_some.mp h
    cases h
    exact .inr (.inr (.inl (.ends ending he)))
  | takes n =>
    cases h
    exact .inr (.inr (.inl (.takes n)))
  | breaks =>
    cases h
    exact .inr (.inr (.inl .breaks))

end Tunlit.Client.Pumping
