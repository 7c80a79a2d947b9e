import Tunlit.Lib.Chunks
import Tunlit.Mux.Frames

/-! # The CLI's end of a stream

`MuxWriter`, `MuxReader` and `Credit` of `cli/src/mux.rs`, with what the shared `Mux`
does for one stream. The writer is one task: between two awaits of `send` or `close`
other tasks run, so the place it has reached is part of the state. `try_send` spawns
a task for its message; such messages wait in `spawned` and are put on the connection
in any order. -/
namespace Tunlit.Mux.Cli
open Tunlit.Mux.Frames Tunlit.Lib.Chunks

def WINDOW : Nat := 1024 * 1024
def CHUNK : Nat := 64 * 1024
def ACK_THRESHOLD : Nat := 256 * 1024

inductive Incoming where
  | data (d : Bytes)
  | datagram (d : Bytes)
  | close
  | reset
deriving DecidableEq

/-- Where the writer's task is: in `Credit::take` for the first of the chunks left, or
at the await inside `mux.send` for a chunk whose credit is taken, or for the CLOSE. -/
inductive Writer where
  | idle
  | taking (chunk : Bytes) (rest : List Bytes)
  | charged (chunk : Bytes) (rest : List Bytes)
  | closing
deriving DecidableEq

/-- The chunks whose credit the writer has not taken. -/
def Writer.left : Writer → List Bytes
  | .taking chunk rest => chunk :: rest
  | .charged _ rest => rest
  | .idle | .closing => []

@[simp] theorem left_idle : Writer.idle.left = [] := rfl
@[simp] theorem left_taking (chunk : Bytes) (rest : List Bytes) :
    (Writer.taking chunk rest).left = chunk :: rest := rfl
@[simp] theorem left_charged (chunk : Bytes) (rest : List Bytes) :
    (Writer.charged chunk rest).left = rest := rfl
@[simp] theorem left_closing : Writer.closing.left = [] := rfl

/-- `send` goes through the chunks of the data, one after the other. -/
def nextChunk : List Bytes → Writer
  | [] => .idle
  | chunk :: rest => .taking chunk rest

@[simp] theorem nextChunk_left (l : List Bytes) : (nextChunk l).left = l := by
  cases l <;> rfl

theorem nextChunk_ne_closing (l : List Bytes) : nextChunk l ≠ .closing := by
  cases l <;> nofun

theorem nextChunk_ne_charged (l : List Bytes) (chunk : Bytes) (rest : List Bytes) :
    nextChunk l ≠ .charged chunk rest := by
  cases l <;> nofun

structure CliStream where
  available : Int := WINDOW
  dead : Bool := false
  closeSent : Bool := false
  closeReceived : Bool := false
  rx : List Incoming := []
  unacked : Nat := 0
  writer : Writer := .idle
  -- the reader is at `rx.recv().await`
  receiving : Bool := false
  -- the `Mux`: its map has the stream, it is closed, the task that writes the
  -- connection takes messages; and both handles are dropped
  entry : Bool := true
  closed : Bool := false
  outOpen : Bool := true
  dropped : Bool := false
  -- messages of `try_send`, and what is sent and not yet received by the peer
  spawned : List Frame := []
  wire : List Frame := []
  -- what has happened: the bytes sent and received, `close` called, Close returned by
  -- `recv`, a `send` that failed, a RESET sent
  written : Bytes := []
  received : Bytes := []
  closing : Bool := false
  sawClose : Bool := false
  failed : Bool := false
  resetSent : Bool := false
deriving DecidableEq

namespace CliStream

def trySend (s : CliStream) (frame : Frame) : CliStream :=
  { s with spawned := s.spawned ++ if s.closed then [] else [frame] }

/-- `MuxWriter::send`, up to the first await. -/
def send (s : CliStream) (data : Bytes) : CliStream :=
  { s with written := s.written ++ data, writer := nextChunk (chunks CHUNK data) }

/-- One turn of the loop of `Credit::take`; while the credit does not suffice it waits.
Behind it `mux.send` looks whether the connection is closed. -/
def take (s : CliStream) : Option CliStream :=
  match s.writer with
  | .taking chunk rest =>
    if s.dead then some { s with writer := .idle, failed := true }
    else if (chunk.length : Int) ≤ s.available then
      let s := { s with available := s.available - chunk.length }
      if s.closed then some { s with writer := .idle, failed := true }
      else some { s with writer := .charged chunk rest }
    else none
  | _ => none

/-- `out.send` gets its place on the connection, or nobody takes messages any more. -/
def outSend (s : CliStream) : Option CliStream :=
  match s.writer with
  | .charged chunk rest =>
    if s.outOpen then some { s with wire := s.wire ++ [.data chunk], writer := nextChunk rest }
    else some { s with writer := .idle, failed := true }
  | .closing =>
    if s.outOpen then some { s with wire := s.wire ++ [.close], writer := .idle }
    else some { s with writer := .idle }
  | _ => none

def close (s : CliStream) : CliStream :=
  let s := { s with closing := true }
  if s.dead || s.closeSent then s
  else if s.closed then { s with closeSent := true }
  else { s with closeSent := true, writer := .closing }

def reset (s : CliStream) : CliStream :=
  if s.dead then s else { s with dead := true, resetSent := true }.trySend .reset

def sendDatagram (s : CliStream) (data : Bytes) : CliStream :=
  if MAX_DATAGRAM < data.length || s.dead || s.closed || !s.outOpen then s
  else { s with wire := s.wire ++ [.datagram data] }

def ack (s : CliStream) : CliStream :=
  if s.unacked = 0 || s.dead then s
  else { s with unacked := 0 }.trySend (.windowUpdate s.unacked)

/-- `MuxReader::recv`, up to its await. -/
def recv (s : CliStream) : CliStream :=
  let s := if ACK_THRESHOLD ≤ s.unacked then s.ack else s
  { s with receiving := true }

/-- `recv` after its await: the queue has an item, or no sender is left. -/
def received? (s : CliStream) : Option CliStream :=
  let s := { s with receiving := false }
  match s.rx with
  | .data d :: rest =>
    some { s with rx := rest, unacked := s.unacked + d.length, received := s.received ++ d }
  | .close :: rest => some { s with rx := rest, closeReceived := true, sawClose := true }
  | .reset :: rest => some { s with rx := rest, dead := true }
  | .datagram _ :: rest => some { s with rx := rest }
  | [] => if s.entry then none else some { s with dead := true }

/-- `Drop for Shared`, when the writer and the reader are gone. -/
def drop (s : CliStream) : CliStream :=
  let s := { s with dropped := true, entry := false, rx := [] }
  if !s.dead && !(s.closeSent && s.closeReceived) then
    { s with resetSent := true }.trySend .reset
  else s

/-- The reader loop of `Mux::connect`, for a frame that carries this stream's id. -/
def onFrame (s : CliStream) (frame : Frame) : CliStream :=
  if !s.entry then s else
  match frame with
  | .data payload => { s with rx := s.rx ++ [.data payload] }
  | .datagram payload => { s with rx := s.rx ++ [.datagram payload] }
  | .close => { s with rx := s.rx ++ [.close] }
  | .reset => { s with dead := true, rx := s.rx ++ [.reset], entry := false }
  | .windowUpdate amount => { s with available := s.available + amount }

/-- The rest of `Mux::shutdown`: the entry is drained and its stream told. -/
def shutdown (s : CliStream) : CliStream :=
  if s.entry then { s with entry := false, dead := true, rx := s.rx ++ [.reset] } else s

/-- A task of `try_send` runs. -/
def runSpawned (s : CliStream) (i : Nat) : Option CliStream :=
  match s.spawned[i]? with
  | none => none
  | some frame => some { s with
      spawned := s.spawned.eraseIdx i
      wire := s.wire ++ if s.outOpen then [frame] else [] }

end CliStream

open CliStream

inductive CliEvent where
  | send (data : Bytes)
  | take
  | outSend
  | close
  | reset
  | recv
  | received
  | cancelRecv
  | drop
  | datagram (data : Bytes)
  | spawned (i : Nat)
  | closed
  | outClosed
  | shutdown
deriving DecidableEq

/-- What happens at the CLI without a frame arriving. There is one writer and one
reader, nothing is sent after `close`, and the handles are dropped when neither is in
a call; every caller in the CLI keeps to this. -/
def CliStream.step (s : CliStream) : CliEvent → Option CliStream
  | .send data =>
    if s.writer = .idle && !s.closing && !s.dropped then some (s.send data) else none
  | .take => s.take
  | .outSend => s.outSend
  | .close => if s.writer = .idle && !s.dropped then some s.close else none
  | .reset => if !s.dropped then some s.reset else none
  | .recv => if !s.receiving && !s.dropped then some s.recv else none
  | .received => if s.receiving then s.received? else none
  | .cancelRecv => if s.receiving then some { s with receiving := false } else none
  | .drop =>
    if s.writer = .idle && !s.receiving && !s.dropped then some s.drop else none
  | .datagram data => if !s.dropped then some (s.sendDatagram data) else none
  | .spawned i => s.runSpawned i
  | .closed => some { s with closed := true }
  | .outClosed => some { s with outOpen := false }
  | .shutdown => if s.closed then some s.shutdown else none

/-- What a step of the CLI's end can be. -/
inductive CliStep (s : CliStream) : CliEvent → CliStream → Prop
  | send (data : Bytes) (hw : s.writer = .idle) (hc : s.closing = false) (hd : s.dropped = false) :
      CliStep s (.send data) (s.send data)
  | takeDead (chunk : Bytes) (rest : List Bytes) (hw : s.writer = .taking chunk rest)
      (hd : s.dead = true) : CliStep s .take { s with writer := .idle, failed := true }
  | takeClosed (chunk : Bytes) (rest : List Bytes) (hw : s.writer = .taking chunk rest)
      (hd : s.dead = false) (ha : (chunk.length : Int) ≤ s.available) (hc : s.closed = true) :
      CliStep s .take
        { s with available := s.available - chunk.length, writer := .idle, failed := true }
  | take (chunk : Bytes) (rest : List Bytes) (hw : s.writer = .taking chunk rest)
      (hd : s.dead = false) (ha : (chunk.length : Int) ≤ s.available) (hc : s.closed = false) :
      CliStep s .take
        { s with available := s.available - chunk.length, writer := .charged chunk rest }
  | outSend (chunk : Bytes) (rest : List Bytes) (hw : s.writer = .charged chunk rest)
      (ho : s.outOpen = true) :
      CliStep s .outSend { s with wire := s.wire ++ [.data chunk], writer := nextChunk rest }
  | outSendFails (chunk : Bytes) (rest : List Bytes) (hw : s.writer = .charged chunk rest)
      (ho : s.outOpen = false) : CliStep s .outSend { s with writer := .idle, failed := true }
  | outSendClose (hw : s.writer = .closing) :
      CliStep s .outSend
        { s with wire := s.wire ++ (if s.outOpen then [.close] else []), writer := .idle }
  | close (hw : s.writer = .idle) (hd : s.dropped = false) : CliStep s .close s.close
  | reset (hd : s.dropped = false) : CliStep s .reset s.reset
  | recv (hr : s.receiving = false) (hd : s.dropped = false) : CliStep s .recv s.recv
  | gotData (d : Bytes) (rest : List Incoming) (hr : s.receiving = true) (h : s.rx = .data d :: rest) :
      CliStep s .received { s with
        receiving := false
        rx := rest
        unacked := s.unacked + d.length
        received := s.received ++ d }
  | gotClose (rest : List Incoming) (hr : s.receiving = true) (h : s.rx = .close :: rest) :
      CliStep s .received
        { s with receiving := false, rx := rest, closeReceived := true, sawClose := true }
  | gotReset (rest : List Incoming) (hr : s.receiving = true) (h : s.rx = .reset :: rest) :
      CliStep s .received { s with receiving := false, rx := rest, dead := true }
  | gotDatagram (d : Bytes) (rest : List Incoming) (hr : s.receiving = true)
      (h : s.rx = .datagram d :: rest) :
      CliStep s .received { s with receiving := false, rx := rest }
  | gotNone (hr : s.receiving = true) (h : s.rx = []) (he : s.entry = false) :
      CliStep s .received { s with receiving := false, dead := true }
  | cancelRecv (hr : s.receiving = true) : CliStep s .cancelRecv { s with receiving := false }
  | drop (hw : s.writer = .idle) (hr : s.receiving = false) (hd : s.dropped = false) :
      CliStep s .drop s.drop
  | datagram (data : Bytes) (hd : s.dropped = false) :
      CliStep s (.datagram data) (s.sendDatagram data)
  | spawned (i : Nat) (frame : Frame) (h : s.spawned[i]? = some frame) :
      CliStep s (.spawned i) { s with
        spawned := s.spawned.eraseIdx i
        wire := s.wire ++ if s.outOpen then [frame] else [] }
  | closed : CliStep s .closed { s with closed := true }
  | outClosed : CliStep s .outClosed { s with outOpen := false }
  | shutdown (hc : s.closed = true) : CliStep s .shutdown s.shutdown

theorem cliStep_of_step {s t : CliStream} {e : CliEvent} (h : s.step e = some t) :
    CliStep s e t := by
  cases e with
  | take =>
    simp only [CliStream.step, take] at h
    split at h
    · rename_i chunk rest hw
      split at h
      · rename_i hd
        cases h
        exact .takeDead chunk rest hw hd
      · rename_i hd
        have hd : s.dead = false := by simpa using hd
        rw [Option.ite_none_right_eq_some] at h
        obtain ⟨ha, h⟩ := h
        split at h
        · rename_i hc
          cases h
          exact .takeClosed chunk rest hw hd ha hc
        · rename_i hc
          cases h
          exact .take chunk rest hw hd ha (by simpa using hc)
    · cases h
  | outSend =>
    simp only [CliStream.step, outSend] at h
    split at h
    · rename_i chunk rest hw
      split at h
      · rename_i ho
        cases h
        exact .outSend chunk rest hw ho
      · rename_i ho
        cases h
        exact .outSendFails chunk rest hw (by simpa using ho)
    · rename_i hw
      have := CliStep.outSendClose hw
      split at h <;> cases h <;> simp_all
    · cases h
  | received =>
    simp only [CliStream.step, Option.ite_none_right_eq_some, received?] at h
    obtain ⟨hr, h⟩ := h
    split at h
    · rename_i d rest hx
      cases h
      exact .gotData d rest hr hx
    · rename_i rest hx
      cases h
      exact .gotClose rest hr hx
    · rename_i rest hx
      cases h
      exact .gotReset rest hr hx
    · rename_i d rest hx
      cases h
      exact .gotDatagram d rest hr hx
    · rename_i hx
      rw [Option.ite_none_left_eq_some] at h
      obtain ⟨he, h⟩ := h
      cases h
      exact .gotNone hr hx (by simpa using he)
  | spawned i =>
    simp only [CliStream.step, runSpawned] at h
    split at h
    · cases h
    · rename_i frame hi
      cases h
      exact .spawned i frame hi
  | closed =>
    cases h
    exact .closed
  | outClosed =>
    cases h
    exact .outClosed
  | _ =>
    simp only [CliStream.step, Option.ite_none_right_eq_some, Bool.and_eq_true, Bool.not_eq_true',
      decide_eq_true_eq, Option.some.injEq] at h
    obtain ⟨hg, rfl⟩ := h
    constructor <;> simp only [hg]

end Tunlit.Mux.Cli
