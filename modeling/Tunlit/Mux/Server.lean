import Tunlit.Lib.Chunks
import Tunlit.Mux.Frames

/-! # The server's end of a stream

`MuxStream` of `lib/MuxSession.js`, with the part of its session and of Node's
`Duplex` that it works on. JavaScript runs one function at a time, but
`_flushWrites` calls the write callbacks, and a callback may write again: the calls
that are under way are a stack, one event is one turn of the loop of `_flushWrites`
or one call of the application, and the network and the timers are served when the
stack is empty. `bufferedAmount()` may return anything, so each event that asks for
it carries the answer. -/
namespace Tunlit.Mux.Server
open Tunlit.Mux.Frames Tunlit.Lib.Chunks

def WS_HIGH_WATER : Nat := 4 * 1024 * 1024
def READABLE_HIGH_WATER : Nat := 64 * 1024

/-- An entry of `writeQueue`; the callback is known by the number of its write. -/
structure WriteItem where
  pieces : List Bytes
  index : Nat
  callback : Nat
deriving DecidableEq

/-- What has not been sent of an item. -/
def WriteItem.remaining (item : WriteItem) : Bytes := (item.pieces.drop item.index).flatten

/-- A JavaScript call under way: the loop of `_flushWrites`, a callback it made, or
the rest of `_drain` behind it. -/
inductive Call where
  | flushWrites
  | callback
  | drain
deriving DecidableEq

structure MuxStream where
  sendWindow : Int := WINDOW_SIZE
  pendingUpdate : Nat := 0
  writeQueue : List WriteItem := []
  closeSent : Bool := false
  closeReceived : Bool := false
  finished : Bool := false
  resetReceived : Bool := false
  finalCallback : Bool := false
  -- the session: its map, its drain set and timer, the state of its WebSocket
  known : Bool := true
  waitingForDrain : Bool := false
  drainTimer : Bool := false
  closed : Bool := false
  wsOpen : Bool := true
  -- Node's Duplex: the read buffer, and what has been called on the stream
  readable : List Bytes := []
  pushed : Bool := false
  endEmitted : Bool := false
  ending : Bool := false
  destroyed : Bool := false
  stack : List Call := []
  -- sent and not yet received by the peer
  wire : List Frame := []
  -- what has happened: the bytes written and read, the callbacks called, a RESET sent
  written : Bytes := []
  consumed : Bytes := []
  writes : Nat := 0
  called : List Nat := []
  resetSent : Bool := false
deriving DecidableEq

namespace MuxStream

/-- `_send` gets through only while the session is open. -/
def sending (s : MuxStream) : Bool := !s.closed && s.wsOpen

def send (s : MuxStream) (frame : Frame) : MuxStream :=
  { s with wire := s.wire ++ if s.sending then [frame] else [] }

def forget (s : MuxStream) : MuxStream := { s with known := false }

def wantDrain (s : MuxStream) : MuxStream :=
  { s with waitingForDrain := true, drainTimer := true }

def maybeFinish (s : MuxStream) : MuxStream :=
  if s.closeSent && s.closeReceived && !s.finished then { s with finished := true }.forget else s

def sendClose (s : MuxStream) : MuxStream :=
  if s.closeSent || s.finished then s
  else ({ s with closeSent := true }.send .close).maybeFinish

/-- `_read`: acknowledge what has been pushed since the last call. -/
def read (s : MuxStream) : MuxStream :=
  let s := { s with pushed := false }
  if 0 < s.pendingUpdate && !s.finished && !s.closeReceived then
    { s with pendingUpdate := 0 }.send (.windowUpdate s.pendingUpdate)
  else s

/-- The loop of `_write` that cuts a chunk from `offset` on. -/
def piecesFrom (chunk : Bytes) (offset : Nat) : List Bytes :=
  if offset < chunk.length then
    (chunk.drop offset).take CHUNK_SIZE :: piecesFrom chunk (offset + CHUNK_SIZE)
  else []
termination_by chunk.length - offset
decreasing_by simp only [CHUNK_SIZE]; omega

def write (s : MuxStream) (chunk : Bytes) : MuxStream :=
  let s := { s with written := s.written ++ chunk, writes := s.writes + 1 }
  if s.finished then
    { s with called := s.called ++ [s.writes], stack := .callback :: s.stack }
  else
    { s with
      writeQueue := s.writeQueue ++ [⟨piecesFrom chunk 0, 0, s.writes⟩]
      stack := .flushWrites :: s.stack }

def final (s : MuxStream) : MuxStream :=
  let s := { s with ending := true }
  if s.finished then { s with stack := .callback :: s.stack }
  else { s with finalCallback := true, stack := .flushWrites :: s.stack }

/-- One turn of `_flushWrites`, whose call is on top of the stack: a piece is sent, an
item is done and its callback is called, or the function returns. -/
def flushWrites (s : MuxStream) (buffered : Nat) : MuxStream :=
  match s.writeQueue, s.finished with
  | item :: rest, false =>
    match item.pieces[item.index]? with
    | some piece =>
      if s.sendWindow < piece.length || decide (WS_HIGH_WATER < buffered) then
        { s.wantDrain with stack := s.stack.tail }
      else
        { ({ s with sendWindow := s.sendWindow - piece.length }.send (.data piece)) with
          writeQueue := { item with index := item.index + 1 } :: rest }
    | none =>
      { s with
        writeQueue := rest
        called := s.called ++ [item.callback]
        stack := .callback :: s.stack }
  | queue, _ =>
    if queue = [] && s.finalCallback then
      { s with finalCallback := false, stack := .callback :: s.stack.tail }.sendClose
    else { s with stack := s.stack.tail }

/-- `destroy` of Node, which calls `_destroy` once. -/
def destroy (s : MuxStream) : MuxStream :=
  if s.destroyed then s else
  let s := { s with
    destroyed := true
    called := s.called ++ s.writeQueue.map (·.callback)
    writeQueue := []
    readable := [] }
  if s.finished then s else
  let s := { s with finished := true }
  let s := if s.resetReceived || (s.closeSent && s.closeReceived) then s
    else { s.send .reset with resetSent := true }
  s.forget

def sendDatagram (s : MuxStream) (data : Bytes) (buffered : Nat) : MuxStream :=
  if s.finished || decide (MAX_DATAGRAM < data.length) then s
  else if WS_HIGH_WATER < buffered then s
  else s.send (.datagram data)

def onData (s : MuxStream) (payload : Bytes) : MuxStream :=
  if s.closeReceived || s.finished then s
  else { s with
    pendingUpdate := s.pendingUpdate + payload.length
    readable := s.readable ++ [payload]
    pushed := true }

def onClose (s : MuxStream) : MuxStream :=
  if s.closeReceived then s else { s with closeReceived := true }.maybeFinish

def onReset (s : MuxStream) : MuxStream := { s with resetReceived := true }.destroy

def onWindowUpdate (s : MuxStream) (amount : Nat) : MuxStream :=
  { s with sendWindow := s.sendWindow + amount, stack := .flushWrites :: s.stack }

/-- `_onFrame`, for a frame that carries this stream's id. -/
def onFrame (s : MuxStream) (frame : Frame) : MuxStream :=
  if !s.known then s else
  match frame with
  | .data payload => s.onData payload
  | .close => s.onClose
  | .reset => s.onReset
  | .datagram _ => s
  | .windowUpdate amount => s.onWindowUpdate amount

/-- A tick of the drain timer. -/
def drain (s : MuxStream) (buffered : Nat) : MuxStream :=
  if !s.waitingForDrain then { s with drainTimer := false }
  else if WS_HIGH_WATER < buffered then s
  else { s with waitingForDrain := false, stack := .flushWrites :: .drain :: s.stack }

/-- The rest of `_drain`, after the streams have been flushed. -/
def drainEnd (s : MuxStream) : MuxStream :=
  { s with drainTimer := s.drainTimer && s.waitingForDrain, stack := s.stack.tail }

/-- `_onSocketClose`: every stream the session still knows is destroyed. -/
def onSocketClose (s : MuxStream) : MuxStream :=
  if s.closed then s else
  let s := { s with closed := true, drainTimer := false }
  if s.known then { s with resetReceived := true }.destroy else s

/-- The application takes `n` bytes of the chunk at the head of the read buffer. -/
def consume (s : MuxStream) (n : Nat) : MuxStream :=
  match s.readable with
  | [] => s
  | chunk :: rest =>
    { s with
      consumed := s.consumed ++ chunk.take n
      readable := if n < chunk.length then chunk.drop n :: rest else rest }

end MuxStream

inductive ServerEvent where
  | write (chunk : Bytes)
  | final
  | destroy
  | turn (buffered : Nat)
  | return
  | drain (buffered : Nat)
  | read
  | consume (n : Nat)
  | emitEnd
  | datagram (data : Bytes) (buffered : Nat)
  | sessionClose
  | socketClose
deriving DecidableEq

/-- The application runs: no call is under way, or a callback is. -/
def MuxStream.idle (s : MuxStream) : Bool := s.stack.head?.all (· == .callback)

/-- What happens at the server without a frame arriving. Node calls neither `_write`
nor `_final` after `_final`, and none of its hooks on a destroyed stream. -/
def MuxStream.step (s : MuxStream) : ServerEvent → Option MuxStream
  | .write chunk => if s.idle && !s.ending && !s.destroyed then some (s.write chunk) else none
  | .final => if s.idle && !s.ending && !s.destroyed then some s.final else none
  | .destroy => if s.idle then some s.destroy else none
  | .turn buffered =>
    match s.stack with
    | .flushWrites :: _ => some (s.flushWrites buffered)
    | .drain :: _ => some s.drainEnd
    | _ => none
  | .return =>
    match s.stack with
    | .callback :: rest => some { s with stack := rest }
    | _ => none
  | .drain buffered => if s.stack = [] && s.drainTimer then some (s.drain buffered) else none
  | .read => if s.idle && !s.destroyed then some s.read else none
  | .consume n => if s.idle && !s.destroyed then some (s.consume n) else none
  | .emitEnd =>
    if s.idle && !s.destroyed && s.closeReceived && s.readable = [] then
      some { s with endEmitted := true }
    else none
  | .datagram data buffered => if s.idle then some (s.sendDatagram data buffered) else none
  | .sessionClose => if s.idle then some { s with wsOpen := false } else none
  | .socketClose => if s.stack = [] then some s.onSocketClose else none

/-- What a step of the server's end can be. -/
inductive ServerStep (s : MuxStream) : ServerEvent → MuxStream → Prop
  | write (chunk : Bytes) (hi : s.idle = true) (he : s.ending = false) (hd : s.destroyed = false) :
      ServerStep s (.write chunk) (s.write chunk)
  | final (hi : s.idle = true) (he : s.ending = false) (hd : s.destroyed = false) :
      ServerStep s .final s.final
  | destroy (hi : s.idle = true) : ServerStep s .destroy s.destroy
  | flush (buffered : Nat) (rest : List Call) (h : s.stack = .flushWrites :: rest) :
      ServerStep s (.turn buffered) (s.flushWrites buffered)
  | drainEnd (buffered : Nat) (rest : List Call) (h : s.stack = .drain :: rest) :
      ServerStep s (.turn buffered) s.drainEnd
  | return (rest : List Call) (h : s.stack = .callback :: rest) :
      ServerStep s .return { s with stack := rest }
  | drain (buffered : Nat) (hs : s.stack = []) (ht : s.drainTimer = true) :
      ServerStep s (.drain buffered) (s.drain buffered)
  | read (hi : s.idle = true) (hd : s.destroyed = false) : ServerStep s .read s.read
  | consume (n : Nat) (hi : s.idle = true) (hd : s.destroyed = false) :
      ServerStep s (.consume n) (s.consume n)
  | emitEnd (hi : s.idle = true) (hd : s.destroyed = false) (hc : s.closeReceived = true)
      (hr : s.readable = []) : ServerStep s .emitEnd { s with endEmitted := true }
  | datagram (data : Bytes) (buffered : Nat) (hi : s.idle = true) :
      ServerStep s (.datagram data buffered) (s.sendDatagram data buffered)
  | sessionClose (hi : s.idle = true) : ServerStep s .sessionClose { s with wsOpen := false }
  | socketClose (hs : s.stack = []) : ServerStep s .socketClose s.onSocketClose

theorem serverStep_of_step {s t : MuxStream} {e : ServerEvent} (h : s.step e = some t) :
    ServerStep s e t := by
  cases e with
  | turn buffered =>
    simp only [MuxStream.step] at h
    split at h
    · rename_i rest hs
      cases h
      exact .flush buffered rest hs
    · rename_i rest hs
      cases h
      exact .drainEnd buffered rest hs
    · cases h
  | «return» =>
    simp only [MuxStream.step] at h
    split at h
    · rename_i rest hs
      cases h
      exact .return rest hs
    · cases h
  | _ =>
    simp only [MuxStream.step, Option.ite_none_right_eq_some, Bool.and_eq_true, Bool.not_eq_true',
      decide_eq_true_eq, Option.some.injEq] at h
    obtain ⟨hg, rfl⟩ := h
    constructor <;> simp only [hg]

theorem sendClose_writeQueue (s : MuxStream) : s.sendClose.writeQueue = s.writeQueue := by
  simp only [MuxStream.sendClose, MuxStream.maybeFinish, MuxStream.send, MuxStream.forget]
  grind

/-- The loop of `_write` cuts the chunk as `chunks` does. -/
theorem piecesFrom_eq (chunk : Bytes) (offset : Nat) :
    MuxStream.piecesFrom chunk offset = chunks CHUNK_SIZE (chunk.drop offset) := by
  induction offset using MuxStream.piecesFrom.induct chunk with
  | case1 offset h ih =>
    have hne : chunk.drop offset ≠ [] := by simp; omega
    rw [MuxStream.piecesFrom, if_pos h, ih, chunks_cons (by decide) hne, List.drop_drop]
  | case2 offset h =>
    rw [MuxStream.piecesFrom, if_neg h, List.drop_of_length_le (by omega), chunks_nil]

theorem piecesFrom_flatten (chunk : Bytes) : (MuxStream.piecesFrom chunk 0).flatten = chunk := by
  rw [piecesFrom_eq, flatten_chunks (by decide), List.drop_zero]

theorem mem_piecesFrom {chunk piece : Bytes} (h : piece ∈ MuxStream.piecesFrom chunk 0) :
    piece ≠ [] ∧ piece.length ≤ CHUNK_SIZE := by
  rw [piecesFrom_eq] at h
  exact mem_chunks (by decide) h

end Tunlit.Mux.Server
