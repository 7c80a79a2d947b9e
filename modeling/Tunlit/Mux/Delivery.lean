import Tunlit.Mux.Simulation

/-! # What the readers get

In both directions the bytes handed to the reader are a prefix of the bytes accepted
from the writer, whatever the chunks, the waits, the drain ticks and the calls made from
callbacks, and a reset cuts the stream short at most. The end of the stream is reported
behind the last byte, and no byte behind it. -/
namespace Tunlit.Mux.Delivery
open Tunlit.Mux.Frames Tunlit.Mux.Server Tunlit.Mux.Cli Tunlit.Mux.System Tunlit.Mux.Ends
open Tunlit.Mux.Simulation Tunlit.Lib.CreditPipe Tunlit.Lib.Chunks Tunlit.Lib.Runs

/-- What `push` has handed to Node's stream, less what a `destroy` took back. -/
def pushed (s : MuxStream) : Bytes := s.consumed ++ s.readable.flatten

theorem bytes_inbox (s : MuxStream) : bytes (inbox s) = s.readable.flatten := by
  have hmap : bytes (s.readable.map Item.data) = s.readable.flatten := by
    induction s.readable with
    | nil => rfl
    | cons chunk rest ih => simp [ih]
  rw [inbox, bytes_append, hmap]
  split <;> simp [Item.bytes]

/-! ## The bytes -/

theorem received_initial {l : Link} (h : Reachable l) : l.cli.received <+: l.server.written := by
  obtain ⟨k, hi, -⟩ := (linkInv h).down
  exact hi.delivered_initial

theorem pushed_initial {l : Link} (h : Reachable l) : pushed l.server <+: l.cli.written := by
  obtain ⟨k, hi, -⟩ := (linkInv h).up
  refine List.IsPrefix.trans ⟨bytes (up l k).wire, ?_⟩ hi.visible_initial
  simp [Pipe.visible, up, pushed, bytes_inbox]

/-! ## The end -/

/-- When `recv` has returned Close, everything accepted before `end` was received. -/
theorem received_all {l : Link} (h : Reachable l) (hc : l.cli.sawClose = true) :
    l.cli.received = l.server.written ∧ l.server.ending = true := by
  obtain ⟨k, hi, -⟩ := (linkInv h).down
  exact ⟨hi.delivered_all hc, (hi.fin (.inr hc)).1⟩

/-- When `push(null)` has been called, everything accepted before `close` was pushed. -/
theorem pushed_all {l : Link} (h : Reachable l) (hc : l.server.closeReceived = true)
    (hd : l.server.destroyed = false) :
    pushed l.server = l.cli.written ∧ l.cli.closing = true := by
  obtain ⟨k, hi, -⟩ := (linkInv h).up
  have hover := up_over hi hc hd
  have hfin : Item.fin ∈ (up l k).inbox ++ (up l k).wire ∨ (up l k).ended = true := by
    cases he : l.server.endEmitted with
    | true => exact .inr he
    | false => exact .inl (by simp [up, inbox, hc, he, hd])
  obtain ⟨hcl, hall, -⟩ := hi.fin hfin
  refine ⟨?_, hcl⟩
  rw [Pipe.visible, hover, List.append_nil] at hall
  simpa [up, pushed, bytes_inbox] using hall.symm

/-- When `end` was emitted, the application has read everything. -/
theorem consumed_all {l : Link} (h : Reachable l) (he : l.server.endEmitted = true) :
    l.server.consumed = l.cli.written := by
  obtain ⟨k, hi, -⟩ := (linkInv h).up
  exact hi.delivered_all he

/-! ## Behind the end -/

theorem received_step {l l' : Link} {e : Event} (h : Reachable l) (hc : l.cli.sawClose = true)
    (hst : l.step e = some l') : l'.cli.received = l.cli.received ∧ l'.cli.sawClose = true := by
  have hI := linkInv h
  obtain ⟨k, hi, -⟩ := hI.down
  obtain ⟨k', hs, -⟩ := down_step hI.ends hi hst
  exact hi.steps_ended hc hs

theorem pushed_consume (s : MuxStream) (n : Nat) : pushed (s.consume n) = pushed s := by
  unfold MuxStream.consume pushed
  split
  · rfl
  · rename_i chunk rest hr
    split
    · simp only [hr, List.flatten_cons, List.append_assoc]
      rw [← List.append_assoc (List.take n chunk), List.take_append_drop]
    · rename_i hn
      simp [hr, List.take_of_length_le (Nat.not_lt.mp hn)]

/-- Only an arriving DATA frame pushes. -/
theorem pushed_serverStep {s t : MuxStream} {e : ServerEvent} (h : s.step e = some t) :
    pushed t <+: pushed s := by
  cases serverStep_of_step h with
  | consume n => exact pushed_consume s n ▸ List.prefix_rfl
  | _ =>
    unfold pushed
    simp only [MuxStream.write, MuxStream.final, MuxStream.flushWrites, MuxStream.sendClose,
      MuxStream.drain, MuxStream.drainEnd, MuxStream.read, MuxStream.sendDatagram,
      MuxStream.onSocketClose, MuxStream.wantDrain, MuxStream.destroy, MuxStream.maybeFinish,
      MuxStream.send, MuxStream.forget]
    grind

theorem pushed_onFrame {s : MuxStream} (hc : s.closeReceived = true) (f : Frame) :
    pushed (s.onFrame f) <+: pushed s ∧ (s.onFrame f).closeReceived = true := by
  unfold pushed
  simp only [MuxStream.onFrame, MuxStream.onData, MuxStream.onClose, MuxStream.onReset,
    MuxStream.onWindowUpdate, MuxStream.destroy, MuxStream.maybeFinish, MuxStream.send,
    MuxStream.forget]
  grind

theorem pushed_step {l l' : Link} {e : Event} (hc : l.server.closeReceived = true)
    (hst : l.step e = some l') :
    pushed l'.server <+: pushed l.server ∧ l'.server.closeReceived = true := by
  rcases step_cases hst with ⟨s, ⟨a, hs⟩, rfl⟩ | ⟨c, -, rfl⟩ | ⟨f, rest, -, rfl⟩ |
    ⟨f, rest, -, rfl⟩
  · exact ⟨pushed_serverStep hs, (closeReceived_step hs).trans hc⟩
  · exact ⟨List.prefix_rfl, hc⟩
  · exact pushed_onFrame hc f
  · exact ⟨List.prefix_rfl, hc⟩

theorem received_run {es : List Event} {l l' : Link} (h : Reachable l)
    (hc : l.cli.sawClose = true) (he : machine.exec l es = some l') :
    l'.cli.received = l.cli.received := by
  induction es generalizing l with
  | nil => cases he; rfl
  | cons e es ih =>
    simp only [Machine.exec, Option.bind_eq_some_iff] at he
    obtain ⟨m, hm, he⟩ := he
    obtain ⟨hr, hc'⟩ := received_step h hc hm
    exact (ih (h.step hm) hc' he).trans hr

theorem pushed_run {es : List Event} {l l' : Link} (hc : l.server.closeReceived = true)
    (he : machine.exec l es = some l') : pushed l'.server <+: pushed l.server := by
  induction es generalizing l with
  | nil => cases he; exact List.prefix_rfl
  | cons e es ih =>
    simp only [Machine.exec, Option.bind_eq_some_iff] at he
    obtain ⟨m, hm, he⟩ := he
    obtain ⟨hp, hc'⟩ := pushed_step hc hm
    exact (ih hc' he).trans hp

/-- A stream delivers in order, without loss or duplication, and to the end. -/
theorem stream_delivers {l : Link} (h : Reachable l) :
    (l.cli.received <+: l.server.written ∧
      l.server.consumed <+: l.cli.written ∧ pushed l.server <+: l.cli.written) ∧
    (l.cli.sawClose = true → l.cli.received = l.server.written ∧ l.server.ending = true) ∧
    (l.server.closeReceived = true → l.server.destroyed = false →
      pushed l.server = l.cli.written ∧ l.cli.closing = true) ∧
    (l.server.endEmitted = true → l.server.consumed = l.cli.written) ∧
    ∀ es l', machine.exec l es = some l' →
      (l.cli.sawClose = true → l'.cli.received = l.cli.received) ∧
      (l.server.closeReceived = true → pushed l'.server <+: pushed l.server) :=
  ⟨⟨received_initial h, (List.prefix_append _ _).trans (pushed_initial h), pushed_initial h⟩,
    received_all h, pushed_all h, consumed_all h,
    fun _ _ he => ⟨fun hc => received_run h hc he, fun hc => pushed_run hc he⟩⟩

/-- Both sides have written, closed and read to the end. -/
def readOut : Link where
  server := { closeSent := true, closeReceived := true, finished := true, known := false
              ending := true, written := [1, 2, 3], consumed := [7], writes := 1, called := [1]
              pushed := true, endEmitted := true, sendWindow := WINDOW_SIZE - 3, pendingUpdate := 1 }
  cli := { available := WINDOW - 1, closeSent := true, closeReceived := true, unacked := 3
           written := [7], received := [1, 2, 3], closing := true, sawClose := true }

theorem readOut_reachable : Reachable readOut := by
  have hp : MuxStream.piecesFrom [1, 2, 3] 0 = [[1, 2, 3]] := by
    rw [piecesFrom_eq, List.drop_zero, chunks_of_le (by decide) (by decide)]
  have hc : chunks CHUNK [(7 : UInt8)] = [[7]] := chunks_of_le (by decide) (by decide)
  have h := Machine.Reachable.init (M := machine) rfl
  have h := h.step (e := .server (.write [1, 2, 3])) (t := ⟨{
      writeQueue := [⟨[[1, 2, 3]], 0, 1⟩], stack := [.flushWrites], written := [1, 2, 3]
      writes := 1 }, {}⟩)
    (by simp [machine, Link.step, MuxStream.step, MuxStream.idle, MuxStream.write, hp])
  have h := h.exec (t := ⟨{
      sendWindow := WINDOW_SIZE - 3, closeSent := true, ending := true, written := [1, 2, 3]
      writes := 1, called := [1], wire := [.data [1, 2, 3], .close] }, {}⟩)
    [.server (.turn 0), .server (.turn 0), .server .return, .server (.turn 0),
      .server .final, .server (.turn 0), .server .return] (by decide)
  have h := h.step (e := .cli (.send [7])) (t := ⟨{
      sendWindow := WINDOW_SIZE - 3, closeSent := true, ending := true, written := [1, 2, 3]
      writes := 1, called := [1], wire := [.data [1, 2, 3], .close] },
      { writer := .taking [7] [], written := [7] }⟩)
    (by simp [machine, Link.step, CliStream.step, CliStream.send, hc, nextChunk])
  exact h.exec [.cli .take, .cli .outSend, .cli .close, .cli .outSend, .toServer, .toServer,
    .server (.consume 1), .server .emitEnd, .toCli, .toCli, .cli .recv, .cli .received, .cli .recv,
    .cli .received] (by decide)

theorem stream_delivers_readOut :
    readOut.cli.received = readOut.server.written ∧
      readOut.server.consumed = readOut.cli.written := by
  obtain ⟨-, hd, -, hu, -⟩ := stream_delivers readOut_reachable
  exact ⟨(hd rfl).1, hu rfl⟩

end Tunlit.Mux.Delivery
