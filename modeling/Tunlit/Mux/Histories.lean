import Tunlit.Mux.FlowControl

/-! # What one end has sent

The server's end of a stream with any peer: between its own events any frame may arrive. A
log keeps, in their order, the chunks that were accepted, the frames that were sent and those
that were received. -/
namespace Tunlit.Mux.Histories
open Tunlit.Mux.Frames Tunlit.Mux.Server Tunlit.Mux.Ends Tunlit.Mux.Simulation
  Tunlit.Mux.FlowControl Tunlit.Lib.Runs Tunlit.Lib.Chunks

inductive Entry where
  | accepted (chunk : Bytes)
  | sent (frame : Frame)
  | received (frame : Frame)
deriving DecidableEq

structure History where
  stream : MuxStream := {}
  log : List Entry := []
deriving DecidableEq

inductive Event where
  | own (e : ServerEvent)
  | frame (frame : Frame)
deriving DecidableEq

/-- What an event brings to the stream. -/
def input : Event → List Entry
  | .own (.write chunk) => [.accepted chunk]
  | .own _ => []
  | .frame frame => [.received frame]

/-- Frames are taken when no call is under way and the socket has not closed. -/
def act (s : MuxStream) : Event → Option MuxStream
  | .own e => s.step e
  | .frame frame => if s.stack = [] && !s.closed then some (s.onFrame frame) else none

def step (h : History) (e : Event) : Option History :=
  (act h.stream e).map fun t =>
    ⟨t, h.log ++ input e ++ (t.wire.drop h.stream.wire.length).map .sent⟩

def machine : Machine History Event where
  init h := h = {}
  step := step

abbrev Reachable : History → Prop := machine.Reachable

/-! ## What a log is to be -/

def Entry.frameSent : Entry → Option Frame
  | .sent frame => some frame
  | _ => none

def Entry.chunk : Entry → Bytes
  | .accepted chunk => chunk
  | _ => []

def sentOf (log : List Entry) : List Frame := log.filterMap Entry.frameSent

def acceptedOf (log : List Entry) : Bytes := log.flatMap Entry.chunk

/-- What stands before a frame that is sent. -/
def Follows (before : List Entry) : Frame → Prop
  | .data piece => 1 ≤ piece.length ∧ piece.length ≤ CHUNK_SIZE ∧
      payload (sentOf before) ++ piece <+: acceptedOf before
  | .close => .sent .close ∉ before ∧ payload (sentOf before) = acceptedOf before
  | .reset => .received .reset ∉ before ∧ ¬ (.sent .close ∈ before ∧ .received .close ∈ before)
  | .windowUpdate _ => True
  | .datagram _ => True

/-- Nothing is sent behind a RESET, and every frame where it may be. -/
def Proper (before : List Entry) (entry : Entry) : Prop :=
  ∀ frame, entry = .sent frame → .sent .reset ∉ before ∧ Follows before frame

structure Orderly (h : History) : Prop where
  proper : Explained Proper h.log
  bytes : payload (sentOf h.log) <+: acceptedOf h.log
  once : h.stream.called.Nodup
  written : ∀ n ∈ h.stream.called, 1 ≤ n ∧ n ≤ h.stream.writes
  done : h.stream.destroyed = true ∨ h.stream.closeSent = true ∧ h.stream.closeReceived = true →
    ∀ n, 1 ≤ n → n ≤ h.stream.writes → n ∈ h.stream.called

variable {s t : MuxStream}

/-! ## The books of the stream -/

/-- The callbacks that are called or still to be called, and the bytes that are sent or queued. -/
structure Books (s : MuxStream) : Prop where
  calls : (s.called ++ s.writeQueue.map (·.callback)).Perm (List.range' 1 s.writes)
  bytes : payload s.wire <+: s.written
  whole : s.sending = true → s.finished = false → payload s.wire ++ queued s.writeQueue = s.written
  close : .close ∈ s.wire → s.closeSent = true
  reset : .reset ∈ s.wire → s.finished = true

theorem books_init : Books {} := by
  constructor <;> simp

theorem mem_send {frame other : Frame} (h : other ∈ (s.send frame).wire) :
    other ∈ s.wire ∨ other = frame := by
  unfold MuxStream.send at h
  rcases List.mem_append.mp h with h | h
  · exact .inl h
  · split at h
    · exact .inr (List.mem_singleton.mp h)
    · cases h

namespace Books

/-- A frame without bytes. -/
theorem send (h : Books s) {frame : Frame} (hf : payload [frame] = [])
    (hclose : frame = .close → s.closeSent = true) (hreset : frame = .reset → s.finished = true) :
    Books (s.send frame) := by
  have hpayload : payload (s.send frame).wire = payload s.wire := by
    unfold MuxStream.send
    dsimp only
    split
    · rw [payload_append, hf, List.append_nil]
    · rw [List.append_nil]
  refine { h with bytes := hpayload ▸ h.bytes, whole := ?_, close := ?_, reset := ?_ }
  · intro hs hfin
    rw [hpayload]
    exact h.whole hs hfin
  · intro hm
    rcases mem_send hm with hm | rfl
    · exact h.close hm
    · exact hclose rfl
  · intro hm
    rcases mem_send hm with hm | rfl
    · exact h.reset hm
    · exact hreset rfl

theorem maybeFinish (h : Books s) : Books s.maybeFinish := by
  unfold MuxStream.maybeFinish
  split
  · exact { h with whole := fun _ hf => (by cases hf), reset := fun _ => rfl }
  · exact h

theorem sendClose (h : Books s) : Books s.sendClose := by
  unfold MuxStream.sendClose
  split
  · exact h
  · have hs : Books { s with closeSent := true } := { h with close := fun _ => rfl }
    exact (hs.send rfl (fun _ => rfl) fun he => by cases he).maybeFinish

theorem write (h : Books s) (chunk : Bytes) : Books (s.write chunk) := by
  have hrange : List.range' 1 (s.writes + 1) = List.range' 1 s.writes ++ [s.writes + 1] := by
    rw [List.range'_1_concat, Nat.add_comm]
  have hbytes : payload s.wire <+: s.written ++ chunk := h.bytes.trans (List.prefix_append _ _)
  have hcalls := h.calls.append_right [s.writes + 1]
  unfold MuxStream.write
  dsimp only
  split
  · next hf =>
    refine { h with calls := ?_, bytes := hbytes, whole := fun _ hf' => ?_ }
    · rw [hrange]
      refine List.Perm.trans ?_ hcalls
      simp only [List.append_assoc]
      exact List.perm_append_comm.append_left _
    · exact absurd (hf.symm.trans hf') (by decide)
  · refine { h with calls := ?_, bytes := hbytes, whole := fun hs hf => ?_ }
    · rw [hrange]
      simpa only [List.map_append, List.map_cons, List.map_nil, List.append_assoc] using hcalls
    · have hwhole := h.whole hs hf
      have hpieces : (⟨MuxStream.piecesFrom chunk 0, 0, s.writes + 1⟩ : WriteItem).remaining = chunk := by
        rw [WriteItem.remaining, List.drop_zero, piecesFrom_flatten]
      rw [queued_append, queued_cons, queued_nil, List.append_nil, hpieces, ← List.append_assoc,
        hwhole]

theorem flushWrites (h : Books s) (buffered : Nat) : Books (s.flushWrites buffered) := by
  have hcalls := h.calls
  unfold MuxStream.flushWrites
  split
  · next item rest hq hf =>
    rw [hq] at hcalls
    have hqueued : s.sending = true → payload s.wire ++ (item.remaining ++ queued rest) = s.written := by
      intro hs
      have hwhole := h.whole hs hf
      rwa [hq, queued_cons] at hwhole
    split
    -- a piece is sent
    · next piece hp =>
      split
      · exact { h with }
      · rw [remaining_some hp] at hqueued
        simp only [List.append_assoc] at hqueued
        have hpayload : payload (s.wire ++ if s.sending then [.data piece] else []) =
            payload s.wire ++ if s.sending then piece else [] := by
          rw [payload_append]
          split <;> simp
        refine { h with calls := hcalls, bytes := ?_, whole := fun hs _ => ?_, close := ?_, reset := ?_ }
        · refine hpayload ▸ ?_
          split
          · next hs => exact ⟨_, (List.append_assoc ..).trans (hqueued hs)⟩
          · rw [List.append_nil]
            exact h.bytes
        · have hsending : s.sending = true := hs
          rw [queued_cons]
          refine (congrArg (· ++ _) hpayload).trans ?_
          rw [if_pos hsending]
          exact (List.append_assoc ..).trans (hqueued hsending)
        · intro hm
          rcases mem_send hm with hm | hm
          · exact h.close hm
          · cases hm
        · intro hm
          rcases mem_send hm with hm | hm
          · exact h.reset hm
          · cases hm
    -- an item is done
    · next hp =>
      rw [remaining_none hp] at hqueued
      refine { h with calls := ?_, whole := fun hs _ => hqueued hs }
      simpa only [List.map_cons, List.append_assoc, List.singleton_append] using hcalls
  · split
    · have hs : Books { s with finalCallback := false, stack := .callback :: s.stack.tail } := { h with }
      exact hs.sendClose
    · exact { h with }

theorem destroy (h : Books s) : Books s.destroy := by
  have hcalls : (s.called ++ s.writeQueue.map WriteItem.callback ++ []).Perm (List.range' 1 s.writes) := by
    rw [List.append_nil]
    exact h.calls
  unfold MuxStream.destroy
  split
  · exact h
  · dsimp only
    split
    · next hf =>
      exact { h with calls := hcalls, whole := fun _ hf' => absurd (hf.symm.trans hf') (by decide) }
    · have hs : Books { s with
          destroyed := true
          called := s.called ++ s.writeQueue.map WriteItem.callback
          writeQueue := []
          readable := []
          finished := true } :=
        { h with calls := hcalls, whole := fun _ hf => (by cases hf), reset := fun _ => rfl }
      split
      · exact { hs with }
      · exact { hs.send rfl (fun he => by cases he) fun _ => rfl with }

theorem read (h : Books s) : Books s.read := by
  unfold MuxStream.read
  dsimp only
  split
  · have hs : Books { s with pushed := false, pendingUpdate := 0 } := { h with }
    exact hs.send rfl (fun he => by cases he) fun he => by cases he
  · exact { h with }

theorem sendDatagram (h : Books s) (data : Bytes) (buffered : Nat) :
    Books (s.sendDatagram data buffered) := by
  unfold MuxStream.sendDatagram
  split
  · exact h
  split
  · exact h
  · exact h.send rfl (fun he => by cases he) fun he => by cases he

theorem onFrame (h : Books s) (frame : Frame) : Books (s.onFrame frame) := by
  unfold MuxStream.onFrame
  split
  · exact h
  · cases frame with
    | data bytes =>
      simp only [MuxStream.onData]
      split
      · exact h
      · exact { h with }
    | close =>
      simp only [MuxStream.onClose]
      split
      · exact h
      · have hs : Books { s with closeReceived := true } := { h with }
        exact hs.maybeFinish
    | reset =>
      have hs : Books { s with resetReceived := true } := { h with }
      exact hs.destroy
    | datagram _ => exact h
    | windowUpdate amount => exact { h with }

theorem onSocketClose (h : Books s) : Books s.onSocketClose := by
  unfold MuxStream.onSocketClose
  split
  · exact h
  · dsimp only
    split
    · have hs : Books { s with closed := true, drainTimer := false, resetReceived := true } :=
        { h with whole := fun hs _ => (by cases hs) }
      exact hs.destroy
    · exact { h with whole := fun hs _ => (by cases hs) }

theorem step (h : Books s) {e : ServerEvent} (hst : s.step e = some t) : Books t := by
  cases serverStep_of_step hst with
  | write chunk => exact h.write chunk
  | final =>
    unfold MuxStream.final
    dsimp only
    split <;> exact { h with }
  | destroy => exact h.destroy
  | flush buffered rest _ => exact h.flushWrites buffered
  | drainEnd _ _ _ => exact { h with }
  | «return» rest _ => exact { h with }
  | drain buffered =>
    unfold MuxStream.drain
    split
    · exact { h with }
    split
    · exact h
    · exact { h with }
  | read => exact h.read
  | consume n =>
    unfold MuxStream.consume
    split
    · exact h
    · exact { h with }
  | emitEnd => exact { h with }
  | datagram data buffered => exact h.sendDatagram data buffered
  | sessionClose =>
    refine { h with whole := fun hs _ => ?_ }
    simp [MuxStream.sending] at hs
  | socketClose => exact h.onSocketClose

end Books

/-! ## What a step sends -/

/-- The stream is finished once both sides have closed. -/
def Finishes (s : MuxStream) : Prop :=
  s.closeSent = true → s.closeReceived = true → s.finished = true

theorem finishes_step {e : ServerEvent} (h : Finishes s) (hst : s.step e = some t) :
    Finishes t := by
  cases serverStep_of_step hst with
  | _ =>
    unfold Finishes at *
    simp only [MuxStream.write, MuxStream.final, MuxStream.drain, MuxStream.drainEnd,
      MuxStream.read, MuxStream.consume, MuxStream.sendDatagram, MuxStream.send,
      MuxStream.onSocketClose, MuxStream.destroy, MuxStream.forget, MuxStream.flushWrites,
      MuxStream.sendClose, MuxStream.maybeFinish, MuxStream.wantDrain] at *
    grind

theorem finishes_onFrame (h : Finishes s) (frame : Frame) : Finishes (s.onFrame frame) := by
  unfold Finishes at *
  simp only [MuxStream.onFrame, MuxStream.onData, MuxStream.onClose, MuxStream.onReset,
    MuxStream.onWindowUpdate, MuxStream.destroy, MuxStream.maybeFinish, MuxStream.send,
    MuxStream.forget]
  grind

/-- A step sends one frame at most, and why. -/
inductive Sends (s : MuxStream) : List Frame → Prop
  | nothing : Sends s []
  | data {item : WriteItem} {rest : List WriteItem} {piece : Bytes} (hs : s.sending = true)
      (hf : s.finished = false) (hq : s.writeQueue = item :: rest)
      (hp : item.pieces[item.index]? = some piece) : Sends s [.data piece]
  | close (hs : s.sending = true) (hf : s.finished = false) (hq : s.writeQueue = [])
      (hc : s.closeSent = false) : Sends s [.close]
  | reset (hf : s.finished = false) (hr : s.resetReceived = false)
      (hb : ¬ (s.closeSent = true ∧ s.closeReceived = true)) : Sends s [.reset]
  | windowUpdate (n : Nat) (hf : s.finished = false) : Sends s [.windowUpdate n]
  | datagram (data : Bytes) (hf : s.finished = false) : Sends s [.datagram data]

/-- A step and what it sends. -/
def SendsTo (s t : MuxStream) : Prop := ∃ frames, t.wire = s.wire ++ frames ∧ Sends s frames

theorem sendsTo_nothing (h : t.wire = s.wire) : SendsTo s t :=
  ⟨[], by rw [h, List.append_nil], .nothing⟩

theorem sendsTo_send {u : MuxStream} {frame : Frame} (hw : u.wire = s.wire)
    (ht : t.wire = (u.send frame).wire) (hs : u.sending = true → Sends s [frame]) : SendsTo s t := by
  cases hsending : u.sending with
  | true =>
    refine ⟨[frame], ?_, hs hsending⟩
    rw [ht, MuxStream.send, hsending, hw]
    rfl
  | false =>
    refine sendsTo_nothing ?_
    rw [ht, MuxStream.send, hsending, hw]
    exact List.append_nil _

theorem sendsTo_sendClose {u : MuxStream} (hw : u.wire = s.wire) (hf : u.finished = s.finished)
    (hs : u.sending = s.sending) (hc : u.closeSent = s.closeSent) (hq : s.writeQueue = []) :
    SendsTo s u.sendClose := by
  have hfinish : ∀ v : MuxStream, v.maybeFinish.wire = v.wire := by
    intro v
    unfold MuxStream.maybeFinish
    split <;> rfl
  unfold MuxStream.sendClose
  split
  · exact sendsTo_nothing hw
  · next hn =>
    simp only [Bool.or_eq_true, not_or, Bool.not_eq_true] at hn
    have hu : ({ u with closeSent := true } : MuxStream).wire = s.wire := hw
    refine sendsTo_send hu (hfinish _) fun hsending => ?_
    exact .close (hs.symm.trans hsending) (hf.symm.trans hn.2) hq (hc.symm.trans hn.1)

theorem sendsTo_flushWrites (buffered : Nat) :
    SendsTo s (s.flushWrites buffered) := by
  unfold MuxStream.flushWrites
  split
  · next item rest hq hf =>
    split
    · next piece hp =>
      split
      · exact sendsTo_nothing rfl
      · have hu : ({ s with sendWindow := s.sendWindow - piece.length } : MuxStream).wire = s.wire :=
          rfl
        exact sendsTo_send hu rfl fun hs => .data hs hf hq hp
    · exact sendsTo_nothing rfl
  · next hnot =>
    split
    · next hc =>
      simp only [Bool.and_eq_true, decide_eq_true_eq] at hc
      exact sendsTo_sendClose rfl rfl rfl rfl hc.1
    · exact sendsTo_nothing rfl

theorem sendsTo_destroy : SendsTo s s.destroy := by
  unfold MuxStream.destroy
  split
  · exact sendsTo_nothing rfl
  · dsimp only
    split
    · exact sendsTo_nothing rfl
    · next hf =>
      split
      · exact sendsTo_nothing rfl
      · next hn =>
        simp only [Bool.or_eq_true, Bool.and_eq_true, not_or, Bool.not_eq_true] at hn hf
        exact sendsTo_send (by rfl) (by rfl) fun _ => .reset hf hn.1 hn.2

/-- A stream that has been reset sends no RESET. -/
theorem wire_destroy (h : s.resetReceived = true) : s.destroy.wire = s.wire := by
  unfold MuxStream.destroy
  split
  · rfl
  · dsimp only
    split
    · rfl
    · rw [if_pos (by rw [h, Bool.true_or])]
      rfl

theorem sendsTo_read : SendsTo s s.read := by
  unfold MuxStream.read
  dsimp only
  split
  · next hc =>
    simp only [Bool.and_eq_true, Bool.not_eq_true'] at hc
    exact sendsTo_send (by rfl) rfl fun _ => .windowUpdate _ hc.1.2
  · exact sendsTo_nothing rfl

theorem sendsTo_step {e : ServerEvent} (hst : s.step e = some t) :
    SendsTo s t := by
  cases serverStep_of_step hst with
  | write chunk =>
    unfold MuxStream.write
    dsimp only
    split <;> exact sendsTo_nothing rfl
  | final =>
    unfold MuxStream.final
    dsimp only
    split <;> exact sendsTo_nothing rfl
  | destroy => exact sendsTo_destroy
  | flush buffered rest _ => exact sendsTo_flushWrites buffered
  | drainEnd _ _ _ => exact sendsTo_nothing rfl
  | «return» rest _ => exact sendsTo_nothing rfl
  | drain buffered =>
    unfold MuxStream.drain
    split
    · exact sendsTo_nothing rfl
    split <;> exact sendsTo_nothing rfl
  | read => exact sendsTo_read
  | consume n =>
    unfold MuxStream.consume
    split <;> exact sendsTo_nothing rfl
  | emitEnd => exact sendsTo_nothing rfl
  | datagram data buffered =>
    unfold MuxStream.sendDatagram
    split
    · exact sendsTo_nothing rfl
    · next hn =>
      simp only [Bool.or_eq_true, not_or, Bool.not_eq_true] at hn
      split
      · exact sendsTo_nothing rfl
      · exact sendsTo_send rfl rfl fun _ => .datagram data hn.1
  | sessionClose => exact sendsTo_nothing rfl
  | socketClose =>
    unfold MuxStream.onSocketClose
    split
    · exact sendsTo_nothing rfl
    · dsimp only
      split
      · exact sendsTo_nothing (wire_destroy rfl)
      · exact sendsTo_nothing rfl

theorem wire_onFrame (frame : Frame) : (s.onFrame frame).wire = s.wire := by
  unfold MuxStream.onFrame
  split
  · rfl
  · cases frame with
    | data bytes =>
      simp only [MuxStream.onData]
      split <;> rfl
    | close =>
      simp only [MuxStream.onClose, MuxStream.maybeFinish]
      split
      · rfl
      · split <;> rfl
    | reset => exact wire_destroy rfl
    | datagram _ => rfl
    | windowUpdate _ => rfl

theorem written_onFrame (frame : Frame) : (s.onFrame frame).written = s.written := by
  simp only [MuxStream.onFrame, MuxStream.onData, MuxStream.onClose, MuxStream.onReset,
    MuxStream.onWindowUpdate, MuxStream.destroy, MuxStream.maybeFinish, MuxStream.send,
    MuxStream.forget]
  grind

theorem finished_reset (hi : ServerInv s) : (s.onFrame .reset).finished = true := by
  unfold MuxStream.onFrame
  split
  · next hk =>
    rw [hi.known, Bool.not_not] at hk
    exact hk
  · simp only [MuxStream.onReset, MuxStream.destroy]
    split
    · next hd => exact hi.destroyed hd
    split
    · assumption
    · split <;> rfl

theorem closed_close (hi : ServerInv s) :
    (s.onFrame .close).closeReceived = true ∨ (s.onFrame .close).finished = true := by
  unfold MuxStream.onFrame
  split
  · next hk =>
    rw [hi.known, Bool.not_not] at hk
    exact .inr hk
  · simp only [MuxStream.onClose, MuxStream.maybeFinish]
    split
    · exact .inl ‹_›
    · split <;> exact .inl rfl

/-! ## Histories -/

theorem sentOf_append (log rest : List Entry) : sentOf (log ++ rest) = sentOf log ++ sentOf rest :=
  List.filterMap_append ..

theorem acceptedOf_append (log rest : List Entry) :
    acceptedOf (log ++ rest) = acceptedOf log ++ acceptedOf rest := List.flatMap_append ..

theorem mem_sentOf {log : List Entry} {frame : Frame} : frame ∈ sentOf log ↔ .sent frame ∈ log := by
  rw [sentOf, List.mem_filterMap]
  constructor
  · rintro ⟨entry, hm, he⟩
    cases entry with
    | sent other =>
      cases he
      exact hm
    | accepted _ | received _ => cases he
  · exact fun hm => ⟨_, hm, rfl⟩

structure Kept (h : History) : Prop where
  inv : ServerInv h.stream
  books : Books h.stream
  finishes : Finishes h.stream
  wire : sentOf h.log = h.stream.wire
  accepted : acceptedOf h.log = h.stream.written
  reset : .received .reset ∈ h.log → h.stream.finished = true
  close : .received .close ∈ h.log → h.stream.closeReceived = true ∨ h.stream.finished = true
  proper : Explained Proper h.log

variable {h h' : History}

/-- What is sent may be. -/
theorem Kept.follows (hk : Kept h) {frame : Frame} (hs : Sends h.stream [frame]) :
    Proper h.log (.sent frame) := by
  have hreset : h.stream.finished = false → Entry.sent .reset ∉ h.log := by
    intro hf hm
    rw [← mem_sentOf, hk.wire] at hm
    exact Bool.false_ne_true (hf.symm.trans (hk.books.reset hm))
  rintro _ ⟨⟩
  cases hs with
  | @data item rest piece hsend hf hq hp =>
    have hmem : item ∈ h.stream.writeQueue := by
      rw [hq]
      exact List.mem_cons_self
    obtain ⟨hne, hle⟩ := hk.inv.pieces item hmem piece (List.mem_of_getElem? hp)
    have hwhole := hk.books.whole hsend hf
    rw [hq, queued_cons, remaining_some hp, List.append_assoc, ← List.append_assoc] at hwhole
    refine ⟨hreset hf, List.length_pos_iff.mpr hne, hle, ?_⟩
    rw [hk.wire, hk.accepted]
    exact ⟨_, hwhole⟩
  | close hsend hf hq hc =>
    refine ⟨hreset hf, ?_, ?_⟩
    · intro hm
      rw [← mem_sentOf, hk.wire] at hm
      exact Bool.false_ne_true (hc.symm.trans (hk.books.close hm))
    · have hwhole := hk.books.whole hsend hf
      rw [hq, queued_nil, List.append_nil] at hwhole
      rw [hk.wire, hk.accepted, hwhole]
  | reset hf _ _ =>
    refine ⟨hreset hf, ?_, ?_⟩
    · exact fun hm => Bool.false_ne_true (hf.symm.trans (hk.reset hm))
    · rintro ⟨hsent, hreceived⟩
      rw [← mem_sentOf, hk.wire] at hsent
      have hfinished : h.stream.finished = true := by
        rcases hk.close hreceived with hc | hf'
        · exact hk.finishes (hk.books.close hsent) hc
        · exact hf'
      exact Bool.false_ne_true (hf.symm.trans hfinished)
  | windowUpdate n hf => exact ⟨hreset hf, trivial⟩
  | datagram bytes hf => exact ⟨hreset hf, trivial⟩

theorem proper_input {before : List Entry} {entry : Entry} (h : ∀ frame, entry ≠ .sent frame) :
    Proper before entry := fun frame he => absurd he (h frame)

theorem written_step {e : ServerEvent} (hst : s.step e = some t) :
    t.written = s.written ++ acceptedOf (input (.own e)) ∧
      (input (.own e) = [] ∨ t.wire = s.wire) := by
  cases serverStep_of_step hst with
  | write chunk =>
    unfold MuxStream.write
    dsimp only
    split <;> exact ⟨by simp [acceptedOf, input, Entry.chunk], .inr rfl⟩
  | _ =>
    refine ⟨?_, .inl rfl⟩
    simp only [acceptedOf, input, List.flatMap_nil, List.append_nil, MuxStream.final,
      MuxStream.flushWrites, MuxStream.sendClose, MuxStream.drain, MuxStream.drainEnd,
      MuxStream.read, MuxStream.consume, MuxStream.sendDatagram, MuxStream.onSocketClose,
      MuxStream.wantDrain, MuxStream.destroy, MuxStream.maybeFinish, MuxStream.send,
      MuxStream.forget] <;> grind

theorem notMem_input {e : ServerEvent} {frame : Frame} : .received frame ∉ input (.own e) := by
  cases e <;> simp [input]

theorem sentOf_input (e : Event) : sentOf (input e) = [] := by
  cases e with
  | frame frame => rfl
  | own e => cases e <;> rfl

theorem explained_input {log : List Entry} (h : Explained Proper log) (e : Event) :
    Explained Proper (log ++ input e) := by
  cases e with
  | frame frame => exact h.concat (proper_input fun _ he => by cases he)
  | own e =>
    cases e with
    | write chunk => exact h.concat (proper_input fun _ he => by cases he)
    | _ => simpa [input] using h

theorem Sends.one {frames : List Frame} (h : Sends s frames) :
    frames = [] ∨ ∃ frame, frames = [frame] := by
  cases h with
  | nothing => exact .inl rfl
  | data _ _ _ _ | close _ _ _ _ | reset _ _ _ | windowUpdate _ _ | datagram _ _ =>
    exact .inr ⟨_, rfl⟩

theorem Kept.own (hk : Kept h) {e : ServerEvent} (hst : h.stream.step e = some t) :
    Kept ⟨t, h.log ++ input (.own e) ++ (t.wire.drop h.stream.wire.length).map .sent⟩ := by
  obtain ⟨frames, hwire, hsends⟩ := sendsTo_step hst
  obtain ⟨hwritten, hinput⟩ := written_step hst
  have hdrop : t.wire.drop h.stream.wire.length = frames := by rw [hwire, List.drop_left]
  have hsent : ∀ frames : List Frame, sentOf (frames.map .sent) = frames := by
    intro frames
    rw [sentOf, List.filterMap_map]
    exact List.filterMap_some
  have haccepted : ∀ frames : List Frame, acceptedOf (frames.map .sent) = [] := by
    intro frames
    rw [acceptedOf, List.flatMap_map]
    exact List.flatMap_eq_nil_iff.mpr fun _ _ => rfl
  have hold : ∀ {frame}, .received frame ∈ h.log ++ input (.own e) ++ frames.map .sent →
      .received frame ∈ h.log := by
    intro frame hm
    simpa [notMem_input] using hm
  have hle := serverLe_step hst
  have hfinished : h.stream.finished = true → t.finished = true := by
    intro hf
    cases hft : t.finished with
    | true => rfl
    | false => exact absurd (hle.finished hft) (by rw [hf]; decide)
  rw [hdrop]
  refine ⟨hk.inv.step hst, hk.books.step hst, finishes_step hk.finishes hst, ?_, ?_, ?_, ?_, ?_⟩
  · rw [sentOf_append, sentOf_append, hk.wire, sentOf_input, hsent, List.append_nil, hwire]
  · rw [acceptedOf_append, acceptedOf_append, hk.accepted, haccepted, List.append_nil, hwritten]
  · exact fun hm => hfinished (hk.reset (hold hm))
  · intro hm
    rw [closeReceived_step hst]
    exact (hk.close (hold hm)).imp_right hfinished
  · rcases hinput with hnone | hsame
    · rw [hnone, List.append_nil]
      rcases hsends.one with rfl | ⟨frame, rfl⟩
      · simpa using hk.proper
      · exact hk.proper.concat (hk.follows hsends)
    · obtain rfl : frames = [] := by
        rw [hwire] at hsame
        exact List.append_right_eq_self.mp hsame
      simpa using explained_input hk.proper (.own e)

theorem Kept.frame (hk : Kept h) (frame : Frame) :
    Kept ⟨h.stream.onFrame frame, h.log ++ [.received frame]⟩ := by
  have hle := serverLe_onFrame h.stream frame
  have hfinished : h.stream.finished = true → (h.stream.onFrame frame).finished = true := by
    intro hf
    cases hft : (h.stream.onFrame frame).finished with
    | true => rfl
    | false => exact absurd (hle.finished hft) (by rw [hf]; decide)
  have hclosed : h.stream.closeReceived = true → (h.stream.onFrame frame).closeReceived = true := by
    simp only [MuxStream.onFrame, MuxStream.onData, MuxStream.onClose, MuxStream.onReset,
      MuxStream.onWindowUpdate, MuxStream.destroy, MuxStream.maybeFinish, MuxStream.send,
      MuxStream.forget]
    grind
  have hmem : ∀ {other}, .received other ∈ h.log ++ [.received frame] →
      .received other ∈ h.log ∨ other = frame := by
    intro other hm
    simpa using hm
  refine ⟨hk.inv.onFrame frame, hk.books.onFrame frame, finishes_onFrame hk.finishes frame, ?_, ?_,
    fun hm => ?_, fun hm => ?_, explained_input hk.proper (.frame frame)⟩
  · rw [sentOf_append, hk.wire, wire_onFrame]
    exact List.append_nil _
  · rw [acceptedOf_append, hk.accepted, written_onFrame]
    exact List.append_nil _
  · rcases hmem hm with hm | rfl
    · exact hfinished (hk.reset hm)
    · exact finished_reset hk.inv
  · rcases hmem hm with hm | rfl
    · exact (hk.close hm).imp hclosed hfinished
    · exact closed_close hk.inv

theorem kept_step (hk : Kept h) {e : Event} (hst : step h e = some h') : Kept h' := by
  obtain ⟨t, ht, rfl⟩ := Option.map_eq_some_iff.mp hst
  cases e with
  | own e => exact hk.own ht
  | frame frame =>
    simp only [act, Option.ite_none_right_eq_some] at ht
    obtain ⟨-, ht⟩ := ht
    cases ht
    have hkept := hk.frame frame
    rw [wire_onFrame, List.drop_length, List.map_nil, List.append_nil]
    exact hkept

theorem kept (hr : Reachable h) : Kept h := by
  refine hr.invariant ?_ fun s t e hk _ hst => kept_step hk hst
  rintro _ rfl
  refine ⟨serverInv_init, books_init, fun hc => ?_, rfl, rfl, ?_, ?_, .nil⟩
  · cases hc
  · exact fun hm => by cases hm
  · exact fun hm => by cases hm

/-- Every callback is called once, the bytes are sent in order and in pieces that fit, and
CLOSE and RESET stand where they may. -/
theorem orderly (hr : Reachable h) : Orderly h := by
  have hk := kept hr
  have hcalls := hk.books.calls
  have hrange : (List.range' 1 h.stream.writes).Nodup := List.nodup_range'
  have hall : (h.stream.called ++ h.stream.writeQueue.map (·.callback)).Nodup :=
    hcalls.nodup_iff.mpr hrange
  refine ⟨hk.proper, ?_, (List.nodup_append.mp hall).1, fun n hn => ?_, fun hdone n h1 hn => ?_⟩
  · rw [hk.wire, hk.accepted]
    exact hk.books.bytes
  · have hm := hcalls.mem_iff.mp (List.mem_append_left _ hn)
    rw [List.mem_range'_1] at hm
    omega
  · have hqueue : h.stream.writeQueue = [] := by
      rcases hdone with hd | ⟨hs, hc⟩
      · exact hk.inv.finished_queue (hk.inv.destroyed hd)
      · exact hk.inv.finished_queue (hk.finishes hs hc)
    have hm : n ∈ List.range' 1 h.stream.writes := by
      rw [List.mem_range'_1]
      omega
    have hcalled := hcalls.mem_iff.mpr hm
    rwa [hqueue, List.map_nil, List.append_nil] at hcalled

/-- An accepted chunk that is one piece. -/
theorem step_write {b : UInt8} (hi : h.stream.idle = true) (he : h.stream.ending = false)
    (hd : h.stream.destroyed = false) (hf : h.stream.finished = false) :
    step h (.own (.write [b])) = some ⟨{ h.stream with
      written := h.stream.written ++ [b]
      writes := h.stream.writes + 1
      writeQueue := h.stream.writeQueue ++ [⟨[[b]], 0, h.stream.writes + 1⟩]
      stack := .flushWrites :: h.stream.stack }, h.log ++ [.accepted [b]]⟩ := by
  have hpieces : MuxStream.piecesFrom [b] 0 = [[b]] := by
    simp [MuxStream.piecesFrom, CHUNK_SIZE]
  simp [step, act, input, MuxStream.step, hi, he, hd, MuxStream.write, hf, hpieces]

/-- What happens behind the second write, which comes in the callback of the first. -/
def farewell : List Event := [
  .own (.turn 0), .own (.turn 0), .own .return, .own (.turn 0), .own .return, .own (.turn 0),
  .frame (.data [111]), .own .final, .own (.turn 0), .own .return, .frame .close, .own .destroy]

theorem orderly_greeting : ∃ h, Reachable h ∧ Orderly h ∧
    sentOf h.log = [.data [104], .data [105], .close] ∧ h.stream.called = [1, 2] := by
  have hinit : Reachable {} := .init rfl
  have hfirst := hinit.step (step_write (b := 104) rfl rfl rfl rfl)
  have hsecond := (hfirst.exec [.own (.turn 0), .own (.turn 0)] rfl).step
    (step_write (b := 105) rfl rfl rfl rfl)
  have hlast := hsecond.exec farewell rfl
  exact ⟨_, hlast, orderly hlast, rfl, rfl⟩

end Tunlit.Mux.Histories
