import Tunlit.Lib.CreditPipe
import Tunlit.Mux.Ends

/-! # Both directions of a stream are credit pipes

The direction from the server to the CLI and the one back are each an instance of the
abstract pipe: a step of the stream is matched by steps of the pipe, and while the
direction is live nothing is lost. -/
namespace Tunlit.Mux.Simulation
open Tunlit.Mux.Frames Tunlit.Mux.Server Tunlit.Mux.Cli Tunlit.Mux.System Tunlit.Mux.Ends
open Tunlit.Lib.CreditPipe Tunlit.Lib.Chunks

/-! ## What the frames carry -/

def frameItem : Frame → Option (Item UInt8)
  | .data payload => some (.data payload)
  | .close => some .fin
  | .windowUpdate _ | .datagram _ | .reset => none

def frameAmount : Frame → Nat
  | .windowUpdate amount => amount
  | .data _ | .close | .datagram _ | .reset => 0

/-- The part of the byte stream that some frames carry. -/
def items (frames : List Frame) : List (Item UInt8) := frames.filterMap frameItem

/-- The credit that some frames give back. -/
def updates (frames : List Frame) : Nat := (frames.map frameAmount).sum

@[simp] theorem items_nil : items [] = [] := rfl
@[simp] theorem items_append (l m : List Frame) : items (l ++ m) = items l ++ items m :=
  List.filterMap_append ..
@[simp] theorem items_data (p : Bytes) (l : List Frame) :
    items (.data p :: l) = .data p :: items l := rfl
@[simp] theorem items_close (l : List Frame) : items (.close :: l) = .fin :: items l := rfl
@[simp] theorem items_windowUpdate (n : Nat) (l : List Frame) :
    items (.windowUpdate n :: l) = items l := rfl
@[simp] theorem items_datagram (p : Bytes) (l : List Frame) :
    items (.datagram p :: l) = items l := rfl
@[simp] theorem items_reset (l : List Frame) : items (.reset :: l) = items l := rfl

@[simp] theorem updates_nil : updates [] = 0 := rfl
@[simp] theorem updates_append (l m : List Frame) : updates (l ++ m) = updates l + updates m := by
  simp [updates]
@[simp] theorem updates_cons (f : Frame) (l : List Frame) :
    updates (f :: l) = frameAmount f + updates l := by
  simp [updates]
@[simp] theorem frameAmount_data (p : Bytes) : frameAmount (.data p) = 0 := rfl
@[simp] theorem frameAmount_close : frameAmount .close = 0 := rfl
@[simp] theorem frameAmount_windowUpdate (n : Nat) : frameAmount (.windowUpdate n) = n := rfl
@[simp] theorem frameAmount_datagram (p : Bytes) : frameAmount (.datagram p) = 0 := rfl
@[simp] theorem frameAmount_reset : frameAmount .reset = 0 := rfl

theorem updates_eraseIdx {l : List Frame} {i : Nat} {f : Frame} (h : l[i]? = some f) :
    updates (l.eraseIdx i) + frameAmount f = updates l := by
  induction l generalizing i with
  | nil => simp at h
  | cons g l ih =>
    cases i with
    | zero =>
      simp only [List.getElem?_cons_zero, Option.some.injEq] at h
      simp [h, Nat.add_comm]
    | succ i =>
      have := ih (by simpa using h)
      simp only [List.eraseIdx_cons_succ, updates_cons]
      omega

def incomingItem : Incoming → Option (Item UInt8)
  | .data d => some (.data d)
  | .close => some .fin
  | .datagram _ | .reset => none

/-- The part of the byte stream in the CLI's queue. -/
def rxItems (rx : List Incoming) : List (Item UInt8) := rx.filterMap incomingItem

@[simp] theorem rxItems_nil : rxItems [] = [] := rfl
@[simp] theorem rxItems_append (l m : List Incoming) :
    rxItems (l ++ m) = rxItems l ++ rxItems m := List.filterMap_append ..
@[simp] theorem rxItems_data (d : Bytes) (l : List Incoming) :
    rxItems (.data d :: l) = .data d :: rxItems l := rfl
@[simp] theorem rxItems_close (l : List Incoming) : rxItems (.close :: l) = .fin :: rxItems l := rfl
@[simp] theorem rxItems_datagram (d : Bytes) (l : List Incoming) :
    rxItems (.datagram d :: l) = rxItems l := rfl
@[simp] theorem rxItems_reset (l : List Incoming) : rxItems (.reset :: l) = rxItems l := rfl

/-! ## The two pipes -/

/-- The bytes the server has queued. -/
def queued (queue : List WriteItem) : Bytes := queue.flatMap WriteItem.remaining

/-- The chunk whose credit the CLI's writer holds. -/
def held : Writer → Bytes
  | .charged chunk _ => chunk
  | .idle | .taking .. | .closing => []

/-- What the server has received and its application has not read. -/
def inbox (s : MuxStream) : List (Item UInt8) :=
  s.readable.map .data ++ if s.closeReceived && !s.endEmitted && !s.destroyed then [.fin] else []

/-- From the server to the CLI. -/
def down (l : Link) (lost : Nat) : Pipe UInt8 where
  accepted := l.server.written
  queued := queued l.server.writeQueue
  held := []
  wire := if l.cli.entry then items l.server.wire else []
  inbox := rxItems l.cli.rx
  delivered := l.cli.received
  closing := l.server.ending
  ended := l.cli.sawClose
  cut := l.server.finished || !l.server.sending || !l.cli.entry
  credit := l.server.sendWindow
  owed := (bytes (rxItems l.cli.rx)).length + l.cli.unacked
  acks := updates l.cli.wire + updates l.cli.spawned
  lost := lost

/-- From the CLI to the server. -/
def up (l : Link) (lost : Nat) : Pipe UInt8 where
  accepted := l.cli.written
  queued := l.cli.writer.left.flatten
  held := held l.cli.writer
  wire := if l.server.known then items l.cli.wire else []
  inbox := inbox l.server
  delivered := l.server.consumed
  closing := l.cli.closing
  ended := l.server.endEmitted
  cut := l.cli.failed || !l.cli.outOpen || l.cli.dropped || !l.server.known
  credit := l.cli.available
  owed := l.server.pendingUpdate
  acks := updates l.server.wire
  lost := lost

/-- The stream has been reset, by one of the ends or by the loss of the connection. -/
structure NotReset (l : Link) : Prop where
  serverSent : l.server.resetSent = false
  serverReceived : l.server.resetReceived = false
  wsOpen : l.server.wsOpen = true
  serverClosed : l.server.closed = false
  cliSent : l.cli.resetSent = false
  dead : l.cli.dead = false
  cliClosed : l.cli.closed = false
  outOpen : l.cli.outOpen = true

/-- Credit for this direction still reaches its sender. -/
def DownLive (l : Link) : Prop := NotReset l ∧ l.server.finished = false

def UpLive (l : Link) : Prop := NotReset l ∧ l.cli.dropped = false

/-- A step of the stream as steps of the pipe, which lose something only if the
direction is not live behind them. -/
def DownStep (l l' : Link) (k : Nat) : Prop :=
  ∃ k', Steps (down l k) (down l' k') ∧ (k' = k ∨ ¬DownLive l')

def UpStep (l l' : Link) (k : Nat) : Prop :=
  ∃ k', Steps (up l k) (up l' k') ∧ (k' = k ∨ ¬UpLive l')

theorem DownStep.of_steps {l l' : Link} {k : Nat} (h : Steps (down l k) (down l' k)) :
    DownStep l l' k := ⟨k, h, .inl rfl⟩

theorem UpStep.of_steps {l l' : Link} {k : Nat} (h : Steps (up l k) (up l' k)) :
    UpStep l l' k := ⟨k, h, .inl rfl⟩

/-! ## The server sends -/

section Down

variable {s : MuxStream} {c : CliStream} {k : Nat}

@[simp] theorem queued_nil : queued [] = [] := rfl
@[simp] theorem queued_cons (item : WriteItem) (rest : List WriteItem) :
    queued (item :: rest) = item.remaining ++ queued rest := rfl
@[simp] theorem queued_append (q r : List WriteItem) : queued (q ++ r) = queued q ++ queued r := by
  simp [queued]

theorem remaining_some {item : WriteItem} {piece : Bytes} (h : item.pieces[item.index]? = some piece) :
    item.remaining = piece ++ { item with index := item.index + 1 }.remaining := by
  obtain ⟨hi, rfl⟩ := List.getElem?_eq_some_iff.mp h
  rw [WriteItem.remaining, List.drop_eq_getElem_cons hi, List.flatten_cons]
  rfl

theorem remaining_none {item : WriteItem} (h : item.pieces[item.index]? = none) :
    item.remaining = [] := by
  rw [WriteItem.remaining, List.drop_of_length_le (List.getElem?_eq_none_iff.mp h), List.flatten_nil]

/-- A frame is invisible to the direction when it carries nothing of it, is not sent or
has nobody to receive it. -/
theorem down_send_none {f : Frame} (h : frameItem f = none ∨ s.sending = false ∨ c.entry = false) :
    down ⟨s.send f, c⟩ k = down ⟨s, c⟩ k := by
  have hw : (if c.entry then items (s.send f).wire else []) = if c.entry then items s.wire else [] := by
    rcases h with h | h | h
    · cases hs : s.sending <;> simp [MuxStream.send, hs, items, h]
    · simp [MuxStream.send, h]
    · simp [h]
  simp only [down, hw]
  rfl

theorem down_send {f : Frame} {i : Item UInt8} (hf : frameItem f = some i) (hs : s.sending = true)
    (he : c.entry = true) :
    down ⟨s.send f, c⟩ k =
      { down ⟨s, c⟩ k with wire := (down ⟨s, c⟩ k).wire ++ [i] } := by
  have hw : items (s.send f).wire = items s.wire ++ [i] := by
    simp [MuxStream.send, hs, items, hf]
  simp only [down, hw, he, if_true]
  rfl

theorem down_write (h : ServerInv s) (he : s.ending = false) (chunk : Bytes) :
    Steps (down ⟨s, c⟩ k) (down ⟨s.write chunk, c⟩ k) := by
  refine (Step.accept (down ⟨s, c⟩ k) chunk he).then rfl ?_
  unfold MuxStream.write
  dsimp only
  split
  · rename_i hf
    refine (Step.discard _ (by simp [down, hf])).last ?_
    simp [down, h.finished_queue hf, MuxStream.sending]
  · refine .trans .refl ?_
    simp [down, MuxStream.sending, WriteItem.remaining, piecesFrom_flatten]
    rfl

theorem down_maybeFinish : Steps (down ⟨s, c⟩ k) (down ⟨s.maybeFinish, c⟩ k) := by
  unfold MuxStream.maybeFinish
  split
  · exact (Step.giveUp (down ⟨s, c⟩ k)).last (by simp [down, MuxStream.forget, MuxStream.sending])
  · exact .refl

theorem down_sendClose (he : s.ending = true) (hq : s.writeQueue = []) :
    Steps (down ⟨s, c⟩ k) (down ⟨s.sendClose, c⟩ k) := by
  unfold MuxStream.sendClose
  split
  · exact .refl
  · rename_i hc
    simp only [Bool.or_eq_true, not_or, Bool.not_eq_true] at hc
    refine .trans ?_ down_maybeFinish
    change Steps (down ⟨{ s with closeSent := true }, c⟩ k) _
    by_cases hp : s.sending = true ∧ c.entry = true
    · rw [down_send rfl (by exact hp.1) hp.2]
      exact (Step.putFin _ (by simp [down, hc.2, show s.closed = false ∧ s.wsOpen = true by
        simpa [MuxStream.sending] using hp.1, hp.2, MuxStream.sending]) he (by simp [down, hq]) rfl).last rfl
    · rw [down_send_none]
      simp only [not_and, Bool.not_eq_true] at hp
      cases hs : s.sending with
      | false => exact .inr (.inl hs)
      | true => exact .inr (.inr (hp hs))

theorem down_final : Steps (down ⟨s, c⟩ k) (down ⟨s.final, c⟩ k) := by
  refine (Step.close (down ⟨s, c⟩ k)).last ?_
  unfold MuxStream.final
  dsimp only
  split <;> rfl

theorem down_destroy : Steps (down ⟨s, c⟩ k) (down ⟨s.destroy, c⟩ k) := by
  unfold MuxStream.destroy
  split
  · exact .refl
  · refine (Step.giveUp (down ⟨s, c⟩ k)).then rfl ((Step.discard _ rfl).last ?_)
    dsimp only
    split
    · rename_i hf
      simp [down, hf, MuxStream.sending]
    · split
      · simp [down, MuxStream.forget, MuxStream.sending]
      · let s' : MuxStream := { s with
          destroyed := true, writeQueue := [], readable := [], finished := true }
        refine Eq.trans (down_send_none (s := s') (.inl rfl)) ?_
        simp [s', down, MuxStream.sending]

/-- What the CLI no longer takes is lost only with a reset: a stream that it dropped
without one had been read to its end. -/
theorem not_live_of_entry {l : Link} (hc : CliInv l.cli) (he : l.cli.entry = false)
    (hsaw : l.cli.sawClose = false) : ¬NotReset l := by
  intro hn
  rcases hc.entry he with hd | hd
  · obtain ⟨-, -, -, hr | hr | hr⟩ := hc.dropped hd
    · exact absurd (hn.cliSent.symm.trans hr) (by decide)
    · exact absurd (hn.dead.symm.trans hr) (by decide)
    · exact absurd ((hsaw.symm.trans hc.closeReceived.symm).trans hr) (by decide)
  · exact absurd (hn.dead.symm.trans hd) (by decide)

theorem not_live_of_sending {l : Link} (hs : l.server.sending = false) : ¬NotReset l := by
  intro hn
  simp [MuxStream.sending, hn.wsOpen, hn.serverClosed] at hs

/-- A piece is charged and sent, or charged in vain. -/
theorem down_sendPiece (hc : CliInv c) {w : Nat} (hi : Inv w (down ⟨s, c⟩ k))
    {piece : Bytes} {queue : List WriteItem} (hf : s.finished = false)
    (hq : queued s.writeQueue = piece ++ queued queue) (hne : piece ≠ [])
    (hcr : (piece.length : Int) ≤ s.sendWindow) :
    DownStep ⟨s, c⟩ ⟨MuxStream.send { s with
      sendWindow := s.sendWindow - piece.length
      writeQueue := queue } (.data piece), c⟩ k := by
  have htake := Step.take (down ⟨s, c⟩ k) piece (queued queue) hq rfl hcr
  by_cases hlive : s.sending = true ∧ c.entry = true
  · refine .of_steps ?_
    rw [down_send rfl (by exact hlive.1) hlive.2]
    refine htake.then rfl ((Step.put _ ?_).last rfl)
    show (s.finished || !s.sending || !c.entry) = false
    simp [hf, hlive]
  · have hlive : s.sending = false ∨ c.entry = false := by
      simpa only [not_and_or, Bool.not_eq_true] using hlive
    refine ⟨k + piece.length, htake.then rfl ((Step.lose _ ?_).last ?_), .inr ?_⟩
    · show (s.finished || !s.sending || !c.entry) = true
      rcases hlive with h | h <;> simp [h]
    · rw [down_send_none (by exact .inr hlive)]
      rfl
    · rintro ⟨hn, -⟩
      rcases hlive with h | h
      · exact not_live_of_sending (l := ⟨s, c⟩) h ⟨hn.1, hn.2, hn.3, hn.4, hn.5, hn.6, hn.7, hn.8⟩
      · refine not_live_of_entry (l := ⟨s, c⟩) hc h ?_ ⟨hn.1, hn.2, hn.3, hn.4, hn.5, hn.6, hn.7, hn.8⟩
        -- the end is reported only when the queue is empty
        rw [← Bool.not_eq_true]
        intro hsaw
        have hnil := (hi.fin (.inr hsaw)).2.2.2
        rw [show (down ⟨s, c⟩ k).queued = piece ++ queued queue from hq] at hnil
        exact hne (List.append_eq_nil_iff.mp hnil).1

theorem down_flushWrites (hs : ServerInv s) (hc : CliInv c) {w : Nat} (hi : Inv w (down ⟨s, c⟩ k))
    (buffered : Nat) : DownStep ⟨s, c⟩ ⟨s.flushWrites buffered, c⟩ k := by
  unfold MuxStream.flushWrites
  split
  · rename_i item rest hq hf
    split
    · rename_i piece hp
      split
      · exact .of_steps .refl
      · rename_i hcr
        simp only [Bool.or_eq_true, decide_eq_true_eq, not_or, Int.not_lt] at hcr
        refine down_sendPiece hc hi hf ?_ ?_ hcr.1
        · rw [hq, queued_cons, queued_cons, remaining_some hp, List.append_assoc]
        · exact (hs.pieces item (by simp [hq]) piece (List.mem_of_getElem? hp)).1
    · rename_i hp
      refine .of_steps ?_
      have : queued s.writeQueue = queued rest := by
        rw [hq, queued_cons, remaining_none hp, List.nil_append]
      simp only [down, this]
      exact .refl
  · rename_i hnot
    split
    · rename_i hcb
      simp only [Bool.and_eq_true, decide_eq_true_eq] at hcb
      exact .of_steps (down_sendClose (s := { s with
        finalCallback := false, stack := .callback :: s.stack.tail })
        (hs.finalCallback hcb.2) hcb.1)
    · exact .of_steps .refl

theorem down_server (hs : ServerInv s) (hc : CliInv c) {w : Nat} (hi : Inv w (down ⟨s, c⟩ k))
    {e : ServerEvent} {t : MuxStream} (hst : ServerStep s e t) :
    DownStep ⟨s, c⟩ ⟨t, c⟩ k := by
  cases hst with
  | write chunk _ he => exact .of_steps (down_write hs he chunk)
  | final => exact .of_steps down_final
  | destroy => exact .of_steps down_destroy
  | flush buffered => exact down_flushWrites hs hc hi buffered
  | drainEnd | «return» | emitEnd => exact .of_steps .refl
  | drain buffered =>
    refine .of_steps ?_
    unfold MuxStream.drain
    split
    · exact .refl
    · split <;> exact .refl
  | read =>
    refine .of_steps ?_
    unfold MuxStream.read
    dsimp only
    split
    · rw [down_send_none (by exact .inl rfl)]
      exact .refl
    · exact .refl
  | consume n =>
    refine .of_steps ?_
    unfold MuxStream.consume
    split <;> exact .refl
  | datagram data buffered =>
    refine .of_steps ?_
    unfold MuxStream.sendDatagram
    split
    · exact .refl
    · split
      · exact .refl
      · rw [down_send_none (by exact .inl rfl)]
  | sessionClose =>
    refine .of_steps ((Step.giveUp (down ⟨s, c⟩ k)).last ?_)
    simp [down, MuxStream.sending]
  | socketClose =>
    refine .of_steps ?_
    unfold MuxStream.onSocketClose
    split
    · exact .refl
    · refine (Step.giveUp (down ⟨s, c⟩ k)).then rfl ?_
      have hcut : down ⟨{ s with closed := true, drainTimer := false }, c⟩ k =
          { down ⟨s, c⟩ k with cut := true } := by simp [down, MuxStream.sending]
      rw [← hcut]
      dsimp only
      split
      · exact down_destroy (s := { s with closed := true, drainTimer := false, resetReceived := true })
      · exact .refl

/-! ## The CLI receives -/

/-- A frame of the CLI that gives no credit back is invisible to the direction. -/
theorem down_cliSend {f : Frame} (h : frameAmount f = 0) (b : Bool) :
    down ⟨s, { c with wire := c.wire ++ if b then [f] else [] }⟩ k = down ⟨s, c⟩ k := by
  cases b <;> simp [down, h]

theorem down_ack : DownStep ⟨s, c⟩ ⟨s, { c.ack with receiving := true }⟩ k := by
  unfold CliStream.ack
  split
  · exact .of_steps .refl
  · cases hcl : c.closed with
    | false =>
      refine .of_steps ((Step.ack (down ⟨s, c⟩ k) c.unacked (by simp [down])).last ?_)
      simp [down, CliStream.trySend]
      omega
    | true =>
      refine ⟨k + c.unacked, (Step.forfeit (down ⟨s, c⟩ k) c.unacked (by simp [down])).last ?_,
        .inr fun h => ?_⟩
      · simp [down, CliStream.trySend]
      · exact absurd h.1.cliClosed (by simp [CliStream.trySend])

/-- When both handles are dropped, what the CLI has not read is lost, and what it will
receive. -/
theorem down_drop (hc : CliInv c.drop) {w : Nat} (hi : Inv w (down ⟨s, c⟩ k)) :
    DownStep ⟨s, c⟩ ⟨s, c.drop⟩ k := by
  have hrx : c.drop.rx = [] := by unfold CliStream.drop; dsimp only; split <;> rfl
  have hentry : c.drop.entry = false := by unfold CliStream.drop; dsimp only; split <;> rfl
  have hsaw : c.drop.sawClose = c.sawClose := by
    unfold CliStream.drop; dsimp only; split <;> rfl
  have hrest : c.drop.received = c.received ∧ c.drop.unacked = c.unacked ∧ c.drop.wire = c.wire ∧
      updates c.drop.spawned = updates c.spawned := by
    unfold CliStream.drop
    dsimp only
    split
    · cases c.closed <;> simp [CliStream.trySend]
    · exact ⟨rfl, rfl, rfl, rfl⟩
  let p := down ⟨s, c⟩ k
  refine ⟨k + (bytes p.wire).length + (bytes p.inbox).length,
    (Step.giveUp p).then rfl ((Step.dropWire _ rfl).then rfl
      ((Step.forfeit _ (bytes p.inbox).length ?_).then rfl ((Step.dropInbox _ rfl rfl).last ?_))), ?_⟩
  · simp [p, down]
  · simp [p, down, hrx, hentry, hsaw, hrest]
  · cases hs : c.sawClose with
    | true =>
      have hover := hi.drained hs
      rw [bytes_append, List.append_eq_nil_iff] at hover
      exact .inl (by simp [p, hover.1, hover.2])
    | false => exact .inr fun h => not_live_of_entry (l := ⟨s, c.drop⟩) hc hentry (hsaw.trans hs) h.1

/-- When the reader is told that the stream is reset, what was to come is lost. -/
theorem down_fail :
    DownStep ⟨s, c⟩ ⟨s, { c with dead := true, rx := c.rx ++ [.reset], entry := false }⟩ k := by
  let p := down ⟨s, c⟩ k
  refine ⟨k + (bytes p.wire).length, (Step.giveUp p).then rfl ((Step.dropWire _ rfl).last ?_),
    .inr fun h => absurd h.1.dead (by simp)⟩
  simp [p, down]

theorem down_cli {w : Nat} (hi : Inv w (down ⟨s, c⟩ k)) {e : CliEvent} {d : CliStream}
    (hst : CliStep c e d) (hd : CliInv d) : DownStep ⟨s, c⟩ ⟨s, d⟩ k := by
  cases hst with
  | send | takeDead | takeClosed | take | outSendFails | cancelRecv | closed | outClosed
  | gotNone => exact .of_steps .refl
  | outSend chunk rest =>
    refine .of_steps ?_
    simp only [down, updates_append, updates_cons, updates_nil, frameAmount_data, Nat.add_zero]
    exact .refl
  | outSendClose =>
    refine .of_steps ?_
    cases c.outOpen <;> simp only [down, updates_append, updates_cons, updates_nil, reduceIte,
      Bool.false_eq_true, frameAmount_close, Nat.add_zero] <;> exact .refl
  | close =>
    refine .of_steps ?_
    unfold CliStream.close
    dsimp only
    split
    · exact .refl
    · split <;> exact .refl
  | reset =>
    refine .of_steps ?_
    unfold CliStream.reset
    split
    · exact .refl
    · cases hcl : c.closed <;> simp [down, CliStream.trySend] <;> exact .refl
  | recv =>
    unfold CliStream.recv
    dsimp only
    split
    · exact down_ack
    · exact .of_steps .refl
  | gotData d rest hr hx =>
    have hin : (down ⟨s, c⟩ k).inbox = .data (d ++ []) :: rxItems rest := by simp [down, hx]
    refine .of_steps ((Step.hand _ _ _ _ hin).then rfl ((Step.skip _ [] _ rfl).last ?_))
    simp [down, hx]
    omega
  | gotClose rest hr hx =>
    refine .of_steps ((Step.handFin _ (rxItems rest) (by simp [down, hx])).last ?_)
    simp [down, hx]
  | gotReset rest hr hx | gotDatagram d rest hr hx =>
    refine .of_steps ?_
    simp only [down, hx, rxItems_reset, rxItems_datagram]
    exact .refl
  | drop => exact down_drop hd hi
  | datagram data =>
    refine .of_steps ?_
    unfold CliStream.sendDatagram
    split
    · exact .refl
    · simp only [down, updates_append, updates_cons, updates_nil, frameAmount_datagram, Nat.add_zero]
      exact .refl
  | spawned i frame h =>
    have hu := updates_eraseIdx h
    cases ho : c.outOpen with
    | true =>
      refine .of_steps ?_
      have : updates (c.wire ++ [frame]) + updates (c.spawned.eraseIdx i) =
          updates c.wire + updates c.spawned := by simp; omega
      simp only [down, reduceIte, this]
      exact .refl
    | false =>
      refine ⟨k + frameAmount frame,
        (Step.dropAck (down ⟨s, c⟩ k) (frameAmount frame) (by simp [down]; omega)).last ?_,
        .inr fun h => absurd h.1.outOpen (by simp)⟩
      simp [down]
      omega
  | shutdown hc =>
    unfold CliStream.shutdown
    split
    · exact down_fail
    · exact .of_steps .refl

theorem down_toServer (hs : ServerInv s) {f : Frame} {rest : List Frame} (hw : c.wire = f :: rest) :
    DownStep ⟨s, c⟩ ⟨s.onFrame f, { c with wire := rest }⟩ k := by
  have hacks : (down ⟨s, c⟩ k).acks = frameAmount f + (updates rest + updates c.spawned) := by
    simp [down, hw, Nat.add_assoc]
  have hsame : frameAmount f = 0 → down ⟨s, { c with wire := rest }⟩ k = down ⟨s, c⟩ k := by
    intro hf
    simp [down, hw, hf]
  unfold MuxStream.onFrame
  split
  · rename_i hk
    refine ⟨k + frameAmount f,
      (Step.dropAck (down ⟨s, c⟩ k) (frameAmount f) (by omega)).last ?_, .inr fun h => ?_⟩
    · simp [down, hw]
      omega
    · have hf : s.finished = false := h.2
      simp [hs.known, hf] at hk
  · cases f with
    | data payload =>
      refine .of_steps ?_
      rw [← hsame rfl]
      simp only [MuxStream.onData]
      split <;> exact .refl
    | close =>
      refine .of_steps ?_
      rw [← hsame rfl]
      simp only [MuxStream.onClose]
      split
      · exact .refl
      · exact down_maybeFinish (s := { s with closeReceived := true })
    | reset =>
      refine .of_steps ?_
      rw [← hsame rfl]
      exact down_destroy (s := { s with resetReceived := true })
    | datagram payload =>
      refine .of_steps ?_
      rw [← hsame rfl]
    | windowUpdate n =>
      have hacks : (down ⟨s, c⟩ k).acks = n + (updates rest + updates c.spawned) := hacks
      refine .of_steps ((Step.grant (down ⟨s, c⟩ k) n (by omega)).last ?_)
      simp only [down] at hacks ⊢
      simp [MuxStream.onWindowUpdate, MuxStream.sending, hw]
      omega

theorem down_toCli {f : Frame} {rest : List Frame} (hw : s.wire = f :: rest) :
    DownStep ⟨s, c⟩ ⟨{ s with wire := rest }, c.onFrame f⟩ k := by
  unfold CliStream.onFrame
  split
  · rename_i he
    refine .of_steps ?_
    simp only [Bool.not_eq_true'] at he
    simp only [down, he]
    exact .refl
  · rename_i he
    simp only [Bool.not_eq_true', Bool.not_eq_false] at he
    have hwire : (down ⟨s, c⟩ k).wire = items (f :: rest) := by simp [down, he, hw]
    have hsame : frameItem f = none →
        down ⟨{ s with wire := rest }, c⟩ k = down ⟨s, c⟩ k := by
      intro hf
      simp [down, hw, items, hf, MuxStream.sending]
    cases f with
    | data payload =>
      refine .of_steps ((Step.arrive _ payload (items rest) hwire).last ?_)
      simp [down, he, MuxStream.sending, Item.bytes]
      omega
    | close =>
      refine .of_steps ((Step.arriveFin _ (items rest) hwire).last ?_)
      simp [down, he, MuxStream.sending, Item.bytes]
    | datagram payload =>
      refine .of_steps ?_
      rw [← hsame rfl]
      simp only [down, rxItems_append, rxItems_datagram, rxItems_nil, List.append_nil]
      exact .refl
    | reset =>
      obtain ⟨k', hk, hl⟩ := down_fail (s := { s with wire := rest }) (c := c) (k := k)
      exact ⟨k', hsame rfl ▸ hk, hl⟩
    | windowUpdate n =>
      refine .of_steps ?_
      rw [← hsame rfl]
      exact .refl

end Down

section Up

variable {s : MuxStream} {c : CliStream} {k w : Nat}

/-! ## The server receives -/

/-- A frame of the server is invisible to the direction when it gives no credit back or
is not sent. -/
theorem up_send_none {f : Frame} (h : frameAmount f = 0 ∨ s.sending = false) :
    up ⟨s.send f, c⟩ k = up ⟨s, c⟩ k := by
  have hu : updates (s.send f).wire = updates s.wire := by
    rcases h with h | h
    · cases hs : s.sending <;> simp [MuxStream.send, hs, h]
    · simp [MuxStream.send, h]
  simp only [up, hu]
  rfl

/-- Behind the end of the stream there is no byte on the way. -/
theorem up_over (hi : Inv w (up ⟨s, c⟩ k)) (hc : s.closeReceived = true)
    (hd : s.destroyed = false) : bytes (up ⟨s, c⟩ k).wire = [] := by
  cases he : s.endEmitted with
  | true =>
    have := hi.drained he
    rw [bytes_append, List.append_eq_nil_iff] at this
    exact this.2
  | false => exact hi.tidy.bytes_right (by simp [up, inbox, hc, he, hd])

theorem up_maybeFinish (hs : ServerInv s) (hi : Inv w (up ⟨s, c⟩ k)) :
    Steps (up ⟨s, c⟩ k) (up ⟨s.maybeFinish, c⟩ k) := by
  unfold MuxStream.maybeFinish
  split
  · rename_i hm
    simp only [Bool.and_eq_true, Bool.not_eq_true'] at hm
    have hd : s.destroyed = false := by
      cases hd : s.destroyed with
      | false => rfl
      | true => exact (hm.2.symm.trans (hs.destroyed hd)).symm
    have hb := up_over hi hm.1.2 hd
    refine (Step.giveUp _).then rfl ((Step.dropWire _ rfl).last ?_)
    simp only [hb]
    simp [up, MuxStream.forget, inbox]
  · exact .refl

theorem up_sendClose (hs : ServerInv s) (he : s.ending = true) (hq : s.writeQueue = [])
    (hi : Inv w (up ⟨s, c⟩ k)) : Steps (up ⟨s, c⟩ k) (up ⟨s.sendClose, c⟩ k) := by
  unfold MuxStream.sendClose
  split
  · exact .refl
  · rename_i hc
    let s' : MuxStream := { s with closeSent := true }
    have hs' : ServerInv s' := { hs with
      closeSent := fun _ => ⟨he, hq⟩
      finished_cause := fun hf => by simp_all [s'] }
    have hsame : up ⟨s'.send .close, c⟩ k = up ⟨s, c⟩ k := up_send_none (.inl rfl)
    rw [← hsame] at hi ⊢
    exact up_maybeFinish (hs'.send _) hi

/-- What is on the way to a stream that the server gives up is lost. -/
theorem up_gone {t : MuxStream} (hk : t.known = false) (hin : inbox t = [])
    (hsame : t.consumed = s.consumed ∧ t.endEmitted = s.endEmitted ∧
      t.pendingUpdate = s.pendingUpdate ∧ updates t.wire = updates s.wire) :
    Steps (up ⟨s, c⟩ k) (up ⟨t, c⟩ (k + (bytes (up ⟨s, c⟩ k).wire).length)) := by
  obtain ⟨h1, h2, h3, h4⟩ := hsame
  refine (Step.giveUp _).then rfl ((Step.dropWire _ rfl).then rfl
    ((Step.dropInbox _ rfl rfl).last ?_))
  simp [up, hk, hin, h1, h2, h3, h4]

theorem up_destroy (hs : ServerInv s) (hi : Inv w (up ⟨s, c⟩ k)) :
    UpStep ⟨s, c⟩ ⟨s.destroy, c⟩ k := by
  unfold MuxStream.destroy
  split
  · exact .of_steps .refl
  · rename_i hd
    dsimp only
    split
    · rename_i hf
      have hk : s.known = false := by simp [hs.known, hf]
      exact ⟨_, up_gone hk (by simp [inbox]) ⟨rfl, rfl, rfl, rfl⟩, .inl (by simp [up, hk])⟩
    · split
      · rename_i hr
        refine ⟨_, up_gone rfl (by simp [inbox, MuxStream.forget]) ⟨rfl, rfl, rfl, rfl⟩, ?_⟩
        simp only [Bool.or_eq_true, Bool.and_eq_true] at hr
        rcases hr with hr | ⟨-, hr⟩
        · exact .inr fun h => absurd h.1.serverReceived (by simp [hr, MuxStream.forget])
        · exact .inl (by simp [up_over hi hr (by simpa using hd)])
      · refine ⟨_, up_gone rfl (by simp [inbox, MuxStream.forget, MuxStream.send])
          ⟨rfl, rfl, rfl, ?_⟩, .inr fun h => absurd h.1.serverSent (by simp [MuxStream.forget])⟩
        simp only [MuxStream.forget, MuxStream.send]
        split <;> simp

theorem up_flushWrites (hs : ServerInv s) (hi : Inv w (up ⟨s, c⟩ k)) (buffered : Nat) :
    Steps (up ⟨s, c⟩ k) (up ⟨s.flushWrites buffered, c⟩ k) := by
  unfold MuxStream.flushWrites
  split
  · rename_i item rest hq hf
    split
    · rename_i piece hp
      split
      · exact .refl
      · let s' : MuxStream := { s with
          sendWindow := s.sendWindow - piece.length
          writeQueue := { item with index := item.index + 1 } :: rest }
        have hsame : up ⟨s'.send (.data piece), c⟩ k = up ⟨s, c⟩ k := up_send_none (.inl rfl)
        exact hsame ▸ .refl
    · exact .refl
  · split
    · rename_i hcb
      simp only [Bool.and_eq_true, decide_eq_true_eq] at hcb
      let s' : MuxStream := { s with finalCallback := false, stack := .callback :: s.stack.tail }
      have hs' : ServerInv s' :=
        { hs with finalCallback := nofun, resumed := fun hn => absurd hcb.1 hn }
      exact up_sendClose hs' (hs.finalCallback hcb.2) hcb.1 hi
    · exact .refl

theorem up_consume (n : Nat) : Steps (up ⟨s, c⟩ k) (up ⟨s.consume n, c⟩ k) := by
  unfold MuxStream.consume
  split
  · exact .refl
  · rename_i chunk rest hr
    let fin : List (Item UInt8) :=
      if s.closeReceived && !s.endEmitted && !s.destroyed then [.fin] else []
    have hin : (up ⟨s, c⟩ k).inbox =
        .data (chunk.take n ++ chunk.drop n) :: (rest.map .data ++ fin) := by
      simp [up, inbox, hr, fin]
    have hhand := Step.hand _ _ _ _ hin
    split
    · exact hhand.last (by simp [up, inbox, fin])
    · rename_i hn
      have hnil : chunk.drop n = [] := List.drop_of_length_le (by omega)
      rw [hnil] at hhand
      exact hhand.then rfl ((Step.skip _ [] _ rfl).last (by simp [up, inbox, fin]))

theorem up_server (hs : ServerInv s) (hi : Inv w (up ⟨s, c⟩ k))
    {e : ServerEvent} {t : MuxStream} (hst : ServerStep s e t) : UpStep ⟨s, c⟩ ⟨t, c⟩ k := by
  cases hst with
  | write chunk =>
    refine .of_steps ?_
    unfold MuxStream.write
    dsimp only
    split <;> exact .refl
  | final =>
    refine .of_steps ?_
    unfold MuxStream.final
    dsimp only
    split <;> exact .refl
  | destroy => exact up_destroy hs hi
  | flush buffered => exact .of_steps (up_flushWrites hs hi buffered)
  | drainEnd | «return» | sessionClose => exact .of_steps .refl
  | drain buffered =>
    refine .of_steps ?_
    unfold MuxStream.drain
    split
    · exact .refl
    · split <;> exact .refl
  | read =>
    unfold MuxStream.read
    dsimp only
    split
    · cases hsd : s.sending with
      | true =>
        refine .of_steps ((Step.ack (up ⟨s, c⟩ k) s.pendingUpdate (Nat.le_refl _)).last ?_)
        simp only [MuxStream.sending] at hsd
        simp [up, MuxStream.send, MuxStream.sending, hsd, inbox]
      | false =>
        refine ⟨k + s.pendingUpdate, (Step.forfeit (up ⟨s, c⟩ k) s.pendingUpdate (Nat.le_refl _)).last ?_,
          .inr fun h => not_live_of_sending (by exact hsd) h.1⟩
        rw [up_send_none (by exact .inr hsd)]
        simp [up, inbox]
    · exact .of_steps .refl
  | consume n => exact .of_steps (up_consume n)
  | emitEnd hi hd hc hr =>
    refine .of_steps ?_
    cases he : s.endEmitted with
    | true =>
      have : up ⟨{ s with endEmitted := true }, c⟩ k = up ⟨s, c⟩ k := by simp [up, inbox, he]
      exact this ▸ .refl
    | false =>
      refine (Step.handFin (up ⟨s, c⟩ k) [] (by simp [up, inbox, hr, hc, he, hd])).last ?_
      simp [up, inbox, hr]
  | datagram data buffered =>
    refine .of_steps ?_
    unfold MuxStream.sendDatagram
    split
    · exact .refl
    · split
      · exact .refl
      · rw [up_send_none (.inl rfl)]
  | socketClose =>
    unfold MuxStream.onSocketClose
    split
    · exact .of_steps .refl
    · dsimp only
      split
      · exact up_destroy (s := { s with closed := true, drainTimer := false, resetReceived := true })
          { hs with timer := fun _ => .inr rfl, finished_cause := fun _ => .inr (.inr rfl) } hi
      · exact .of_steps .refl

/-! ## The CLI sends -/

@[simp] theorem held_idle : held .idle = [] := rfl
@[simp] theorem held_taking (chunk : Bytes) (rest : List Bytes) :
    held (.taking chunk rest) = [] := rfl
@[simp] theorem held_charged (chunk : Bytes) (rest : List Bytes) :
    held (.charged chunk rest) = chunk := rfl
@[simp] theorem held_closing : held .closing = [] := rfl
@[simp] theorem held_nextChunk (l : List Bytes) : held (nextChunk l) = [] := by
  cases l <;> rfl

/-- A frame of the CLI that carries nothing of the direction is invisible to it. -/
theorem up_cliSend_none {f : Frame} (h : frameItem f = none) :
    up ⟨s, { c with wire := c.wire ++ [f] }⟩ k = up ⟨s, c⟩ k := by
  simp [up, items, h]

theorem up_take {chunk : Bytes} {rest : List Bytes} (hw : c.writer = .taking chunk rest)
    (ha : (chunk.length : Int) ≤ c.available) :
    Step (up ⟨s, c⟩ k) (up ⟨s, { c with
      available := c.available - chunk.length, writer := .charged chunk rest }⟩ k) := by
  have := Step.take (up ⟨s, c⟩ k) chunk rest.flatten (by simp [up, hw, Writer.left])
    (by simp [up, hw]) ha
  simpa [up] using this

/-- The writer gives up what it has left. -/
theorem up_fails : Steps (up ⟨s, c⟩ k)
    (up ⟨s, { c with writer := .idle, failed := true }⟩ (k + (held c.writer).length)) :=
  (Step.giveUp (up ⟨s, c⟩ k)).then rfl ((Step.lose _ rfl).then rfl
    ((Step.discard _ rfl).last (by simp [up])))

theorem up_outSend (hs : ServerInv s) (hc : CliInv c)
    (hcl : s.closeReceived = true → c.closing = true) {chunk : Bytes} {rest : List Bytes}
    (hw : c.writer = .charged chunk rest) (ho : c.outOpen = true) :
    UpStep ⟨s, c⟩ ⟨s, { c with wire := c.wire ++ [.data chunk], writer := nextChunk rest }⟩ k := by
  have hf : c.failed = false := by
    rw [← Bool.not_eq_true]
    intro hf
    rcases hc.failed hf with h | h
    · rw [h] at ho; cases ho
    · exact h.2.2 chunk rest hw
  have hd : c.dropped = false := by
    rw [← Bool.not_eq_true]
    intro hd
    have := (hc.dropped hd).1
    rw [hw] at this
    cases this
  cases hk : s.known with
  | true =>
    refine .of_steps ((Step.put (up ⟨s, c⟩ k) (by simp [up, hf, ho, hd, hk])).last ?_)
    simp [up, hk, hw]
  | false =>
    refine ⟨k + chunk.length, (Step.lose (up ⟨s, c⟩ k) (by simp [up, hk])).last ?_, .inr ?_⟩
    · simp [up, hk, hw]
    · -- a stream forgotten without a reset has received the end, and the writer is done
      rintro ⟨hn, -⟩
      have hfin : s.finished = true := by simpa [hs.known] using hk
      rcases hs.finished_cause hfin with ⟨-, h⟩ | h | h
      · have := hc.closing (hcl h)
        simp [hw] at this
      · exact absurd hn.serverSent (by simp [h])
      · exact absurd hn.serverReceived (by simp [h])

theorem up_outSendClose (hc : CliInv c) (hw : c.writer = .closing) :
    Steps (up ⟨s, c⟩ k) (up ⟨s, { c with
      wire := c.wire ++ (if c.outOpen then [.close] else []), writer := .idle }⟩ k) := by
  have hidle : up ⟨s, { c with writer := .idle }⟩ k = up ⟨s, c⟩ k := by
    simp [up, hw]
  by_cases hlive : c.outOpen = true ∧ s.known = true
  · obtain ⟨ho, hk⟩ := hlive
    have hf : c.failed = false := by
      rw [← Bool.not_eq_true]
      intro hf
      rcases hc.failed hf with h | h
      · rw [h] at ho; cases ho
      · exact h.2.1 hw
    have hd : c.dropped = false := by
      rw [← Bool.not_eq_true]
      intro hd
      have := (hc.dropped hd).1
      rw [hw] at this
      cases this
    rw [← hidle]
    refine (Step.putFin (up ⟨s, { c with writer := .idle }⟩ k) (by simp [up, hf, ho, hd, hk])
      (hc.writer_closing hw) rfl rfl).last ?_
    simp [up, hk, ho]
  · rw [← hidle]
    simp only [not_and, Bool.not_eq_true] at hlive
    cases ho : c.outOpen with
    | false =>
      simp only [Bool.false_eq_true, if_false, List.append_nil]
      exact .refl
    | true =>
      simp only [up, hlive ho, if_true, Bool.false_eq_true, if_false]
      exact .refl

theorem up_cli (hs : ServerInv s) (hc : CliInv c) (hcl : s.closeReceived = true → c.closing = true)
    {e : CliEvent} {d : CliStream} (hst : CliStep c e d) : UpStep ⟨s, c⟩ ⟨s, d⟩ k := by
  cases hst with
  | send data hw hcg =>
    refine .of_steps ((Step.accept (up ⟨s, c⟩ k) data hcg).last ?_)
    simp [up, CliStream.send, hw, flatten_chunks (show 0 < CHUNK by decide)]
  | takeDead chunk rest hw =>
    refine .of_steps ?_
    simpa [hw] using up_fails (s := s) (c := c) (k := k)
  | takeClosed chunk rest hw hd ha hcd =>
    refine ⟨k + chunk.length, .head (up_take hw ha) up_fails, .inr fun h => ?_⟩
    exact absurd h.1.cliClosed (by simp [hcd])
  | take chunk rest hw hd ha => exact .of_steps (.single (up_take hw ha))
  | outSend chunk rest hw ho => exact up_outSend hs hc hcl hw ho
  | outSendFails chunk rest hw ho =>
    exact ⟨_, up_fails, .inr fun h => absurd h.1.outOpen (by simp [ho])⟩
  | outSendClose hw => exact .of_steps (up_outSendClose hc hw)
  | close hw =>
    refine .of_steps ((Step.close (up ⟨s, c⟩ k)).last ?_)
    unfold CliStream.close
    dsimp only
    split
    · rfl
    · split
      · rfl
      · simp [up, hw]
  | reset =>
    refine .of_steps ?_
    unfold CliStream.reset
    split <;> exact .refl
  | recv =>
    refine .of_steps ?_
    unfold CliStream.recv CliStream.ack
    dsimp only
    split
    · split <;> exact .refl
    · exact .refl
  | gotData | gotClose | gotReset | gotDatagram | gotNone | cancelRecv | closed =>
    exact .of_steps .refl
  | drop =>
    refine .of_steps ((Step.giveUp (up ⟨s, c⟩ k)).last ?_)
    unfold CliStream.drop
    dsimp only
    split <;> simp [up, CliStream.trySend]
  | datagram data =>
    refine .of_steps ?_
    unfold CliStream.sendDatagram
    split
    · exact .refl
    · rw [up_cliSend_none rfl]
  | spawned i frame h =>
    refine .of_steps ?_
    have hnone : frameItem frame = none := by
      rcases hc.spawned frame (List.mem_of_getElem? h) with rfl | ⟨n, rfl⟩ <;> rfl
    have : up ⟨s, { c with
        spawned := c.spawned.eraseIdx i, wire := c.wire ++ if c.outOpen then [frame] else [] }⟩ k =
        up ⟨s, c⟩ k := by
      by_cases ho : c.outOpen = true <;> simp [up, items, hnone, ho]
    exact this ▸ .refl
  | outClosed =>
    exact .of_steps ((Step.giveUp (up ⟨s, c⟩ k)).last (by simp [up]))
  | shutdown =>
    refine .of_steps ?_
    unfold CliStream.shutdown
    split <;> exact .refl

theorem up_toServer (hs : ServerInv s) (hi : Inv w (up ⟨s, c⟩ k)) {f : Frame} {rest : List Frame}
    (hw : c.wire = f :: rest) : UpStep ⟨s, c⟩ ⟨s.onFrame f, { c with wire := rest }⟩ k := by
  have hsame : frameItem f = none → up ⟨s, { c with wire := rest }⟩ k = up ⟨s, c⟩ k := by
    intro hf
    simp [up, hw, items, hf]
  unfold MuxStream.onFrame
  split
  · rename_i hk
    refine .of_steps ?_
    simp only [Bool.not_eq_true'] at hk
    simp only [up, hk]
    exact .refl
  · rename_i hk
    simp only [Bool.not_eq_true', Bool.not_eq_false] at hk
    have hf : s.finished = false := by simpa [hs.known] using hk
    have hd : s.destroyed = false := by
      rw [← Bool.not_eq_true]
      intro hd
      exact absurd (hs.destroyed hd) (by simp [hf])
    have hwire : (up ⟨s, c⟩ k).wire = items (f :: rest) := by simp [up, hk, hw]
    cases f with
    | data payload =>
      have harr := Step.arrive _ payload (items rest) hwire
      simp only [MuxStream.onData]
      split
      · rename_i hcr
        have hcr : s.closeReceived = true := by simpa [hf] using hcr
        have hnil : payload = [] := by
          have := up_over hi hcr hd
          rw [hwire, items_data, bytes_data, List.append_eq_nil_iff] at this
          exact this.1
        subst hnil
        refine .of_steps (harr.then rfl ((Step.skip _ (up ⟨s, c⟩ k).inbox [] rfl).last ?_))
        simp [up, hk]
      · rename_i hcr
        simp only [Bool.or_eq_true, not_or, Bool.not_eq_true] at hcr
        refine .of_steps (harr.last ?_)
        simp [up, hk, inbox, hcr.1]
    | close =>
      have harr := Step.arriveFin _ (items rest) hwire
      simp only [MuxStream.onClose]
      split
      · rename_i hcr
        refine .of_steps (harr.then rfl ((Step.mergeFin _ (up ⟨s, c⟩ k).inbox rfl ?_).last ?_))
        · cases he : s.endEmitted with
          | true => exact .inr he
          | false => exact .inl (by simp [up, inbox, hcr, he, hd])
        · simp [up, hk]
      · rename_i hcr
        simp only [Bool.not_eq_true] at hcr
        have he : s.endEmitted = false := by
          rw [← Bool.not_eq_true]
          intro he
          exact absurd (hs.endEmitted he) (by simp [hcr])
        let s' : MuxStream := { s with closeReceived := true }
        have hs' : ServerInv s' := { hs with
          finished_cause := fun h => absurd h (by simp [s', hf])
          acked := fun _ => .inr (.inl rfl)
          endEmitted := fun _ => rfl }
        have hsteps : Steps (up ⟨s, c⟩ k) (up ⟨s', { c with wire := rest }⟩ k) :=
          harr.last (by simp [up, hk, inbox, hcr, he, hd, s'])
        exact .of_steps (hsteps.trans (up_maybeFinish hs' (hi.steps hsteps)))
    | reset =>
      have := up_destroy (s := { s with resetReceived := true }) (c := { c with wire := rest })
        (k := k) { hs with finished_cause := fun _ => .inr (.inr rfl) } (by rw [← hsame rfl] at hi; exact hi)
      obtain ⟨k', hst, hl⟩ := this
      exact ⟨k', by rw [← hsame rfl]; exact hst, hl⟩
    | datagram payload =>
      refine .of_steps ?_
      rw [← hsame rfl]
    | windowUpdate n =>
      refine .of_steps ?_
      rw [← hsame rfl]
      exact .refl

theorem up_toCli (hc : CliInv c) {f : Frame} {rest : List Frame} (hw : s.wire = f :: rest) :
    UpStep ⟨s, c⟩ ⟨{ s with wire := rest }, c.onFrame f⟩ k := by
  have hacks : (up ⟨s, c⟩ k).acks = frameAmount f + updates rest := by simp [up, hw]
  have hsame : frameAmount f = 0 → up ⟨{ s with wire := rest }, c⟩ k = up ⟨s, c⟩ k := by
    intro hf
    simp [up, hw, hf, inbox]
  unfold CliStream.onFrame
  split
  · rename_i he
    refine ⟨k + frameAmount f, (Step.dropAck (up ⟨s, c⟩ k) (frameAmount f) (by omega)).last ?_,
      .inr ?_⟩
    · simp [up, hw, inbox]
    · rintro ⟨hn, hdr⟩
      rcases hc.entry (by simpa using he) with h | h
      · exact absurd hdr (by simp [h])
      · exact absurd hn.dead (by simp [h])
  · cases f with
    | windowUpdate n =>
      have hacks : (up ⟨s, c⟩ k).acks = n + updates rest := hacks
      refine .of_steps ((Step.grant (up ⟨s, c⟩ k) n (by omega)).last ?_)
      simp [up, hw, inbox]
    | _ =>
      refine .of_steps ?_
      rw [← hsame rfl]
      exact .refl

end Up

/-! ## Whole runs -/

/-- What every reachable stream keeps: each end its own invariant, and each direction
the invariant of a pipe that has lost nothing while the direction is live. -/
structure LinkInv (l : Link) : Prop where
  ends : EndsInv l
  closing : l.server.closeReceived = true → l.cli.closing = true
  down : ∃ k, Inv WINDOW_SIZE (down l k) ∧ (DownLive l → k = 0)
  up : ∃ k, Inv WINDOW (up l k) ∧ (UpLive l → k = 0)

theorem linkInv_init : LinkInv {} := by
  refine ⟨endsInv_init, nofun, ⟨0, ?_, fun _ => rfl⟩, ⟨0, ?_, fun _ => rfl⟩⟩
  · exact inv_fresh WINDOW_SIZE
  · exact inv_fresh WINDOW

theorem le_step {l l' : Link} {e : Event} (h : l.step e = some l') :
    ServerLe l.server l'.server ∧ CliLe l.cli l'.cli := by
  rcases step_cases h with ⟨s, ⟨a, hs⟩, rfl⟩ | ⟨c, ⟨a, hc⟩, rfl⟩ | ⟨f, rest, -, rfl⟩ |
    ⟨f, rest, -, rfl⟩
  · exact ⟨serverLe_step hs, id, id, id, id, id, id⟩
  · exact ⟨⟨id, id, id, id, id⟩, cliLe_step hc⟩
  · exact ⟨serverLe_onFrame _ f, id, id, id, id, id, id⟩
  · exact ⟨⟨id, id, id, id, id⟩, cliLe_onFrame _ f⟩

/-- What is live behind a step was live before it. -/
theorem NotReset.of_step {l l' : Link} {e : Event} (h : l.step e = some l') (hn : NotReset l') :
    NotReset l := by
  obtain ⟨hs, hc⟩ := le_step h
  exact ⟨hs.resetSent hn.serverSent, hs.resetReceived hn.serverReceived, hs.wsOpen hn.wsOpen,
    hs.closed hn.serverClosed, hc.resetSent hn.cliSent, hc.dead hn.dead, hc.closed hn.cliClosed,
    hc.outOpen hn.outOpen⟩

theorem DownLive.of_step {l l' : Link} {e : Event} (h : l.step e = some l') (hd : DownLive l') :
    DownLive l :=
  ⟨hd.1.of_step h, (le_step h).1.finished hd.2⟩

theorem UpLive.of_step {l l' : Link} {e : Event} (h : l.step e = some l') (hu : UpLive l') :
    UpLive l :=
  ⟨hu.1.of_step h, (le_step h).2.dropped hu.2⟩

/-- The stream takes a step, the pipe from the server to the CLI takes its steps. -/
theorem down_step {l l' : Link} {e : Event} {k w : Nat} (hI : EndsInv l)
    (hi : Inv w (down l k)) (h : l.step e = some l') : DownStep l l' k := by
  have hI' := endsInv_step hI h
  rcases step_cases h with ⟨s, ⟨a, hs⟩, rfl⟩ | ⟨c, ⟨a, hc⟩, rfl⟩ | ⟨f, rest, hw, rfl⟩ |
    ⟨f, rest, hw, rfl⟩
  · exact down_server hI.server hI.cli hi (serverStep_of_step hs)
  · exact down_cli hi (cliStep_of_step hc) hI'.cli
  · exact down_toServer hI.server hw
  · exact down_toCli hw

theorem up_step {l l' : Link} {e : Event} {k w : Nat} (hI : EndsInv l)
    (hcl : l.server.closeReceived = true → l.cli.closing = true)
    (hi : Inv w (up l k)) (h : l.step e = some l') : UpStep l l' k := by
  rcases step_cases h with ⟨s, ⟨a, hs⟩, rfl⟩ | ⟨c, ⟨a, hc⟩, rfl⟩ | ⟨f, rest, hw, rfl⟩ |
    ⟨f, rest, hw, rfl⟩
  · exact up_server hI.server hi (serverStep_of_step hs)
  · exact up_cli hI.server hI.cli hcl (cliStep_of_step hc)
  · exact up_toServer hI.server hi hw
  · exact up_toCli hI.cli hw

theorem closing_step {l l' : Link} {e : Event} (hI : LinkInv l) (h : l.step e = some l')
    (hc : l'.server.closeReceived = true) : l'.cli.closing = true := by
  rcases step_cases h with ⟨s, ⟨a, hs⟩, rfl⟩ | ⟨c, ⟨a, hst⟩, rfl⟩ | ⟨f, rest, hw, rfl⟩ |
    ⟨f, rest, -, rfl⟩
  · exact hI.closing ((closeReceived_step hs).symm.trans hc)
  · exact (cliLe_step hst).closing (hI.closing hc)
  · rcases closeReceived_onFrame hc with hc | ⟨hk, rfl⟩
    · exact hI.closing hc
    · obtain ⟨k, hi, -⟩ := hI.up
      exact (hi.fin (.inl (by simp [up, hk, hw]))).1
  · exact (cliLe_onFrame _ f).closing (hI.closing hc)

theorem linkInv_step {l l' : Link} {e : Event} (hI : LinkInv l) (h : l.step e = some l') :
    LinkInv l' := by
  refine ⟨endsInv_step hI.ends h, closing_step hI h, ?_, ?_⟩
  · obtain ⟨k, hi, hk⟩ := hI.down
    obtain ⟨k', hs, hl⟩ := down_step hI.ends hi h
    refine ⟨k', hi.steps hs, fun hd => ?_⟩
    rcases hl with rfl | hl
    · exact hk (hd.of_step h)
    · exact absurd hd hl
  · obtain ⟨k, hi, hk⟩ := hI.up
    obtain ⟨k', hs, hl⟩ := up_step hI.ends hI.closing hi h
    refine ⟨k', hi.steps hs, fun hu => ?_⟩
    rcases hl with rfl | hl
    · exact hk (hu.of_step h)
    · exact absurd hu hl

theorem linkInv {l : Link} (h : Reachable l) : LinkInv l :=
  h.invariant (fun _ hi => by cases hi; exact linkInv_init) fun _ _ _ hI _ hst => linkInv_step hI hst

end Tunlit.Mux.Simulation
