import Tunlit.Mux.Simulation

/-! # Flow control over both ends

The two ends acknowledge by different rules, the server when its read buffer wants more
and the CLI when it has read a quarter of the window. The credit is conserved all the
same as long as its sender is there to take it, and a sender that waits always gets
enough to go on. -/
namespace Tunlit.Mux.FlowControl
open Tunlit.Mux.Frames Tunlit.Mux.Server Tunlit.Mux.Cli Tunlit.Mux.System Tunlit.Mux.Ends
open Tunlit.Mux.Simulation Tunlit.Lib.CreditPipe Tunlit.Lib.Chunks Tunlit.Lib.Runs

/-! ## Behind the end of the stream -/

/-- The bytes in the DATA frames of some frames. -/
def payload (frames : List Frame) : Bytes := bytes (items frames)

@[simp, grind =] theorem payload_nil : payload [] = [] := rfl
@[simp, grind =] theorem payload_append (l m : List Frame) :
    payload (l ++ m) = payload l ++ payload m := by simp [payload]
@[simp, grind =] theorem payload_data (p : Bytes) (l : List Frame) :
    payload (.data p :: l) = p ++ payload l := rfl
@[simp, grind =] theorem payload_close (l : List Frame) : payload (.close :: l) = payload l := rfl
@[simp, grind =] theorem payload_windowUpdate (n : Nat) (l : List Frame) :
    payload (.windowUpdate n :: l) = payload l := rfl
@[simp, grind =] theorem payload_datagram (p : Bytes) (l : List Frame) :
    payload (.datagram p :: l) = payload l := rfl
@[simp, grind =] theorem payload_reset (l : List Frame) : payload (.reset :: l) = payload l := rfl

theorem payload_of_cons {f : Frame} {l : List Frame} (h : payload (f :: l) = []) :
    payload l = [] := by
  cases f <;> simp_all

theorem payload_flushWrites {s : MuxStream} (hs : ServerInv s) (hq : queued s.writeQueue = [])
    (buffered : Nat) : payload (s.flushWrites buffered).wire = payload s.wire := by
  unfold MuxStream.flushWrites
  split
  · rename_i item rest hq' hf
    split
    · rename_i piece hp
      rw [hq', queued_cons, remaining_some hp] at hq
      exact absurd (by simp_all) (hs.pieces item (by simp [hq']) piece (List.mem_of_getElem? hp)).1
    · rfl
  · simp only [MuxStream.sendClose, MuxStream.maybeFinish, MuxStream.send, MuxStream.forget]
    grind

/-- A server with nothing queued sends no byte. -/
theorem payload_serverStep {s t : MuxStream} {e : ServerEvent} (hs : ServerInv s)
    (hq : queued s.writeQueue = []) (h : s.step e = some t) : payload t.wire = payload s.wire := by
  cases serverStep_of_step h with
  | flush buffered => exact payload_flushWrites hs hq buffered
  | _ =>
    simp only [MuxStream.write, MuxStream.final, MuxStream.drain, MuxStream.drainEnd,
      MuxStream.read, MuxStream.consume, MuxStream.sendDatagram, MuxStream.onSocketClose,
      MuxStream.destroy, MuxStream.send, MuxStream.forget] <;> grind

theorem payload_onFrame (s : MuxStream) (f : Frame) :
    payload (s.onFrame f).wire = payload s.wire := by
  simp only [MuxStream.onFrame, MuxStream.onData, MuxStream.onClose, MuxStream.onReset,
    MuxStream.onWindowUpdate, MuxStream.destroy, MuxStream.maybeFinish, MuxStream.send,
    MuxStream.forget]
  grind

/-- A CLI that has called `close` sends no byte. -/
theorem payload_cliStep {c d : CliStream} {e : CliEvent} (hc : CliInv c)
    (hcl : c.closing = true) (h : c.step e = some d) : payload d.wire = payload c.wire := by
  cases cliStep_of_step h with
  | outSend chunk rest hw =>
    have := hc.closing hcl
    simp [hw] at this
  | spawned i frame hi =>
    rcases hc.spawned frame (List.mem_of_getElem? hi) with rfl | ⟨n, rfl⟩ <;> grind
  | _ =>
    simp only [CliStream.send, CliStream.close, CliStream.reset, CliStream.recv, CliStream.ack,
      CliStream.drop, CliStream.sendDatagram, CliStream.shutdown, CliStream.trySend] <;> grind

/-- Once an end has seen the other's CLOSE, no byte is on its way to it. -/
structure Quiet (l : Link) : Prop where
  up : l.server.closeReceived = true → payload l.cli.wire = []
  down : NotReset l → l.cli.sawClose = true → payload l.server.wire = []

/-- The CLI keeps its entry until the stream is reset or its handles are dropped. -/
theorem entry_of_notReset {l : Link} (hc : CliInv l.cli) (hn : NotReset l)
    (hd : l.cli.dropped = false) : l.cli.entry = true := by
  cases he : l.cli.entry with
  | true => rfl
  | false =>
    rcases hc.entry he with h | h
    · exact hd.symm.trans h
    · exact hn.dead.symm.trans h

theorem quiet_up {l l' : Link} {e : Event} (hI : LinkInv l) (hq : Quiet l)
    (h : l.step e = some l') (hc : l'.server.closeReceived = true) : payload l'.cli.wire = [] := by
  rcases step_cases h with ⟨s, ⟨a, hs⟩, rfl⟩ | ⟨c, ⟨a, hst⟩, rfl⟩ | ⟨f, rest, hw, rfl⟩ |
    ⟨f, rest, -, rfl⟩
  · exact hq.up ((closeReceived_step hs).symm.trans hc)
  · exact (payload_cliStep hI.ends.cli (hI.closing hc) hst).trans (hq.up hc)
  · rcases closeReceived_onFrame hc with hc | ⟨hk, rfl⟩
    · exact payload_of_cons (hw ▸ hq.up hc)
    · obtain ⟨k, hi, -⟩ := hI.up
      have ht : Tidy ((inbox l.server ++ [.fin]) ++ items rest) := by
        simpa [up, hk, hw] using hi.tidy
      exact ht.bytes_right (by simp)
  · have hw : (l.cli.onFrame f).wire = l.cli.wire := by
      simp only [CliStream.onFrame]
      grind
    rw [hw]
    exact hq.up hc

theorem quiet_down {l l' : Link} {e : Event} (hI : LinkInv l) (hq : Quiet l)
    (h : l.step e = some l') (hn : NotReset l') (hc : l'.cli.sawClose = true) :
    payload l'.server.wire = [] := by
  have hn' := hn.of_step h
  obtain ⟨k, hi, -⟩ := hI.down
  rcases step_cases h with ⟨s, ⟨a, hs⟩, rfl⟩ | ⟨c, ⟨a, hst⟩, rfl⟩ | ⟨f, rest, -, rfl⟩ |
    ⟨f, rest, hw, rfl⟩
  · have hempty : queued l.server.writeQueue = [] := (hi.fin (.inr hc)).2.2.2
    exact (payload_serverStep hI.ends.server hempty hs).trans (hq.down hn' hc)
  · cases hsaw : l.cli.sawClose with
    | true => exact hq.down hn' hsaw
    | false =>
      -- the CLOSE was in the queue, and the CLI still had its entry
      have hrx : ∃ rest, l.cli.rx = .close :: rest := by
        have := cliStep_of_step hst
        cases this <;> simp_all [CliStream.send, CliStream.close, CliStream.reset, CliStream.recv,
          CliStream.ack, CliStream.drop, CliStream.sendDatagram, CliStream.shutdown,
          CliStream.trySend] <;> grind
      obtain ⟨rest, hrx⟩ := hrx
      have hd : l.cli.dropped = false := by
        rw [← Bool.not_eq_true]
        intro hd
        have := (hI.ends.cli.dropped hd).2.1
        simp [hrx] at this
      have he := entry_of_notReset hI.ends.cli hn' hd
      have ht : Tidy (rxItems l.cli.rx ++ items l.server.wire) := by
        simpa [down, he] using hi.tidy
      exact ht.bytes_right (by simp [hrx])
  · exact (payload_onFrame _ f).trans (hq.down hn' hc)
  · have hsaw : (l.cli.onFrame f).sawClose = l.cli.sawClose := by
      simp only [CliStream.onFrame]
      grind
    exact payload_of_cons (hw ▸ hq.down hn' (hsaw.symm.trans hc))

theorem quiet {l : Link} (h : Reachable l) : Quiet l :=
  h.invariant_of (fun _ => linkInv) (fun _ hi => by cases hi; exact ⟨nofun, nofun⟩)
    fun _ _ _ hI hq _ hst => ⟨quiet_up hI hq hst, quiet_down hI hq hst⟩

/-! ## The credit is conserved -/

/-- Bytes from the server that it has charged and whose credit has not come back: on the
way, in the CLI's queue, read and not acknowledged, or acknowledged on the way back. -/
def downUnacknowledged (l : Link) : Nat :=
  (payload l.server.wire).length + ((bytes (rxItems l.cli.rx)).length + l.cli.unacked) +
    (updates l.cli.wire + updates l.cli.spawned)

/-- The same for the bytes from the CLI. -/
def upUnacknowledged (l : Link) : Nat :=
  ((held l.cli.writer).length + (payload l.cli.wire).length) + l.server.pendingUpdate +
    updates l.server.wire

theorem down_conserved {l : Link} (h : Reachable l) (hl : DownLive l) :
    l.server.sendWindow + downUnacknowledged l = WINDOW_SIZE := by
  have hI := linkInv h
  obtain ⟨k, hi, hk⟩ := hI.down
  have hwire : bytes (down l k).wire = payload l.server.wire := by
    cases he : l.cli.entry with
    | true => simp [down, he, payload]
    | false =>
      have hsaw : l.cli.sawClose = true := by
        rw [← Bool.not_eq_false]
        exact fun hsaw => not_live_of_entry hI.ends.cli he hsaw hl.1
      simp [down, he, (quiet h).down hl.1 hsaw]
  have := hi.conserved
  rw [hwire] at this
  simp only [down, hk hl, List.length_nil, downUnacknowledged] at this ⊢
  omega

theorem up_conserved {l : Link} (h : Reachable l) (hl : UpLive l) :
    l.cli.available + upUnacknowledged l = WINDOW := by
  have hI := linkInv h
  obtain ⟨k, hi, hk⟩ := hI.up
  have hwire : bytes (up l k).wire = payload l.cli.wire := by
    cases hkn : l.server.known with
    | true => simp [up, hkn, payload]
    | false =>
      have hf : l.server.finished = true := by simpa [hI.ends.server.known] using hkn
      rcases hI.ends.server.finished_cause hf with ⟨-, hc⟩ | hr | hr
      · simp [up, hkn, (quiet h).up hc]
      · exact absurd hl.1.serverSent (by simp [hr])
      · exact absurd hl.1.serverReceived (by simp [hr])
  have := hi.conserved
  rw [hwire] at this
  simp only [up, hk hl, upUnacknowledged] at this ⊢
  omega

/-- Reset or not, neither credit is ever negative or above the window. -/
theorem credit_bounds {l : Link} (h : Reachable l) :
    (0 ≤ l.server.sendWindow ∧ l.server.sendWindow ≤ WINDOW_SIZE) ∧
      0 ≤ l.cli.available ∧ l.cli.available ≤ WINDOW := by
  obtain ⟨k, hd, -⟩ := (linkInv h).down
  obtain ⟨m, hu, -⟩ := (linkInv h).up
  have hdc := hd.conserved
  have huc := hu.conserved
  have hdn := hd.credit_nonneg
  have hun := hu.credit_nonneg
  simp only [down] at hdc hdn
  simp only [up] at huc hun
  omega

theorem amount_le_updates {n : Nat} {frames : List Frame} (h : .windowUpdate n ∈ frames) :
    n ≤ updates frames := by
  obtain ⟨l, m, rfl⟩ := List.append_of_mem h
  simp only [updates_append, updates_cons, frameAmount_windowUpdate]
  omega

/-- Every amount that is sent fits the four bytes of its frame, so what `encode` writes
is read back (`ofDecoded_encode`). -/
theorem amounts_fit {l : Link} (h : Reachable l) {n : Nat}
    (hn : .windowUpdate n ∈ l.server.wire ∨ .windowUpdate n ∈ l.cli.wire) : n < 2 ^ 32 := by
  obtain ⟨k, hd, -⟩ := (linkInv h).down
  obtain ⟨m, hu, -⟩ := (linkInv h).up
  have hdc := hd.conserved
  have huc := hu.conserved
  have hdn := hd.credit_nonneg
  have hun := hu.credit_nonneg
  simp only [down, WINDOW_SIZE] at hdc hdn
  simp only [up, WINDOW] at huc hun
  rcases hn with hn | hn
  · have := amount_le_updates hn
    omega
  · have := amount_le_updates hn
    omega

/-! ## A sender that waits gets on -/

/-- No frame is on the connection or about to be put on it. -/
structure NoFrames (l : Link) : Prop where
  server : l.server.wire = []
  cli : l.cli.wire = []
  spawned : l.cli.spawned = []

/-- The CLI is at the await of `recv` and its queue is empty. -/
def CliWaits (l : Link) : Prop := l.cli.receiving = true ∧ l.cli.rx = []

def readableLength (s : MuxStream) : Nat := (s.readable.map List.length).sum

/-- The server's read buffer is below its mark, and Node has called `_read` since the
last push if it is. -/
structure ServerWaits (l : Link) : Prop where
  below : readableLength l.server < READABLE_HIGH_WATER
  node : readableLength l.server < READABLE_HIGH_WATER → l.server.pushed = false

/-- The server, idle with something queued, sends it at the next drain tick. -/
def DownProgress (l : Link) : Prop :=
  (CHUNK_SIZE : Int) ≤ l.server.sendWindow ∧
    (l.server.stack = [] → l.server.writeQueue ≠ [] → ∀ buffered ≤ WS_HIGH_WATER, ∃ l' piece,
      piece ≠ [] ∧ l'.server.wire = [.data piece] ∧
      machine.exec l [.server (.drain buffered), .server (.turn buffered)] = some l')

/-- The CLI's writer, waiting in `take`, takes its credit and sends. -/
def UpProgress (l : Link) : Prop :=
  ∀ chunk rest, l.cli.writer = .taking chunk rest → ∃ l',
    l'.cli.wire = [.data chunk] ∧ machine.exec l [.cli .take, .cli .outSend] = some l'

theorem down_progress {l : Link} (h : Reachable l) (hl : DownLive l) (hn : NoFrames l)
    (hw : CliWaits l) : DownProgress l := by
  obtain ⟨hs, hb, hc⟩ := (linkInv h).ends
  have hunacked : l.cli.unacked < ACK_THRESHOLD :=
    (hc.receiving hw.1).resolve_right (by simp [hl.1.dead])
  have hcredit : (CHUNK_SIZE : Int) ≤ l.server.sendWindow := by
    have := down_conserved h hl
    simp only [downUnacknowledged, hn.server, hn.cli, hn.spawned, hw.2, payload_nil, rxItems_nil,
      bytes_nil, updates_nil, List.length_nil] at this
    simp only [WINDOW_SIZE, CHUNK_SIZE, ACK_THRESHOLD] at *
    omega
  refine ⟨hcredit, fun hst hq buffered hle => ?_⟩
  have hwait : l.server.waitingForDrain = true := (hs.resumed hq).resolve_right (by simp [hst])
  have htimer : l.server.drainTimer = true :=
    (hs.timer hwait).resolve_right (by simp [hl.1.serverClosed])
  obtain ⟨item, rest, hq'⟩ := List.exists_cons_of_ne_nil hq
  have hlt := hb (by simp [hst]) item (by simp [hq'])
  have hpiece := hs.pieces item (by simp [hq']) _ (List.getElem_mem hlt)
  let s : MuxStream := { l.server with waitingForDrain := false, stack := [.flushWrites, .drain] }
  refine ⟨{ l with server := s.flushWrites buffered }, item.pieces[item.index], hpiece.1, ?_, ?_⟩
  · have hcr : ¬ l.server.sendWindow < item.pieces[item.index].length := by omega
    have hf : l.server.finished = false := hl.2
    simp [s, MuxStream.flushWrites, hq', hf, hlt, hcr, Nat.not_lt.mpr hle, MuxStream.send,
      MuxStream.sending, hl.1.serverClosed, hl.1.wsOpen, hn.server]
  · have hdrain : l.server.step (.drain buffered) = some s := by
      simp [MuxStream.step, MuxStream.drain, hst, htimer, hwait, Nat.not_lt.mpr hle, s]
    rw [Machine.exec_cons (t := { l with server := s })
      (by simp only [machine, Link.step, hdrain, Option.map_some])]
    rfl

theorem up_progress {l : Link} (h : Reachable l) (hr : NotReset l) (hn : NoFrames l)
    (hw : ServerWaits l) : UpProgress l := by
  intro chunk rest hwr
  have hI := linkInv h
  obtain ⟨hs, -, hc⟩ := hI.ends
  have hd : l.cli.dropped = false := by
    rw [← Bool.not_eq_true]
    intro hd
    have := (hc.dropped hd).1
    simp [hwr] at this
  -- the writer is not done, so the server has not seen a CLOSE
  have hcr : l.server.closeReceived = false := by
    rw [← Bool.not_eq_true]
    intro hcr
    have := hc.closing (hI.closing hcr)
    simp [hwr] at this
  have hf : l.server.finished = false := by
    rw [← Bool.not_eq_true]
    intro hf
    have := hs.finished_cause hf
    simp [hcr, hr.serverSent, hr.serverReceived] at this
  have hpend : l.server.pendingUpdate = 0 := by
    simpa [hcr, hf] using hs.acked (hw.node hw.below)
  have hcredit : l.cli.available = WINDOW := by
    have := up_conserved h ⟨hr, hd⟩
    simpa [upUnacknowledged, hn.server, hn.cli, hwr, hpend] using this
  have hlen : chunk.length ≤ CHUNK := (hc.left chunk (by simp [hwr])).2
  have hle : (chunk.length : Int) ≤ l.cli.available := by
    simp only [hcredit, WINDOW, CHUNK] at *
    omega
  let c : CliStream := { l.cli with
    available := l.cli.available - chunk.length, writer := .charged chunk rest }
  let d : CliStream := { c with wire := c.wire ++ [.data chunk], writer := nextChunk rest }
  have htake : l.cli.step .take = some c := by
    simp [CliStream.step, CliStream.take, hwr, hr.dead, hle, hr.cliClosed, c]
  have hout : c.step .outSend = some d := by
    simp [CliStream.step, CliStream.outSend, hr.outOpen, c, d]
  refine ⟨{ l with cli := d }, by simp [c, d, hn.cli], ?_⟩
  rw [Machine.exec_cons (t := { l with cli := c })
    (by simp only [machine, Link.step, htake, Option.map_some]),
    Machine.exec_cons (t := { l with cli := d })
    (by simp only [machine, Link.step, hout, Option.map_some]), Machine.exec]

/-- Flow control of a stream: in both directions the credit is conserved while its sender
is there, it stays in its bounds in any case, and no sender is stuck for want of it. -/
theorem flow_control {l : Link} (h : Reachable l) :
    (DownLive l → l.server.sendWindow + downUnacknowledged l = WINDOW_SIZE) ∧
    (UpLive l → l.cli.available + upUnacknowledged l = WINDOW) ∧
    ((0 ≤ l.server.sendWindow ∧ l.server.sendWindow ≤ WINDOW_SIZE) ∧
      0 ≤ l.cli.available ∧ l.cli.available ≤ WINDOW) ∧
    (DownLive l → NoFrames l → CliWaits l → DownProgress l) ∧
    (NotReset l → NoFrames l → ServerWaits l → UpProgress l) :=
  ⟨down_conserved h, up_conserved h, credit_bounds h, down_progress h, up_progress h⟩

/-- A server held up by the socket and a CLI about to send. -/
def waiting : Link where
  server := { writeQueue := [⟨[[1, 2, 3]], 0, 1⟩], waitingForDrain := true, drainTimer := true
              written := [1, 2, 3], writes := 1 }
  cli := { receiving := true, writer := .taking [7] [], written := [7] }

theorem waiting_reachable : Reachable waiting := by
  have hp : MuxStream.piecesFrom [1, 2, 3] 0 = [[1, 2, 3]] := by
    rw [piecesFrom_eq, List.drop_zero, chunks_of_le (by decide) (by decide)]
  have hc : chunks CHUNK [(7 : UInt8)] = [[7]] := chunks_of_le (by decide) (by decide)
  have h := Machine.Reachable.init (M := machine) rfl
  exact h.exec [.server (.write [1, 2, 3]), .server (.turn (WS_HIGH_WATER + 1)),
    .cli .recv, .cli (.send [7])] (by
    simp [machine, Machine.exec, Link.step, MuxStream.step, MuxStream.idle, MuxStream.write, hp,
      MuxStream.flushWrites, MuxStream.wantDrain, CliStream.step, CliStream.recv, CliStream.send,
      hc, nextChunk, waiting, ACK_THRESHOLD])

theorem flow_control_waiting :
    (waiting.server.sendWindow + downUnacknowledged waiting = WINDOW_SIZE ∧
      waiting.cli.available + upUnacknowledged waiting = WINDOW) ∧
      DownProgress waiting ∧ UpProgress waiting := by
  obtain ⟨hd, hu, -, hdp, hup⟩ := flow_control waiting_reachable
  have hn : NotReset waiting := by constructor <;> rfl
  have hf : NoFrames waiting := by constructor <;> rfl
  exact ⟨⟨hd ⟨hn, rfl⟩, hu ⟨hn, rfl⟩⟩, hdp ⟨hn, rfl⟩ hf ⟨rfl, rfl⟩,
    hup hn hf ⟨by decide, fun _ => rfl⟩⟩

/-! ## Where the credit is not conserved -/

/-- With enough credit one call of `_flushWrites` sends all pieces of an item. -/
theorem exec_turns {pieces : List Bytes} (c : CliStream) {buffered : Nat}
    (hb : buffered ≤ WS_HIGH_WATER) :
    ∀ (s : MuxStream) (item : WriteItem) (rest : List WriteItem) (calls : List Call),
      s.stack = .flushWrites :: calls → s.writeQueue = item :: rest → s.finished = false →
      s.sending = true → item.pieces.drop item.index = pieces →
      (pieces.flatten.length : Int) ≤ s.sendWindow →
      machine.exec ⟨s, c⟩ (List.replicate pieces.length (.server (.turn buffered))) =
        some ⟨{ s with
          sendWindow := s.sendWindow - pieces.flatten.length
          wire := s.wire ++ pieces.map .data
          writeQueue := { item with index := item.index + pieces.length } :: rest }, c⟩ := by
  induction pieces with
  | nil =>
    intro s item rest calls _ hq _ _ _ _
    simp [Machine.exec, ← hq]
  | cons piece pieces ih =>
    intro s item rest calls hst hq hf hs hd hc
    have hi : item.index < item.pieces.length := by
      rw [← Nat.not_le]
      intro hle
      rw [List.drop_of_length_le hle] at hd
      cases hd
    rw [List.drop_eq_getElem_cons hi, List.cons.injEq] at hd
    simp only [List.flatten_cons, List.length_append, Int.natCast_add] at hc
    let t : MuxStream := { s with
      sendWindow := s.sendWindow - piece.length
      wire := s.wire ++ [.data piece]
      writeQueue := { item with index := item.index + 1 } :: rest }
    have hcr : ¬ s.sendWindow < piece.length := by omega
    have hturn : s.step (.turn buffered) = some t := by
      simp only [MuxStream.sending] at hs
      simp [MuxStream.step, hst, MuxStream.flushWrites, hq, hf, hi, hd.1, hcr, Nat.not_lt.mpr hb,
        MuxStream.send, MuxStream.sending, hs, t]
    rw [List.length_cons, List.replicate_succ, Machine.exec_cons (t := ⟨t, c⟩)
      (by simp only [machine, Link.step, hturn, Option.map_some]),
      ih t { item with index := item.index + 1 } rest calls hst rfl hf hs hd.2
        (by simp only [t]; omega)]
    simp [t, Int.sub_sub, Nat.add_assoc, Nat.add_comm 1]

/-- The CLI reads its queue, and acknowledges nothing below the threshold. -/
theorem exec_recvs (s : MuxStream) {ds : List Bytes} {rest : List Incoming} :
    ∀ c : CliStream, c.receiving = false → c.dropped = false → c.rx = ds.map .data ++ rest →
      (∀ k < ds.length, c.unacked + (ds.take k).flatten.length < ACK_THRESHOLD) →
      machine.exec ⟨s, c⟩ (ds.flatMap fun _ => [.cli .recv, .cli .received]) =
        some ⟨s, { c with
          rx := rest
          unacked := c.unacked + ds.flatten.length
          received := c.received ++ ds.flatten }⟩ := by
  induction ds with
  | nil =>
    intro c _ _ hx _
    simp at hx
    simp [Machine.exec, ← hx]
  | cons d ds ih =>
    intro c hr hd hx hk
    have h0 : ¬ ACK_THRESHOLD ≤ c.unacked := by
      have := hk 0 (by simp)
      simp at this
      omega
    have hrecv : c.step .recv = some { c with receiving := true } := by
      simp [CliStream.step, CliStream.recv, hr, hd, h0]
    let e : CliStream := { c with
      rx := ds.map .data ++ rest, unacked := c.unacked + d.length, received := c.received ++ d }
    have hgot : { c with receiving := true }.step .received = some e := by
      simp [CliStream.step, CliStream.received?, hx, e, hr]
    rw [List.flatMap_cons, List.cons_append, List.cons_append, List.nil_append,
      Machine.exec_cons (t := ⟨s, { c with receiving := true }⟩)
        (by simp only [machine, Link.step, hrecv, Option.map_some]),
      Machine.exec_cons (t := ⟨s, e⟩) (by simp only [machine, Link.step, hgot, Option.map_some]),
      ih e hr hd rfl ?_]
    · simp [e, Nat.add_assoc]
    · intro k hlt
      have := hk (k + 1) (by simpa using hlt)
      simp only [List.take_succ_cons, List.flatten_cons, List.length_append] at this
      simp only [e]
      omega

/-- A server that has exchanged CLOSE with the CLI has forgotten the stream. What the CLI
reads and acknowledges after that never becomes credit, although nothing was reset. -/
theorem late_ack {a b c d : Bytes} (ha : a.length = CHUNK_SIZE) (hb : b.length = CHUNK_SIZE)
    (hc : c.length = CHUNK_SIZE) (hd : d.length = CHUNK_SIZE) :
    ∃ l, Reachable l ∧ NotReset l ∧
      l.server.sendWindow + downUnacknowledged l ≠ WINDOW_SIZE := by
  let data := [a, b, c, d].flatten
  have hp : MuxStream.piecesFrom data 0 = [a, b, c, d] := by
    rw [piecesFrom_eq, List.drop_zero, chunks_flatten (by decide) (by simp [ha, hb, hc, hd])]
  have h := Machine.Reachable.init (M := machine) rfl
  have h := h.step (e := .server (.write data)) (t := ⟨{
      writeQueue := [⟨[a, b, c, d], 0, 1⟩], stack := [.flushWrites], written := data, writes := 1 }, {}⟩)
    (by simp [machine, Link.step, MuxStream.step, MuxStream.idle, MuxStream.write, hp])
  have h := h.exec _ (exec_turns _ (Nat.zero_le _) _ _ _ _ rfl rfl rfl rfl rfl
    (by simp [ha, hb, hc, hd, CHUNK_SIZE, WINDOW_SIZE]))
  have h := h.exec (t := ⟨{
      sendWindow := WINDOW_SIZE - data.length
      wire := [a, b, c, d].map .data, written := data, writes := 1, called := [1] }, {}⟩)
    [.server (.turn 0), .server .return, .server (.turn 0)] rfl
  have h := h.exec (t := ⟨{
      sendWindow := WINDOW_SIZE - data.length, closeSent := true, ending := true
      wire := [a, b, c, d].map .data ++ [.close], written := data, writes := 1, called := [1] }, {}⟩)
    [.server .final, .server (.turn 0), .server .return] rfl
  have h := h.exec (t := ⟨{
      sendWindow := WINDOW_SIZE - data.length, closeSent := true
      closeReceived := true, finished := true, known := false, ending := true
      wire := [a, b, c, d].map .data ++ [.close], written := data, writes := 1, called := [1] },
    { closeSent := true, closing := true }⟩)
    [.cli .close, .cli .outSend, .toServer] rfl
  have h := h.exec (t := ⟨{
      sendWindow := WINDOW_SIZE - data.length, closeSent := true
      closeReceived := true, finished := true, known := false, ending := true
      written := data, writes := 1, called := [1] },
    { closeSent := true, closing := true, rx := [a, b, c, d].map .data ++ [.close] }⟩)
    [.toCli, .toCli, .toCli, .toCli, .toCli] rfl
  have h := h.exec _ (exec_recvs _ _ rfl rfl rfl (by
    intro k hk
    have hk : k < 4 := hk
    obtain rfl | rfl | rfl | rfl : k = 0 ∨ k = 1 ∨ k = 2 ∨ k = 3 := by omega
    all_goals simp [ha, hb, hc, CHUNK_SIZE, ACK_THRESHOLD]))
  have h := h.exec (t := ⟨{
      sendWindow := WINDOW_SIZE - data.length, closeSent := true
      closeReceived := true, finished := true, known := false, ending := true
      written := data, writes := 1, called := [1] },
    { closeSent := true, closing := true, rx := [.close], receiving := true
      received := [a, b, c, d].flatten }⟩)
    [.cli .recv, .cli (.spawned 0), .toServer] (by
      simp [machine, Machine.exec, Link.step, Link.toServer, CliStream.step, CliStream.recv,
        CliStream.ack, CliStream.trySend, CliStream.runSpawned, MuxStream.onFrame, ha, hb, hc, hd,
        CHUNK_SIZE, ACK_THRESHOLD])
  refine ⟨_, h, ?_, ?_⟩
  · constructor <;> rfl
  · simp [downUnacknowledged, Item.bytes, data, ha, hb, hc, hd, CHUNK_SIZE, WINDOW_SIZE]

theorem conserved_not_always :
    ¬ ∀ l, Reachable l → NotReset l →
      l.server.sendWindow + downUnacknowledged l = WINDOW_SIZE := by
  intro h
  have hlen : (List.replicate CHUNK_SIZE (0 : UInt8)).length = CHUNK_SIZE :=
    List.length_replicate ..
  obtain ⟨l, hl, hn, hne⟩ := late_ack hlen hlen hlen hlen
  exact hne (h l hl hn)

end Tunlit.Mux.FlowControl
