import Tunlit.Mux.System

/-! # What each end keeps by itself

Two invariants of one end each, which need nothing of the other end: the bookkeeping
flags agree, and a writer that is not done is always about to be resumed. -/
namespace Tunlit.Mux.Ends
open Tunlit.Mux.Frames Tunlit.Mux.Server Tunlit.Mux.Cli Tunlit.Mux.System Tunlit.Lib.Chunks

/-! ## The server's end -/

structure ServerInv (s : MuxStream) : Prop where
  pieces : ∀ item ∈ s.writeQueue, ∀ piece ∈ item.pieces, piece ≠ [] ∧ piece.length ≤ CHUNK_SIZE
  known : s.known = !s.finished
  finished_queue : s.finished = true → s.writeQueue = []
  closeSent : s.closeSent = true → s.ending = true ∧ s.writeQueue = []
  finalCallback : s.finalCallback = true → s.ending = true
  finished_cause : s.finished = true →
    s.closeSent = true ∧ s.closeReceived = true ∨ s.resetSent = true ∨ s.resetReceived = true
  destroyed : s.destroyed = true → s.finished = true
  acked : s.pushed = false → s.pendingUpdate = 0 ∨ s.closeReceived = true ∨ s.finished = true
  resumed : s.writeQueue ≠ [] → s.waitingForDrain = true ∨ .flushWrites ∈ s.stack
  timer : s.waitingForDrain = true → s.drainTimer = true ∨ s.closed = true
  endEmitted : s.endEmitted = true → s.closeReceived = true

theorem serverInv_init : ServerInv {} := by
  constructor <;> simp

namespace ServerInv

variable {s t : MuxStream}

theorem send (h : ServerInv s) (frame : Frame) : ServerInv (s.send frame) := { h with }

theorem maybeFinish (h : ServerInv s) (hq : s.writeQueue = []) : ServerInv s.maybeFinish := by
  unfold MuxStream.maybeFinish
  split
  · rename_i hc
    simp only [Bool.and_eq_true] at hc
    exact { h with
      known := rfl
      finished_queue := fun _ => hq
      finished_cause := fun _ => .inl hc.1
      destroyed := fun _ => rfl
      acked := fun _ => .inr (.inr rfl) }
  · exact h

theorem sendClose (h : ServerInv s) (he : s.ending = true) (hq : s.writeQueue = []) :
    ServerInv s.sendClose := by
  unfold MuxStream.sendClose
  split
  · exact h
  · rename_i hc
    have hs : ServerInv { s with closeSent := true } :=
      { h with
        closeSent := fun _ => ⟨he, hq⟩
        finished_cause := fun hf => by simp_all }
    exact (hs.send .close).maybeFinish hq

theorem read (h : ServerInv s) : ServerInv s.read := by
  unfold MuxStream.read
  dsimp only
  split
  · exact { h with acked := fun _ => .inl rfl }
  · rename_i hc
    refine { h with acked := fun _ => ?_ }
    simp only [Bool.and_eq_true, decide_eq_true_eq, Bool.not_eq_true'] at hc
    by_cases hp : 0 < s.pendingUpdate
    · cases hf : s.finished
      · cases hr : s.closeReceived
        · exact absurd ⟨⟨hp, hf⟩, hr⟩ hc
        · exact .inr (.inl rfl)
      · exact .inr (.inr rfl)
    · exact .inl (by simp only; omega)

theorem write (h : ServerInv s) (he : s.ending = false) (chunk : Bytes) :
    ServerInv (s.write chunk) := by
  unfold MuxStream.write
  dsimp only
  split
  · exact { h with resumed := fun hq => (h.resumed hq).imp_right (List.mem_cons_of_mem _) }
  · rename_i hf
    have hcs : s.closeSent = false := by
      cases hc : s.closeSent
      · rfl
      · rw [(h.closeSent hc).1] at he; cases he
    refine { h with
      pieces := ?_
      finished_queue := fun hf' => absurd hf' hf
      closeSent := fun hc => absurd (hcs.symm.trans hc) (by decide)
      resumed := fun _ => .inr (List.mem_cons_self ..) }
    intro item hi
    simp only [List.mem_append, List.mem_singleton] at hi
    rcases hi with hi | rfl
    · exact h.pieces item hi
    · exact fun piece hp => mem_piecesFrom hp

theorem final (h : ServerInv s) : ServerInv s.final := by
  unfold MuxStream.final
  dsimp only
  split
  · exact { h with
      closeSent := fun hc => ⟨rfl, (h.closeSent hc).2⟩
      finalCallback := fun _ => rfl
      resumed := fun hq => (h.resumed hq).imp_right (List.mem_cons_of_mem _) }
  · exact { h with
      closeSent := fun hc => ⟨rfl, (h.closeSent hc).2⟩
      finalCallback := fun _ => rfl
      resumed := fun _ => .inr (List.mem_cons_self ..) }

theorem flushWrites (h : ServerInv s) {rest : List Call} (hst : s.stack = .flushWrites :: rest)
    (buffered : Nat) : ServerInv (s.flushWrites buffered) := by
  unfold MuxStream.flushWrites
  split
  · rename_i item rest' hq hf
    have hcs : s.closeSent = false := by
      cases hc : s.closeSent
      · rfl
      · rw [(h.closeSent hc).2] at hq; cases hq
    split
    · rename_i piece hp
      split
      · exact { h with resumed := fun _ => .inl rfl, timer := fun _ => .inl rfl }
      · refine { h with
          pieces := ?_
          finished_queue := fun hf' => absurd (hf.symm.trans hf') (by decide)
          closeSent := fun hc => absurd (hcs.symm.trans hc) (by decide)
          resumed := fun _ => .inr (show Call.flushWrites ∈ s.stack by simp [hst]) }
        intro i hi
        rcases List.mem_cons.mp hi with rfl | hi
        · exact h.pieces item (by simp [hq])
        · exact h.pieces i (by simp [hq, hi])
    · exact { h with
        pieces := fun i hi => h.pieces i (by simp [hq, hi])
        finished_queue := fun hf' => absurd (hf.symm.trans hf') (by decide)
        closeSent := fun hc => absurd (hcs.symm.trans hc) (by decide)
        resumed := fun _ => .inr (List.mem_cons_of_mem _ (by simp [hst])) }
  · rename_i hnot
    have hq : s.writeQueue = [] := by
      cases hf : s.finished with
      | true => exact h.finished_queue hf
      | false =>
        cases hq : s.writeQueue with
        | nil => rfl
        | cons item rest' => exact absurd hf (hnot item rest' hq)
    split
    · rename_i hc
      simp only [Bool.and_eq_true] at hc
      have hs : ServerInv { s with finalCallback := false, stack := .callback :: s.stack.tail } :=
        { h with finalCallback := nofun, resumed := fun hn => absurd hq hn }
      exact hs.sendClose (h.finalCallback hc.2) hq
    · exact { h with resumed := fun hn => absurd hq hn }

theorem destroy (h : ServerInv s) : ServerInv s.destroy := by
  unfold MuxStream.destroy
  split
  · exact h
  · dsimp only
    split
    · exact { h with
        pieces := by simp
        finished_queue := fun _ => rfl
        closeSent := fun hc => ⟨(h.closeSent hc).1, rfl⟩
        destroyed := fun _ => by assumption
        resumed := fun hn => absurd rfl hn }
    · split
      · rename_i hc
        exact { h with
          pieces := by simp [MuxStream.forget]
          known := rfl
          finished_queue := fun _ => rfl
          closeSent := fun hc => ⟨(h.closeSent hc).1, rfl⟩
          finished_cause := fun _ => by
            simp only [Bool.or_eq_true, Bool.and_eq_true] at hc
            rcases hc with hc | hc
            · exact .inr (.inr hc)
            · exact .inl hc
          destroyed := fun _ => rfl
          acked := fun _ => .inr (.inr rfl)
          resumed := fun hn => absurd rfl hn }
      · exact { h with
          pieces := by simp [MuxStream.forget, MuxStream.send]
          known := rfl
          finished_queue := fun _ => rfl
          closeSent := fun hc => ⟨(h.closeSent hc).1, rfl⟩
          finished_cause := fun _ => .inr (.inl rfl)
          destroyed := fun _ => rfl
          acked := fun _ => .inr (.inr rfl)
          resumed := fun hn => absurd rfl hn }

theorem onReset (h : ServerInv s) : ServerInv s.onReset :=
  destroy { h with finished_cause := fun _ => .inr (.inr rfl) }

theorem onFrame (h : ServerInv s) (frame : Frame) : ServerInv (s.onFrame frame) := by
  unfold MuxStream.onFrame
  split
  · exact h
  · cases frame with
    | data payload =>
      simp only [MuxStream.onData]
      split
      · exact h
      · exact { h with acked := nofun }
    | close =>
      simp only [MuxStream.onClose]
      split
      · exact h
      · rename_i hc
        have hs : ServerInv { s with closeReceived := true } :=
          { h with
            finished_cause := fun hf => by
              rcases h.finished_cause hf with h' | h'
              · exact .inl ⟨h'.1, rfl⟩
              · exact .inr h'
            acked := fun _ => .inr (.inl rfl)
            endEmitted := fun _ => rfl }
        unfold MuxStream.maybeFinish
        split
        · rename_i hm
          simp only [Bool.and_eq_true] at hm
          have := hs.maybeFinish (h.closeSent hm.1.1).2
          rwa [MuxStream.maybeFinish, if_pos (by simp_all)] at this
        · exact hs
    | reset => exact h.onReset
    | datagram payload => exact h
    | windowUpdate amount => exact { h with resumed := fun _ => .inr (List.mem_cons_self ..) }

theorem drain (h : ServerInv s) (buffered : Nat) : ServerInv (s.drain buffered) := by
  unfold MuxStream.drain
  split
  · rename_i hw
    exact { h with timer := fun ht => by simp_all }
  · split
    · exact h
    · exact { h with resumed := fun _ => .inr (List.mem_cons_self ..), timer := nofun }

theorem onSocketClose (h : ServerInv s) : ServerInv s.onSocketClose := by
  unfold MuxStream.onSocketClose
  split
  · exact h
  · have hs : ServerInv { s with closed := true, drainTimer := false } :=
      { h with timer := fun _ => .inr rfl }
    dsimp only
    split
    · exact hs.onReset
    · exact hs

theorem step (h : ServerInv s) {e : ServerEvent} (hst : s.step e = some t) : ServerInv t := by
  cases serverStep_of_step hst with
  | write chunk _ he _ => exact h.write he chunk
  | final => exact h.final
  | destroy => exact h.destroy
  | flush buffered rest hs => exact h.flushWrites hs buffered
  | drainEnd buffered rest hs =>
    exact { h with
      resumed := fun hq => (h.resumed hq).imp_right fun hm => by simp_all [MuxStream.drainEnd]
      timer := fun hw => by
        have := h.timer hw
        simp_all [MuxStream.drainEnd] }
  | «return» rest hs =>
    exact { h with resumed := fun hq => (h.resumed hq).imp_right fun hm => by simp_all }
  | drain buffered => exact h.drain buffered
  | read => exact h.read
  | consume n =>
    unfold MuxStream.consume
    split
    · exact h
    · exact { h with }
  | datagram data buffered =>
    unfold MuxStream.sendDatagram
    split
    · exact h
    · split
      · exact h
      · exact h.send _
  | emitEnd hi hd hc => exact { h with endEmitted := fun _ => hc }
  | sessionClose => exact { h with }
  | socketClose => exact h.onSocketClose

end ServerInv

/-- When `_flushWrites` has returned and an item is left, its next piece waits. -/
def Blocked (s : MuxStream) : Prop :=
  .flushWrites ∉ s.stack → ∀ item ∈ s.writeQueue.head?, item.index < item.pieces.length

namespace Blocked

variable {s t : MuxStream}

theorem of_empty (h : s.writeQueue = []) : Blocked s := fun _ item hi => by simp [h] at hi

theorem flushWrites (hs : ServerInv s) {rest : List Call} (hst : s.stack = .flushWrites :: rest)
    (buffered : Nat) : Blocked (s.flushWrites buffered) := by
  unfold MuxStream.flushWrites
  split
  · rename_i item rest' hq hf
    split
    · rename_i piece hp
      split
      · intro _ i hi
        simp only [MuxStream.wantDrain, hq, List.head?_cons, Option.mem_def, Option.some.injEq] at hi
        subst hi
        exact (List.getElem?_eq_some_iff.mp hp).1
      · exact fun hn => absurd (by simp [MuxStream.send, hst]) hn
    · exact fun hn => absurd (by simp [hst]) hn
  · rename_i hnot
    have hq : s.writeQueue = [] := by
      cases hf : s.finished with
      | true => exact hs.finished_queue hf
      | false =>
        cases hq : s.writeQueue with
        | nil => rfl
        | cons item rest' => exact absurd hf (hnot item rest' hq)
    split
    · exact of_empty (by rw [sendClose_writeQueue]; exact hq)
    · exact of_empty hq

theorem destroy (h : Blocked s) : Blocked s.destroy := by
  unfold Blocked at *
  simp only [MuxStream.destroy, MuxStream.send, MuxStream.forget]
  grind

theorem step (h : Blocked s) (hs : ServerInv s) {e : ServerEvent} (hst : s.step e = some t) :
    Blocked t := by
  cases serverStep_of_step hst with
  | destroy => exact h.destroy
  | flush buffered rest hcall => exact flushWrites hs hcall buffered
  | _ =>
    unfold Blocked at *
    simp only [MuxStream.write, MuxStream.final, MuxStream.drain, MuxStream.drainEnd,
      MuxStream.read, MuxStream.consume, MuxStream.sendDatagram, MuxStream.send,
      MuxStream.onSocketClose, MuxStream.destroy, MuxStream.forget] at *
    grind

theorem onFrame (h : Blocked s) (f : Frame) : Blocked (s.onFrame f) := by
  unfold Blocked at *
  simp only [MuxStream.onFrame, MuxStream.onData, MuxStream.onClose, MuxStream.onReset,
    MuxStream.onWindowUpdate, MuxStream.destroy, MuxStream.maybeFinish, MuxStream.send,
    MuxStream.forget]
  grind

end Blocked

/-! ## The CLI's end -/

structure CliInv (s : CliStream) : Prop where
  left : ∀ chunk ∈ s.writer.left, chunk ≠ [] ∧ chunk.length ≤ CHUNK
  closing : s.closing = true → s.writer = .idle ∨ s.writer = .closing
  writer_closing : s.writer = .closing → s.closing = true
  closeSent : s.closeSent = true → s.closing = true
  failed : s.failed = true → s.outOpen = false ∨
    (s.dead = true ∨ s.closed = true) ∧ s.writer ≠ .closing ∧
      ∀ chunk rest, s.writer ≠ .charged chunk rest
  dropped : s.dropped = true → s.writer = .idle ∧ s.rx = [] ∧ s.entry = false ∧
    (s.resetSent = true ∨ s.dead = true ∨ s.closeReceived = true)
  entry : s.entry = false → s.dropped = true ∨ s.dead = true
  closeReceived : s.closeReceived = s.sawClose
  receiving : s.receiving = true → s.unacked < ACK_THRESHOLD ∨ s.dead = true
  spawned : ∀ frame ∈ s.spawned, frame = .reset ∨ ∃ n, frame = .windowUpdate n

theorem cliInv_init : CliInv {} := by
  constructor <;> simp [Writer.left]

namespace CliInv

variable {s t : CliStream}

theorem trySend (h : CliInv s) {frame : Frame} (hf : frame = .reset ∨ ∃ n, frame = .windowUpdate n) :
    CliInv (s.trySend frame) :=
  { h with
    spawned := fun f hm => by
      unfold CliStream.trySend at hm
      split at hm
      · exact h.spawned f (by simpa using hm)
      · rcases List.mem_append.mp hm with hm | hm
        · exact h.spawned f hm
        · exact List.mem_singleton.mp hm ▸ hf }

theorem ack (h : CliInv s) (hr : s.receiving = false) : CliInv s.ack := by
  unfold CliStream.ack
  split
  · exact h
  · have hs : CliInv { s with unacked := 0 } :=
      { h with receiving := fun hr' => absurd (hr.symm.trans hr') (by decide) }
    exact hs.trySend (.inr ⟨_, rfl⟩)

theorem recv (h : CliInv s) (hr : s.receiving = false) : CliInv s.recv := by
  unfold CliStream.recv
  dsimp only
  split
  · refine { h.ack hr with receiving := fun _ => ?_ }
    unfold CliStream.ack
    split
    · rename_i hc
      simp only [Bool.or_eq_true, decide_eq_true_eq] at hc
      exact hc.imp_left fun h0 => by simp [h0, ACK_THRESHOLD]
    · exact .inl (by simp [CliStream.trySend, ACK_THRESHOLD])
  · rename_i hc
    exact { h with receiving := fun _ => .inl (by simp only; omega) }

theorem close (h : CliInv s) (hw : s.writer = .idle) (hd : s.dropped = false) :
    CliInv s.close := by
  unfold CliStream.close
  dsimp only
  split
  · exact { h with
      closing := fun _ => .inl hw
      writer_closing := fun _ => rfl
      closeSent := fun _ => rfl }
  · rename_i hc
    simp only [Bool.or_eq_true, not_or, Bool.not_eq_true] at hc
    split
    · exact { h with
        closing := fun _ => .inl hw
        writer_closing := fun _ => rfl
        closeSent := fun _ => rfl }
    · rename_i hcl
      exact { h with
        left := by simp [Writer.left]
        closing := fun _ => .inr rfl
        writer_closing := fun _ => rfl
        closeSent := fun _ => rfl
        failed := fun hf => (h.failed hf).imp_right fun h' => by simp_all
        dropped := fun hd' => absurd (hd.symm.trans hd') (by decide) }

theorem reset (h : CliInv s) : CliInv s.reset := by
  unfold CliStream.reset
  split
  · exact h
  · have hs : CliInv { s with dead := true, resetSent := true } :=
      { h with
        failed := fun hf => (h.failed hf).imp_right fun h' => ⟨.inl rfl, h'.2⟩
        dropped := fun hd' => by
          obtain ⟨h1, h2, h3, -⟩ := h.dropped hd'
          exact ⟨h1, h2, h3, .inl rfl⟩
        entry := fun _ => .inr rfl
        receiving := fun _ => .inr rfl }
    exact hs.trySend (.inl rfl)

theorem drop (h : CliInv s) (hw : s.writer = .idle) : CliInv s.drop := by
  unfold CliStream.drop
  dsimp only
  split
  · have hs : CliInv { s with dropped := true, entry := false, rx := [], resetSent := true } :=
      { h with
        dropped := fun _ => ⟨hw, rfl, rfl, .inl rfl⟩
        entry := fun _ => .inl rfl }
    exact hs.trySend (.inl rfl)
  · rename_i hc
    simp only [Bool.and_eq_true, Bool.not_eq_true', Bool.and_eq_false_iff, not_and, not_or,
      Bool.not_eq_false] at hc
    refine { h with
      dropped := fun _ => ⟨hw, rfl, rfl, .inr ?_⟩
      entry := fun _ => .inl rfl }
    cases hd : s.dead with
    | true => exact .inl rfl
    | false => exact .inr (hc hd).2

theorem not_dropped (h : CliInv s) (he : s.entry = true) : s.dropped = false := by
  cases hd : s.dropped with
  | false => rfl
  | true => rw [(h.dropped hd).2.2.1] at he; cases he

/-- The reader loop and `shutdown` tell the reader that the stream is over. -/
theorem fail (h : CliInv s) (he : s.entry = true) :
    CliInv { s with dead := true, rx := s.rx ++ [.reset], entry := false } :=
  { h with
    failed := fun hf => (h.failed hf).imp_right fun h' => ⟨.inl rfl, h'.2⟩
    dropped := fun hd => absurd ((h.not_dropped he).symm.trans hd) (by decide)
    entry := fun _ => .inr rfl
    receiving := fun _ => .inr rfl }

theorem onFrame (h : CliInv s) (frame : Frame) : CliInv (s.onFrame frame) := by
  unfold CliStream.onFrame
  split
  · exact h
  · rename_i he
    have he : s.entry = true := by simpa using he
    have hd := h.not_dropped he
    cases frame with
    | reset => exact h.fail he
    | windowUpdate amount => exact { h with }
    | _ => exact { h with dropped := fun hd' => absurd (hd.symm.trans hd') (by decide) }

theorem step (h : CliInv s) {e : CliEvent} (hst : s.step e = some t) : CliInv t := by
  cases cliStep_of_step hst with
  | send data hw hc hd =>
    refine { h with
      left := ?_
      closing := fun hc' => absurd (hc.symm.trans hc') (by decide)
      writer_closing := fun hw' => absurd hw' (nextChunk_ne_closing _)
      failed := fun hf => (h.failed hf).imp_right fun h' =>
        ⟨h'.1, nextChunk_ne_closing _, nextChunk_ne_charged _⟩
      dropped := fun hd' => absurd (hd.symm.trans hd') (by decide) }
    intro chunk hm
    simp only [CliStream.send, nextChunk_left] at hm
    exact mem_chunks (by decide) hm
  | takeDead chunk rest hw hd =>
    exact { h with
      left := by simp [Writer.left]
      closing := fun _ => .inl rfl
      writer_closing := nofun
      failed := fun _ => .inr ⟨.inl hd, nofun, nofun⟩
      dropped := fun hd' => ⟨rfl, (h.dropped hd').2⟩ }
  | takeClosed chunk rest hw hd ha hc =>
    exact { h with
      left := by simp [Writer.left]
      closing := fun _ => .inl rfl
      writer_closing := nofun
      failed := fun _ => .inr ⟨.inr hc, nofun, nofun⟩
      dropped := fun hd' => ⟨rfl, (h.dropped hd').2⟩ }
  | take chunk rest hw hd ha hc =>
    exact { h with
      left := fun c hm => h.left c (by rw [hw]; exact List.mem_cons_of_mem _ hm)
      closing := fun hc' => by
        have := h.closing hc'
        simp [hw] at this
      writer_closing := nofun
      failed := fun hf => (h.failed hf).imp_right fun h' => by simp_all
      dropped := fun hd' => by
        have := (h.dropped hd').1
        simp [hw] at this }
  | outSend chunk rest hw ho =>
    exact { h with
      left := fun c hm => h.left c (by rw [hw]; exact (nextChunk_left rest) ▸ hm)
      closing := fun hc' => by
        have := h.closing hc'
        simp [hw] at this
      writer_closing := fun hw' => absurd hw' (nextChunk_ne_closing _)
      failed := fun hf => (h.failed hf).imp_right fun h' => absurd hw (h'.2.2 chunk rest)
      dropped := fun hd' => by
        have := (h.dropped hd').1
        simp [hw] at this }
  | outSendFails chunk rest hw ho =>
    exact { h with
      left := by simp [Writer.left]
      closing := fun _ => .inl rfl
      writer_closing := nofun
      failed := fun _ => .inl ho
      dropped := fun hd' => ⟨rfl, (h.dropped hd').2⟩ }
  | outSendClose hw =>
    exact { h with
      left := by simp [Writer.left]
      closing := fun _ => .inl rfl
      writer_closing := nofun
      failed := fun hf => (h.failed hf).imp_right fun h' => absurd hw h'.2.1
      dropped := fun hd' => ⟨rfl, (h.dropped hd').2⟩ }
  | close hw hd => exact h.close hw hd
  | reset => exact h.reset
  | recv hr => exact h.recv hr
  | gotData d rest hr hx =>
    exact { h with
      dropped := fun hd => by
        have := (h.dropped hd).2.1
        simp [hx] at this
      receiving := nofun }
  | gotClose rest hr hx =>
    exact { h with
      dropped := fun hd => by
        have := (h.dropped hd).2.1
        simp [hx] at this
      closeReceived := rfl
      receiving := nofun }
  | gotReset rest hr hx =>
    exact { h with
      failed := fun hf => (h.failed hf).imp_right fun h' => ⟨.inl rfl, h'.2⟩
      dropped := fun hd => by
        have := (h.dropped hd).2.1
        simp [hx] at this
      entry := fun _ => .inr rfl
      receiving := nofun }
  | gotDatagram d rest hr hx =>
    exact { h with
      dropped := fun hd => by
        have := (h.dropped hd).2.1
        simp [hx] at this
      receiving := nofun }
  | gotNone hr hx he =>
    exact { h with
      failed := fun hf => (h.failed hf).imp_right fun h' => ⟨.inl rfl, h'.2⟩
      dropped := fun hd => by
        obtain ⟨h1, h2, h3, -⟩ := h.dropped hd
        exact ⟨h1, h2, h3, .inr (.inl rfl)⟩
      entry := fun _ => .inr rfl
      receiving := nofun }
  | cancelRecv hr => exact { h with receiving := nofun }
  | drop hw hr hd => exact h.drop hw
  | datagram data hd =>
    unfold CliStream.sendDatagram
    split
    · exact h
    · exact { h with }
  | spawned i frame hi =>
    exact { h with spawned := fun f hf => h.spawned f (List.mem_of_mem_eraseIdx hf) }
  | closed =>
    exact { h with failed := fun hf => (h.failed hf).imp_right fun h' => ⟨.inr rfl, h'.2⟩ }
  | outClosed => exact { h with failed := fun _ => .inl rfl }
  | shutdown hc =>
    unfold CliStream.shutdown
    split
    · rename_i he
      exact h.fail he
    · exact h

end CliInv

/-! ## Flags that stay up -/

structure ServerLe (s t : MuxStream) : Prop where
  resetSent : t.resetSent = false → s.resetSent = false
  resetReceived : t.resetReceived = false → s.resetReceived = false
  wsOpen : t.wsOpen = true → s.wsOpen = true
  closed : t.closed = false → s.closed = false
  finished : t.finished = false → s.finished = false

structure CliLe (c d : CliStream) : Prop where
  resetSent : d.resetSent = false → c.resetSent = false
  dead : d.dead = false → c.dead = false
  closed : d.closed = false → c.closed = false
  outOpen : d.outOpen = true → c.outOpen = true
  dropped : d.dropped = false → c.dropped = false
  closing : c.closing = true → d.closing = true

theorem serverLe_step {s t : MuxStream} {e : ServerEvent} (h : s.step e = some t) :
    ServerLe s t := by
  cases serverStep_of_step h <;> constructor <;>
    simp only [MuxStream.write, MuxStream.final, MuxStream.flushWrites, MuxStream.sendClose,
      MuxStream.drain, MuxStream.drainEnd, MuxStream.read, MuxStream.consume,
      MuxStream.sendDatagram, MuxStream.onSocketClose, MuxStream.wantDrain, MuxStream.destroy,
      MuxStream.maybeFinish, MuxStream.send, MuxStream.forget] <;> grind

theorem serverLe_onFrame (s : MuxStream) (f : Frame) : ServerLe s (s.onFrame f) := by
  constructor <;> simp only [MuxStream.onFrame, MuxStream.onData, MuxStream.onClose,
    MuxStream.onReset, MuxStream.onWindowUpdate, MuxStream.destroy, MuxStream.maybeFinish,
    MuxStream.send, MuxStream.forget] <;> grind

/-- Only a CLOSE that arrives ends the read side. -/
theorem closeReceived_step {s t : MuxStream} {e : ServerEvent} (h : s.step e = some t) :
    t.closeReceived = s.closeReceived := by
  cases serverStep_of_step h <;>
    simp only [MuxStream.write, MuxStream.final, MuxStream.flushWrites, MuxStream.sendClose,
      MuxStream.drain, MuxStream.drainEnd, MuxStream.read, MuxStream.consume,
      MuxStream.sendDatagram, MuxStream.onSocketClose, MuxStream.wantDrain, MuxStream.destroy,
      MuxStream.maybeFinish, MuxStream.send, MuxStream.forget] <;> grind

theorem closeReceived_onFrame {s : MuxStream} {f : Frame}
    (h : (s.onFrame f).closeReceived = true) :
    s.closeReceived = true ∨ s.known = true ∧ f = .close := by
  revert h
  simp only [MuxStream.onFrame, MuxStream.onData, MuxStream.onClose,
    MuxStream.onReset, MuxStream.onWindowUpdate, MuxStream.destroy, MuxStream.maybeFinish,
    MuxStream.send, MuxStream.forget]
  grind

theorem cliLe_step {c d : CliStream} {e : CliEvent} (h : c.step e = some d) : CliLe c d := by
  cases cliStep_of_step h <;> constructor <;>
    simp only [CliStream.send, CliStream.close, CliStream.reset, CliStream.recv, CliStream.ack,
      CliStream.drop, CliStream.sendDatagram, CliStream.shutdown, CliStream.trySend] <;> grind

theorem cliLe_onFrame (c : CliStream) (f : Frame) : CliLe c (c.onFrame f) := by
  constructor <;> simp only [CliStream.onFrame] <;> grind

/-! ## Both ends -/

/-- The two ends' own invariants hold in every reachable state. -/
structure EndsInv (l : Link) : Prop where
  server : ServerInv l.server
  blocked : Blocked l.server
  cli : CliInv l.cli

theorem endsInv_init : EndsInv {} := ⟨serverInv_init, Blocked.of_empty rfl, cliInv_init⟩

theorem endsInv_step {l l' : Link} {e : Event} (h : EndsInv l) (hst : l.step e = some l') :
    EndsInv l' := by
  obtain ⟨hs, hb, hc⟩ := h
  rcases step_cases hst with ⟨s, ⟨a, ha⟩, rfl⟩ | ⟨c, ⟨a, ha⟩, rfl⟩ | ⟨f, rest, -, rfl⟩ |
    ⟨f, rest, -, rfl⟩
  · exact ⟨hs.step ha, hb.step hs ha, hc⟩
  · exact ⟨hs, hb, hc.step ha⟩
  · exact ⟨hs.onFrame f, hb.onFrame f, { hc with }⟩
  · exact ⟨{ hs with }, hb, hc.onFrame f⟩

theorem endsInv {l : Link} (h : Reachable l) : EndsInv l :=
  h.invariant (fun _ hi => by cases hi; exact endsInv_init) fun _ _ _ hI _ hst => endsInv_step hI hst

end Tunlit.Mux.Ends
