import Tunlit.Client.Arrivals
import Tunlit.Mux.FlowControl

/-! # What the visitor gets to see of the app

Whatever the variant of the pump, the bytes on the connection are the first of those that the
app has sent, and CLOSE is behind all of them. Without a shape a read of the socket that fails
becomes a reset. With one it ends the reading like the end of the app's bytes does. -/
namespace Tunlit.Client.Departures
open Tunlit.Lib.Runs Tunlit.Lib.Chunks Tunlit.Mux.Frames Tunlit.Mux.Cli Tunlit.Mux.FlowControl
open Tunlit.Client.Pumping Tunlit.Client.Resets Tunlit.Client.Arrivals

/-- The bytes of a `send` that are not on the connection. -/
def unsent : Writer → Bytes
  | .taking chunk rest | .charged chunk rest => chunk ++ rest.flatten
  | .idle | .closing => []

/-- The bytes that were read and not given to `send`. -/
def ahead : Outward → Bytes
  | .plain _ => []
  | .shaped r queue w => sleeping w ++ queue.flatten ++ passing r
where
  sleeping : WriteMux → Bytes
    | .sleeping chunk => chunk
    | .waiting | .sending | .closing | .ended => []
  passing : ReadSocket → Bytes
    | .passing chunk => chunk
    | .reading | .ended => []

/-- Where the task that has the writer of the stream is. -/
inductive Place where
  | between | sending | closing | ended
deriving DecidableEq

def place : Outward → Place
  | .plain .reading => .between
  | .plain .sending => .sending
  | .plain .closing => .closing
  | .plain .ended => .ended
  | .shaped _ _ .waiting | .shaped _ _ (.sleeping _) => .between
  | .shaped _ _ .sending => .sending
  | .shaped _ _ .closing => .closing
  | .shaped _ _ .ended => .ended

/-- The task has not closed the stream. -/
def Place.Live (p : Place) : Prop := p = .between ∨ p = .sending

def Place.Fits (c : CliStream) : Place → Prop
  | .between | .ended => c.writer = .idle
  | .sending => ∃ chunk rest, c.writer = .taking chunk rest ∨ c.writer = .charged chunk rest
  | .closing => c.writer = .closing

/-- The stream was reset or its connection is gone. -/
def Lost (s : Pump) : Prop := .reset ∈ s.told ∨ s.cli.closed = true ∨ s.cli.outOpen = false

instance (s : Pump) : Decidable (Lost s) := inferInstanceAs (Decidable (_ ∨ _))

/-- A reset is on the connection, or about to be. -/
def HasReset (c : CliStream) : Prop := .reset ∈ c.wire ∨ .reset ∈ c.spawned

/-- All that the app has sent is on the connection, and it has ended so. -/
def Sent (s : Pump) (ending : End) : Prop :=
  s.socket.ending = some ending ∧ payload s.cli.wire = s.socket.offered

/-- No chunk on its way is empty. -/
def Chunks (out : Outward) : Prop := ∀ r queue w, out = .shaped r queue w →
  (∀ chunk ∈ queue, chunk ≠ []) ∧ w ≠ .sleeping [] ∧ r ≠ .passing []

/-- What holds at any place of the tasks. -/
structure Base (s : Pump) : Prop where
  sent : payload s.cli.wire <+: s.socket.offered
  close : .close ∈ s.cli.wire → Sent s .eof
  told : .reset ∈ s.told → s.cli.dead = true
  dead : s.cli.dead = true → Lost s ∨ s.out = .plain .ended ∧ s.socket.ending = some .error
  spawned : ∀ frame ∈ s.cli.spawned, frame = .reset ∨ ∃ n, frame = .windowUpdate n
  reset : HasReset s.cli → Lost s ∨ s.socket.broken = true ∨ s.socket.ending = some .error

/-- What was read was sent, or is on its way. -/
structure Leads (s : Pump) : Prop extends Base s where
  onWay : (place s.out).Live →
    payload s.cli.wire ++ unsent s.cli.writer ++ ahead s.out ++ s.socket.input = s.socket.offered
  fits : (place s.out).Fits s.cli
  failed : (place s.out).Live → s.cli.failed = false
  unclosed : (place s.out).Live → s.cli.closeSent = false
  chunks : Chunks s.out
  source : ∀ queue w, s.out = .shaped .ended queue w → (place s.out).Live →
    s.socket.input = [] ∧ s.socket.ending ≠ none ∧ (s.socket.ending = some .error → Lost s)
  closing : place s.out = .closing →
    s.cli.closeSent = true ∧ (s.cli.outOpen = false ∨ Sent s .eof)
  ended : place s.out = .ended → Lost s ∨
    (Sent s .eof ∧ s.cli.closeSent = true ∧ .close ∈ s.cli.wire) ∨
    Sent s .error ∧ s.out = .plain .ended ∧ s.cli.dead = true ∧ HasReset s.cli

/-- A read of the socket that fails is not taken for the end of the app's bytes, unless the
stream is lost anyway. -/
def Careful (s : Pump) (e : Event) : Prop :=
  ∀ n queue w, e = .read n → s.out = .shaped .reading queue w → s.socket.input = [] →
    s.socket.ending = some .error → Lost s

/-! ## The stream under the tasks -/

/-- What the tasks towards the socket and the connection do to the writer's side. -/
structure Still (c d : CliStream) : Prop where
  wire : d.wire = c.wire
  writer : d.writer = c.writer
  closeSent : d.closeSent = c.closeSent
  failed : d.failed = c.failed
  closed : c.closed = true → d.closed = true
  outOpen : c.outOpen = false → d.outOpen = false
  dead : c.dead = true → d.dead = true
  spawned : ∀ frame ∈ d.spawned, frame ∈ c.spawned ∨ ∃ n, frame = .windowUpdate n
  kept : ∀ frame ∈ c.spawned, frame ∈ d.spawned

namespace Still

variable {c d : CliStream}

theorem refl (c : CliStream) : Still c c :=
  ⟨rfl, rfl, rfl, rfl, id, id, id, fun _ => .inl, fun _ => id⟩

theorem trans {b : CliStream} (h : Still c d) (h' : Still d b) : Still c b where
  wire := h'.wire.trans h.wire
  writer := h'.writer.trans h.writer
  closeSent := h'.closeSent.trans h.closeSent
  failed := h'.failed.trans h.failed
  closed := h'.closed ∘ h.closed
  outOpen := h'.outOpen ∘ h.outOpen
  dead := h'.dead ∘ h.dead
  spawned := fun frame hf => (h'.spawned frame hf).elim (h.spawned frame) .inr
  kept := fun frame hf => h'.kept frame (h.kept frame hf)

theorem trySend (c : CliStream) (n : Nat) : Still c (c.trySend (.windowUpdate n)) := by
  refine { refl c with spawned := fun frame hf => ?_, kept := fun _ => List.mem_append_left _ }
  rcases List.mem_append.mp hf with hf | hf
  · exact .inl hf
  · split at hf
    · cases hf
    · exact .inr ⟨n, List.mem_singleton.mp hf⟩

theorem recv (c : CliStream) : Still c c.recv := by
  unfold CliStream.recv CliStream.ack
  split
  · split
    · exact { refl c with }
    · exact { trySend { c with unacked := 0 } c.unacked with }
  · exact { refl c with }

theorem received (h : c.received? = some d) : Still c d := by
  unfold CliStream.received? at h
  dsimp only at h
  split at h
  · cases h
    exact { refl c with }
  · cases h
    exact { refl c with }
  · cases h
    exact { refl c with dead := fun _ => rfl }
  · cases h
    exact { refl c with }
  · obtain ⟨-, h⟩ := Option.ite_none_left_eq_some.mp h
    cases h
    exact { refl c with dead := fun _ => rfl }

end Still

@[simp] theorem unsent_idle : unsent .idle = [] := rfl
@[simp] theorem unsent_closing : unsent .closing = [] := rfl
@[simp] theorem unsent_taking (chunk : Bytes) (rest : List Bytes) :
    unsent (.taking chunk rest) = chunk ++ rest.flatten := rfl
@[simp] theorem unsent_charged (chunk : Bytes) (rest : List Bytes) :
    unsent (.charged chunk rest) = chunk ++ rest.flatten := rfl

theorem unsent_nextChunk (chunks : List Bytes) : unsent (nextChunk chunks) = chunks.flatten := by
  cases chunks <;> simp [nextChunk]

theorem nextChunk_cases (chunks : List Bytes) : nextChunk chunks = .idle ∨
    ∃ chunk rest, nextChunk chunks = .taking chunk rest := by
  cases chunks with
  | nil => exact .inl rfl
  | cons chunk rest => exact .inr ⟨chunk, rest, rfl⟩

/-- What a turn of the writer in a `send` does. -/
structure Carries (c d : CliStream) : Prop where
  dead : d.dead = c.dead
  closed : d.closed = c.closed
  outOpen : d.outOpen = c.outOpen
  closeSent : d.closeSent = c.closeSent
  spawned : d.spawned = c.spawned
  grows : payload c.wire <+: payload d.wire
  close : .close ∈ d.wire → .close ∈ c.wire
  reset : .reset ∈ d.wire ↔ .reset ∈ c.wire
  writer : d.failed = c.failed ∧ payload d.wire ++ unsent d.writer = payload c.wire ++ unsent c.writer ∧
      (d.writer = .idle ∨
        ∃ chunk rest, d.writer = .taking chunk rest ∨ d.writer = .charged chunk rest) ∨
    d.failed = true ∧ d.writer = .idle ∧ d.wire = c.wire ∧
      (c.dead = true ∨ c.closed = true ∨ c.outOpen = false)

theorem carries_of_advances {c d : CliStream} (h : Advances c d) (hw : c.writer ≠ .closing) :
    Carries c d := by
  rcases h with h | h
  · cases cliStep_of_step h with
    | takeDead chunk rest _ hd =>
      exact ⟨rfl, rfl, rfl, rfl, rfl, List.prefix_rfl, id, Iff.rfl, .inr ⟨rfl, rfl, rfl, .inl hd⟩⟩
    | takeClosed chunk rest _ hd ha hc =>
      exact ⟨rfl, rfl, rfl, rfl, rfl, List.prefix_rfl, id, Iff.rfl, .inr ⟨rfl, rfl, rfl, .inr (.inl hc)⟩⟩
    | take chunk rest hw hd ha hc =>
      exact ⟨rfl, rfl, rfl, rfl, rfl, List.prefix_rfl, id, Iff.rfl,
        .inl ⟨rfl, by simp [hw], .inr ⟨chunk, rest, .inr rfl⟩⟩⟩
  · cases cliStep_of_step h with
    | outSend chunk rest hw ho =>
      refine ⟨rfl, rfl, rfl, rfl, rfl, by simp, by simp, by simp, .inl ⟨rfl, ?_, ?_⟩⟩
      · simp [hw, unsent_nextChunk]
      · rcases nextChunk_cases rest with hn | ⟨next, more, hn⟩
        · exact .inl hn
        · exact .inr ⟨next, more, .inl hn⟩
    | outSendFails chunk rest _ ho =>
      exact ⟨rfl, rfl, rfl, rfl, rfl, List.prefix_rfl, id, Iff.rfl, .inr ⟨rfl, rfl, rfl, .inr (.inr ho)⟩⟩
    | outSendClose hc => exact absurd hc hw

/-! ## Steps outside the tasks towards the stream -/

theorem Lost.mono {s t : Pump} (h : Lost s) (htold : .reset ∈ s.told → .reset ∈ t.told)
    (hclosed : s.cli.closed = true → t.cli.closed = true)
    (hopen : s.cli.outOpen = false → t.cli.outOpen = false) : Lost t :=
  Or.imp htold (Or.imp hclosed hopen) h

theorem HasReset.of_still {c d : CliStream} (h : Still c d) (hd : HasReset d) : HasReset c := by
  rcases hd with hd | hd
  · exact .inl (h.wire ▸ hd)
  · rcases h.spawned _ hd with hd | ⟨n, hd⟩
    · exact .inr hd
    · cases hd

theorem HasReset.still {c d : CliStream} (h : Still c d) (hc : HasReset c) : HasReset d :=
  hc.imp (h.wire ▸ ·) (h.kept _)

/-- The tasks towards the socket and the connection. The app's bytes are not touched. -/
structure Beside (s t : Pump) : Prop where
  out : t.out = s.out
  input : t.socket.input = s.socket.input
  offered : t.socket.offered = s.socket.offered
  ending : t.socket.ending = s.socket.ending
  broken : s.socket.broken = true → t.socket.broken = true
  told : .reset ∈ s.told → .reset ∈ t.told
  resets : .reset ∈ t.told → .reset ∈ s.told ∨ t.cli.dead = true
  dead : t.cli.dead = true → s.cli.dead = true ∨ .reset ∈ t.told

theorem Leads.beside {s t : Pump} (h : Leads s) (hb : Beside s t) (hs : Still s.cli t.cli) :
    Leads t := by
  have lost : Lost s → Lost t := fun hl => hl.mono hb.told hs.closed hs.outOpen
  have sent : ∀ e, Sent s e → Sent t e := by
    intro e hse
    exact ⟨hb.ending.trans hse.1, by rw [hs.wire, hb.offered]; exact hse.2⟩
  constructor
  · constructor
    · rw [hs.wire, hb.offered]
      exact h.sent
    · rw [hs.wire]
      exact fun hc => sent _ (h.close hc)
    · intro ht
      rcases hb.resets ht with hr | hr
      · exact hs.dead (h.told hr)
      · exact hr
    · intro hd
      rcases hb.dead hd with hd | hd
      · rw [hb.out, hb.ending]
        exact (h.dead hd).imp_left lost
      · exact .inl (.inl hd)
    · intro frame hf
      rcases hs.spawned frame hf with hf | hf
      · exact h.spawned frame hf
      · exact .inr hf
    · intro hr
      rw [hb.ending]
      exact (h.reset (hr.of_still hs)).imp lost (.imp_left hb.broken)
  · rw [hb.out, hs.wire, hs.writer, hb.input, hb.offered]
    exact h.onWay
  · rw [hb.out]
    have hf := h.fits
    cases hp : place s.out <;> rw [hp] at hf <;> simp only [Place.Fits, hs.writer] at hf ⊢ <;>
      exact hf
  · rw [hb.out, hs.failed]
    exact h.failed
  · rw [hb.out, hs.closeSent]
    exact h.unclosed
  · rw [hb.out]
    exact h.chunks
  · rw [hb.out, hb.input, hb.ending]
    intro queue w ho hl
    obtain ⟨hi, he, hlost⟩ := h.source queue w ho hl
    exact ⟨hi, he, lost ∘ hlost⟩
  · rw [hb.out, hs.closeSent]
    exact fun hc => (h.closing hc).imp_right (.imp hs.outOpen (sent _))
  · rw [hb.out, hs.closeSent, hs.wire]
    intro he
    rcases h.ended he with hl | ⟨hse, hc⟩ | ⟨hse, ho, hd, hr⟩
    · exact .inl (lost hl)
    · exact .inr (.inl ⟨sent _ hse, hc⟩)
    · exact .inr (.inr ⟨sent _ hse, ho, hs.dead hd, hr.still hs⟩)

/-- A turn that does not receive leaves the stream alive or dead as it is. -/
def Steady (c d : CliStream) : Prop := Still c d ∧ d.dead = c.dead

theorem Steady.refl (c : CliStream) : Steady c c := ⟨.refl c, rfl⟩

theorem Steady.recv (c : CliStream) : Steady c c.recv := by
  refine ⟨.recv c, ?_⟩
  unfold CliStream.recv CliStream.ack
  split
  · split <;> rfl
  · rfl

theorem steady_writePlain (s : Pump) (left : Bytes) : Steady s.cli (s.writePlain left).cli := by
  unfold Pump.writePlain
  split
  · exact .recv _
  · exact .refl _

theorem steady_passBack (s : Pump) (queue : List Bytes) (w : WriteSocket) (chunk : Bytes) :
    Steady s.cli (s.passBack queue w chunk).cli := by
  unfold Pump.passBack
  split
  · exact .refl _
  · split
    · exact .recv _
    · exact .refl _

theorem steady_receive {s t : Pump} {item : Incoming} (h : s.receive item = some t) :
    Steady s.cli t.cli := by
  unfold Pump.receive at h
  split at h
  · cases item with
    | data d =>
      cases h
      exact steady_writePlain s d
    | datagram d =>
      cases h
      exact .recv _
    | close | reset =>
      cases h
      exact .refl _
  · cases item with
    | data d =>
      cases h
      exact steady_passBack s _ _ d
    | datagram d =>
      cases h
      exact .recv _
    | close | reset =>
      cases h
      exact .refl _
  · cases h

theorem received_dead {c d : CliStream} (h : c.received? = some d) (hd : d.dead = true) :
    c.dead = true ∨ c.rx.headD .reset = .reset := by
  unfold CliStream.received? at h
  dsimp only at h
  split at h
  · cases h
    exact .inl hd
  · cases h
    exact .inl hd
  · next hx => simp [hx]
  · cases h
    exact .inl hd
  · next hx => simp [hx]

theorem still_back {s t : Pump} {e : Event} (ha : Arrives s) (hb : BackTurn s e t) :
    Still s.cli t.cli ∧ (t.cli.dead = true → s.cli.dead = true ∨ .reset ∈ s.told) := by
  have steady : Steady s.cli t.cli →
      Still s.cli t.cli ∧ (t.cli.dead = true → s.cli.dead = true ∨ .reset ∈ s.told) :=
    fun h => ⟨h.1, fun hd => .inl (h.2.symm.trans hd)⟩
  have hr := ha.not_returned hb
  cases hb with
  | received d _ hd ht =>
    have hst : Steady d t.cli := steady_receive (s := s.got d) ht
    have hn : ¬ ReaderEnded s.back := by
      rintro (he | ⟨queue, w, he⟩)
      · have hb : (s.got d).back = .plain .ended := he
        simp [Pump.receive, hb] at ht
      · have hb : (s.got d).back = .shaped .ended queue w := he
        simp [Pump.receive, hb] at ht
    refine ⟨(Still.received hd).trans hst.1, fun hdead => ?_⟩
    obtain ⟨_, -, -, -, -, -, hreset, -⟩ := ha.consumes hr hn hd
    exact (received_dead hd (hst.2.symm.trans hdead)).imp_right hreset
  | passBack chunk queue w hq hb => exact steady (steady_passBack s queue w chunk)
  | write n left rest k hk hw hb => exact steady (steady_writePlain { s with socket := k } rest)
  | _ => exact steady (.refl _)

theorem Leads.back {s t : Pump} (h : Leads s) (ha : Arrives s) {e : Event} (hb : BackTurn s e t) :
    Leads t := by
  obtain ⟨hst, hdead⟩ := still_back ha hb
  have hap := Apart.backTurn hb
  refine h.beside ⟨hap.out, hap.input, hap.offered, hap.ending, hap.broken.trans, ?_, ?_, ?_⟩ hst
  · rw [hap.told]
    exact id
  · rw [hap.told]
    exact .inl
  · rw [hap.told]
    exact hdead

/-! ## The connection and the app -/

theorem Leads.told_more {s : Pump} (h : Leads s) {d : CliStream} {more : List Incoming}
    (hrx : d.rx = s.cli.rx ++ more) (hst : Still s.cli d) (hm : .reset ∈ more → d.dead = true)
    (hd : d.dead = true → s.cli.dead = true ∨ .reset ∈ more) : Leads (s.tell d) := by
  have htold : (s.tell d).told = s.told ++ more := by rw [Pump.tell, hrx, List.drop_left]
  refine h.beside ⟨rfl, rfl, rfl, rfl, id, ?_, ?_, ?_⟩ hst
  · rw [htold]
    exact List.mem_append_left _
  · rw [htold]
    exact fun hr => (List.mem_append.mp hr).imp_right hm
  · rw [htold]
    exact fun hdead => (hd hdead).imp_right (List.mem_append_right _)

theorem Leads.frame {s : Pump} (h : Leads s) (frame : Frame) :
    Leads (s.tell (s.cli.onFrame frame)) := by
  unfold CliStream.onFrame
  split
  · exact h.told_more (d := s.cli) (List.append_nil _).symm (.refl _) nofun .inl
  · cases frame with
    | reset =>
      exact h.told_more (d := { s.cli with dead := true, rx := s.cli.rx ++ [.reset], entry := false })
        rfl { Still.refl s.cli with dead := fun _ => rfl } (fun _ => rfl) fun _ => .inr (by simp)
    | windowUpdate amount =>
      exact h.told_more (d := { s.cli with available := s.cli.available + amount })
        (List.append_nil _).symm { Still.refl s.cli with } nofun .inl
    | data b =>
      exact h.told_more (d := { s.cli with rx := s.cli.rx ++ [.data b] }) rfl
        { Still.refl s.cli with } (by simp) .inl
    | datagram b =>
      exact h.told_more (d := { s.cli with rx := s.cli.rx ++ [.datagram b] }) rfl
        { Still.refl s.cli with } (by simp) .inl
    | close =>
      exact h.told_more (d := { s.cli with rx := s.cli.rx ++ [.close] }) rfl
        { Still.refl s.cli with } (by simp) .inl

theorem Leads.shutdown {s : Pump} (h : Leads s) : Leads (s.tell s.cli.shutdown) := by
  unfold CliStream.shutdown
  split
  · exact h.told_more (d := { s.cli with entry := false, dead := true, rx := s.cli.rx ++ [.reset] })
      rfl { Still.refl s.cli with dead := fun _ => rfl } (fun _ => rfl) fun _ => .inr (by simp)
  · exact h.told_more (d := s.cli) (List.append_nil _).symm (.refl _) nofun .inl

theorem mem_eraseIdx_or {l : List Frame} {i : Nat} {frame f : Frame} (hi : l[i]? = some frame)
    (hf : f ∈ l) : f = frame ∨ f ∈ l.eraseIdx i := by
  obtain ⟨hlt, rfl⟩ := List.getElem?_eq_some_iff.mp hi
  exact List.mem_cons.mp ((List.getElem_cons_eraseIdx_perm hlt).mem_iff.mpr hf)

/-- A task of `try_send` runs: its message is on the connection, if there is one. -/
theorem Leads.runSpawned {s : Pump} (h : Leads s) {i : Nat} {d : CliStream}
    (hd : s.cli.runSpawned i = some d) : Leads { s with cli := d } := by
  unfold CliStream.runSpawned at hd
  split at hd
  · cases hd
  · next frame hi =>
    cases hd
    have hmem := List.mem_of_getElem? hi
    have hkind := h.spawned frame hmem
    have hpay : payload (s.cli.wire ++ if s.cli.outOpen = true then [frame] else []) =
        payload s.cli.wire := by
      split <;> rcases hkind with rfl | ⟨n, rfl⟩ <;> simp
    have hclose : .close ∈ (s.cli.wire ++ if s.cli.outOpen = true then [frame] else []) ↔
        .close ∈ s.cli.wire := by
      split <;> rcases hkind with rfl | ⟨n, rfl⟩ <;> simp
    have herase : ∀ f ∈ s.cli.spawned.eraseIdx i, f ∈ s.cli.spawned :=
      fun f hf => List.mem_of_mem_eraseIdx hf
    have hreset : HasReset { s.cli with
        spawned := s.cli.spawned.eraseIdx i
        wire := s.cli.wire ++ if s.cli.outOpen = true then [frame] else [] } →
        HasReset s.cli := by
      rintro (hr | hr)
      · rcases List.mem_append.mp hr with hr | hr
        · exact .inl hr
        · split at hr
          · exact .inr (List.mem_singleton.mp hr ▸ hmem)
          · cases hr
      · exact .inr (herase _ hr)
    have hkept : HasReset s.cli → s.cli.outOpen = false ∨ HasReset { s.cli with
        spawned := s.cli.spawned.eraseIdx i
        wire := s.cli.wire ++ if s.cli.outOpen = true then [frame] else [] } := by
      intro hr
      cases ho : s.cli.outOpen with
      | false => exact .inl rfl
      | true =>
        refine .inr ?_
        rcases hr with hr | hr
        · exact .inl (List.mem_append_left _ hr)
        · rcases mem_eraseIdx_or hi hr with he | he
          · exact .inl (List.mem_append_right _ (by simp [he]))
          · exact .inr he
    have sent : ∀ e, Sent s e → Sent { s with cli := { s.cli with
        spawned := s.cli.spawned.eraseIdx i
        wire := s.cli.wire ++ if s.cli.outOpen = true then [frame] else [] } } e :=
      fun e hse => ⟨hse.1, hpay.trans hse.2⟩
    constructor
    · constructor
      · exact hpay.symm ▸ h.sent
      · exact fun hc => sent _ (h.close (hclose.mp hc))
      · exact h.told
      · exact h.dead
      · exact fun f hf => h.spawned f (herase f hf)
      · exact fun hr => h.reset (hreset hr)
    · exact fun hl => hpay.symm ▸ h.onWay hl
    · have hf := h.fits
      cases hp : place s.out <;> rw [hp] at hf <;> exact hf
    · exact h.failed
    · exact h.unclosed
    · exact h.chunks
    · exact h.source
    · exact fun hc => (h.closing hc).imp_right (.imp_right (sent _))
    · intro he
      rcases h.ended he with hl | ⟨hse, hcs, hc⟩ | ⟨hse, ho, hdead, hr⟩
      · exact .inl hl
      · exact .inr (.inl ⟨sent _ hse, hcs, hclose.mpr hc⟩)
      · rcases hkept hr with hopen | hr
        · exact .inl (.inr (.inr hopen))
        · exact .inr (.inr ⟨sent _ hse, ho, hdead, hr⟩)

theorem not_sent {s : Pump} (he : s.socket.ending = none) (e : End) : ¬ Sent s e :=
  fun hse => nomatch he.symm.trans hse.1

/-- The app sends more bytes, as long as its half has not ended. -/
theorem Leads.sends {s : Pump} (h : Leads s) (bytes : Bytes) (he : s.socket.ending = none) :
    Leads { s with socket := { s.socket with
      input := s.socket.input ++ bytes
      offered := s.socket.offered ++ bytes } } := by
  constructor
  · constructor
    · exact h.sent.trans (List.prefix_append _ _)
    · exact fun hc => absurd (h.close hc) (not_sent he _)
    · exact h.told
    · exact h.dead
    · exact h.spawned
    · exact h.reset
  · intro hl
    simp only [← h.onWay hl, List.append_assoc]
  · exact h.fits
  · exact h.failed
  · exact h.unclosed
  · exact h.chunks
  · exact fun queue w ho hl => absurd he (h.source queue w ho hl).2.1
  · exact fun hc => (h.closing hc).imp_right (.imp_right fun hse => absurd hse (not_sent he _))
  · intro hend
    rcases h.ended hend with hl | ⟨hse, -⟩ | ⟨hse, -⟩
    · exact .inl hl
    · exact absurd hse (not_sent he _)
    · exact absurd hse (not_sent he _)

theorem Leads.ends {s : Pump} (h : Leads s) (ending : End) (he : s.socket.ending = none) :
    Leads { s with socket := { s.socket with ending := some ending } } := by
  constructor
  · constructor
    · exact h.sent
    · exact fun hc => absurd (h.close hc) (not_sent he _)
    · exact h.told
    · exact fun hd => (h.dead hd).imp_right fun hd => by rw [he] at hd; exact nomatch hd.2
    · exact h.spawned
    · exact fun hr => (h.reset hr).imp_right (.imp_right fun hr => by rw [he] at hr; cases hr)
  · exact h.onWay
  · exact h.fits
  · exact h.failed
  · exact h.unclosed
  · exact h.chunks
  · exact fun queue w ho hl => absurd he (h.source queue w ho hl).2.1
  · exact fun hc => (h.closing hc).imp_right (.imp_right fun hse => absurd hse (not_sent he _))
  · intro hend
    rcases h.ended hend with hl | ⟨hse, -⟩ | ⟨hse, -⟩
    · exact .inl hl
    · exact absurd hse (not_sent he _)
    · exact absurd hse (not_sent he _)

theorem Leads.outside {s t : Pump} (h : Leads s) (ho : Outside s t) : Leads t := by
  have steady : ∀ d : CliStream, Still s.cli d → d.dead = s.cli.dead →
      Leads { s with cli := d } := by
    intro d hst hd
    refine h.beside ⟨rfl, rfl, rfl, rfl, id, id, .inl, ?_⟩ hst
    exact fun ht => .inl (hd.symm.trans ht)
  cases ho with
  | frame frame => exact h.frame frame
  | closed =>
    exact steady { s.cli with closed := true } { Still.refl s.cli with closed := fun _ => rfl } rfl
  | outClosed =>
    exact steady { s.cli with outOpen := false } { Still.refl s.cli with outOpen := fun _ => rfl } rfl
  | shutdown hc => exact h.shutdown
  | spawned i d hd => exact h.runSpawned hd
  | sends bytes he => exact h.sends bytes he
  | ends e he => exact h.ends e he
  | takes n => exact h.beside ⟨rfl, rfl, rfl, rfl, id, id, .inl, .inl⟩ (.refl _)
  | breaks => exact h.beside ⟨rfl, rfl, rfl, rfl, fun _ => rfl, id, .inl, .inl⟩ (.refl _)

/-- The stream that is dropped with the pump is reset unless both of its halves are closed. -/
theorem Leads.finish {s : Pump} (h : Leads s) (ha : Arrives s) (ho : s.out.Ended)
    (hb : s.back.Ended) : Leads { s with cli := s.cli.drop, returned := true } := by
  have hplace : place s.out = .ended := by
    rcases ho with ho | ho <;> rw [ho] <;> rfl
  have hreader : ReaderEnded s.back := by
    rcases hb with hb | hb
    · exact .inl hb
    · exact .inr ⟨_, _, hb⟩
  by_cases hclean : (!s.cli.dead && !(s.cli.closeSent && s.cli.closeReceived)) = true
  · have hlost : Lost s ∨ s.socket.broken = true := by
      simp only [Bool.and_eq_true, Bool.not_eq_true', Bool.and_eq_false_iff] at hclean
      rcases h.ended hplace with hl | ⟨-, hcs, -⟩ | ⟨-, -, hd, -⟩
      · exact .inl hl
      · rcases ha.closed hreader with hk | hr | hcr
        · exact .inr hk
        · exact .inl (.inl hr)
        · rw [hcs, hcr] at hclean
          exact absurd hclean.2 (by decide)
      · rw [hd] at hclean
        exact absurd hclean.1 (by decide)
    have hdrop : s.cli.drop =
        { s.cli with dropped := true, entry := false, rx := [], resetSent := true }.trySend .reset := by
      unfold CliStream.drop
      dsimp only
      exact if_pos hclean
    rw [hdrop]
    refine { h with
      spawned := fun f hf => ?_
      reset := fun _ => hlost.imp_right .inl
      ended := fun he => (h.ended he).imp_right (.imp_right fun hse => ?_) }
    · rcases List.mem_append.mp hf with hf | hf
      · exact h.spawned f hf
      · split at hf
        · cases hf
        · exact .inl (List.mem_singleton.mp hf)
    · exact ⟨hse.1, hse.2.1, hse.2.2.1, hse.2.2.2.imp_right (List.mem_append_left _)⟩
  · have hdrop : s.cli.drop = { s.cli with dropped := true, entry := false, rx := [] } := by
      unfold CliStream.drop
      dsimp only
      exact if_neg hclean
    rw [hdrop]
    exact { h with }

/-! ## Turns towards the stream -/

/-- A turn in which nothing gets on the connection. -/
structure Within (s t : Pump) : Prop where
  wire : t.cli.wire = s.cli.wire
  dead : t.cli.dead = s.cli.dead
  closed : t.cli.closed = s.cli.closed
  outOpen : t.cli.outOpen = s.cli.outOpen
  spawned : t.cli.spawned = s.cli.spawned
  told : t.told = s.told
  offered : t.socket.offered = s.socket.offered
  ending : t.socket.ending = s.socket.ending
  broken : t.socket.broken = s.socket.broken

namespace Within

variable {s t : Pump}

theorem lost (h : Within s t) (hl : Lost s) : Lost t :=
  hl.mono (h.told ▸ id) (h.closed ▸ id) (h.outOpen ▸ id)

theorem sent (h : Within s t) {e : End} (hs : Sent s e) : Sent t e :=
  ⟨h.ending.trans hs.1, by rw [h.wire, h.offered]; exact hs.2⟩

theorem base (h : Within s t) (hb : Base s) (hn : s.out ≠ .plain .ended) : Base t where
  sent := by rw [h.wire, h.offered]; exact hb.sent
  close := by rw [h.wire]; exact fun hc => h.sent (hb.close hc)
  told := by rw [h.told, h.dead]; exact hb.told
  dead := by
    rw [h.dead]
    exact fun hd => .inl (h.lost ((hb.dead hd).resolve_right fun ho => hn ho.1))
  spawned := by rw [h.spawned]; exact hb.spawned
  reset := by
    rw [HasReset, h.wire, h.spawned, h.broken, h.ending]
    exact fun hr => (hb.reset hr).imp_left h.lost

end Within

theorem close_cases (c : CliStream) (hw : c.writer = .idle) (hc : c.closeSent = false) :
    (c.dead = true ∨ c.closed = true) ∧ c.close.writer = .idle ∨
      c.dead = false ∧ c.closed = false ∧ c.close.writer = .closing ∧ c.close.closeSent = true := by
  unfold CliStream.close
  dsimp only
  split
  · next hd =>
    simp only [hc, Bool.or_false] at hd
    exact .inl ⟨.inl hd, hw⟩
  · next hd =>
    simp only [hc, Bool.or_false, Bool.not_eq_true] at hd
    split
    · next hcl => exact .inl ⟨.inr hcl, hw⟩
    · next hcl => exact .inr ⟨hd, by simpa using hcl, rfl, rfl⟩

theorem within_close (s : Pump) (closing ended : Outward) : Within s (s.close closing ended) := by
  unfold Pump.close CliStream.close
  dsimp only
  split
  · exact ⟨rfl, rfl, rfl, rfl, rfl, rfl, rfl, rfl, rfl⟩
  · split <;> exact ⟨rfl, rfl, rfl, rfl, rfl, rfl, rfl, rfl, rfl⟩

/-- `close` in the last turn of a task. -/
theorem Leads.of_close {s : Pump} (h : Base s) (hw : s.cli.writer = .idle)
    (hc : s.cli.closeSent = false) (hs : Lost s ∨ Sent s .eof) {closing ended : Outward}
    (hn : s.out ≠ .plain .ended) (hcl : place closing = .closing) (hen : place ended = .ended)
    (hchunks : Chunks closing) (hchunks' : Chunks ended) : Leads (s.close closing ended) := by
  have hin := within_close s closing ended
  have hbase := hin.base h hn
  rcases close_cases s.cli hw hc with ⟨hl, hidle⟩ | ⟨hd, hcl', hclosing, hcs⟩
  · have hout : (s.close closing ended).out = ended := if_pos hidle
    have hlost : Lost s := by
      rcases hl with hl | hl
      · exact (h.dead hl).resolve_right fun ho => hn ho.1
      · exact .inr (.inl hl)
    refine ⟨hbase, ?_, ?_, ?_, ?_, ?_, ?_, ?_, fun _ => .inl (hin.lost hlost)⟩
    all_goals rw [hout]
    · simp [hen, Place.Live]
    · rw [hen]
      exact hidle
    · simp [hen, Place.Live]
    · simp [hen, Place.Live]
    · exact hchunks'
    · simp [hen, Place.Live]
    · simp [hen]
  · have hout : (s.close closing ended).out = closing :=
      if_neg (by rw [hclosing]; nofun)
    refine ⟨hbase, ?_, ?_, ?_, ?_, ?_, ?_, fun _ => ?_, ?_⟩
    · simp [hout, hcl, Place.Live]
    · rw [hout, hcl]
      exact hclosing
    · simp [hout, hcl, Place.Live]
    · simp [hout, hcl, Place.Live]
    · rw [hout]
      exact hchunks
    · simp [hout, hcl, Place.Live]
    · refine ⟨hcs, ?_⟩
      rcases hs with (hr | hl | hopen) | hs
      · rw [h.told hr] at hd
        cases hd
      · rw [hl] at hcl'
        cases hcl'
      · exact .inl (hin.outOpen.trans hopen)
      · exact .inr (hin.sent hs)
    · simp [hout, hcl]

theorem Leads.of_live {t : Pump} (hb : Base t) (hl : (place t.out).Live)
    (hway : payload t.cli.wire ++ unsent t.cli.writer ++ ahead t.out ++ t.socket.input =
      t.socket.offered)
    (hfits : (place t.out).Fits t.cli) (hfailed : t.cli.failed = false)
    (hunclosed : t.cli.closeSent = false) (hchunks : Chunks t.out)
    (hsource : ∀ queue w, t.out = .shaped .ended queue w →
      t.socket.input = [] ∧ t.socket.ending ≠ none ∧ (t.socket.ending = some .error → Lost t)) :
    Leads t := by
  refine ⟨hb, fun _ => hway, hfits, fun _ => hfailed, fun _ => hunclosed, hchunks,
    fun queue w ho _ => hsource queue w ho, fun hc => ?_, fun he => ?_⟩
  · simp [hc, Place.Live] at hl
  · simp [he, Place.Live] at hl

theorem Leads.of_ended {t : Pump} (hb : Base t) (hp : place t.out = .ended)
    (hw : t.cli.writer = .idle) (hchunks : Chunks t.out)
    (hended : Lost t ∨ (Sent t .eof ∧ t.cli.closeSent = true ∧ .close ∈ t.cli.wire) ∨
      Sent t .error ∧ t.out = .plain .ended ∧ t.cli.dead = true ∧ HasReset t.cli) : Leads t := by
  refine ⟨hb, fun hl => ?_, ?_, fun hl => ?_, fun hl => ?_, hchunks, fun _ _ _ hl => ?_,
    fun hc => ?_, fun _ => hended⟩
  all_goals try simp [hp, Place.Live] at hl
  · rw [hp]
    exact hw
  · simp [hp] at hc

theorem chunks_plain (a : ToMux) : Chunks (.plain a) := by
  intro r queue w h
  cases h

/-- What was read is given to `send`. -/
theorem unsent_send (c : CliStream) (data : Bytes) : unsent (c.send data).writer = data := by
  simp [CliStream.send, unsent_nextChunk, flatten_chunks (n := CHUNK) (by decide)]

theorem fits_send (c : CliStream) {data : Bytes} (hd : data ≠ []) :
    Place.sending.Fits (c.send data) := by
  obtain ⟨chunk, rest, hw⟩ := taking_send c hd
  exact ⟨chunk, rest, .inl hw⟩

theorem take_ne_nil {n : Nat} {bytes : Bytes} (hb : bytes ≠ []) (hn : 0 < n) :
    bytes.take n ≠ [] := by
  rw [Ne, List.take_eq_nil_iff, not_or]
  exact ⟨by omega, hb⟩

namespace Leads

variable {s : Pump}

/-- Nothing is on its way at the end of the reading, so everything was sent. -/
theorem all_sent (h : Leads s) (hp : place s.out = .between) (ha : ahead s.out = [])
    (hi : s.socket.input = []) : payload s.cli.wire = s.socket.offered := by
  have hway := h.onWay (.inl hp)
  have hf := h.fits
  rw [hp] at hf
  simpa [show s.cli.writer = .idle from hf, ha, hi] using hway

theorem idle (h : Leads s) (hp : place s.out = .between) : s.cli.writer = .idle := by
  have hf := h.fits
  rw [hp] at hf
  exact hf

theorem not_lost_dead (h : Leads s) (hn : s.out ≠ .plain .ended) (hd : s.cli.dead = true) : Lost s :=
  (h.dead hd).resolve_right fun ho => hn ho.1

theorem read (h : Leads s) {n : Nat} (hi : s.socket.input ≠ []) (hn : 0 < n)
    (ho : s.out = .plain .reading) :
    Leads { s with
      socket := { s.socket with input := s.socket.input.drop n }
      cli := s.cli.send (s.socket.input.take n)
      out := .plain .sending } := by
  have hp : place s.out = .between := by rw [ho]; rfl
  have hin : Within s { s with
      socket := { s.socket with input := s.socket.input.drop n }
      cli := s.cli.send (s.socket.input.take n)
      out := .plain .sending } := ⟨rfl, rfl, rfl, rfl, rfl, rfl, rfl, rfl, rfl⟩
  refine of_live (hin.base h.toBase (by rw [ho]; nofun)) (.inr rfl) ?_
    (fits_send _ (take_ne_nil hi hn)) (h.failed (.inl hp)) (h.unclosed (.inl hp)) (chunks_plain _)
    nofun
  have hway := h.onWay (.inl hp)
  rw [h.idle hp, ho] at hway
  simp only [unsent_send, ahead]
  simpa [CliStream.send, ahead] using hway

theorem error (h : Leads s) (hi : s.socket.input = []) (he : s.socket.ending = some .error)
    (ho : s.out = .plain .reading) :
    Leads { s with cli := s.cli.reset, out := .plain .ended } := by
  have hp : place s.out = .between := by rw [ho]; rfl
  have hn : s.out ≠ .plain .ended := by rw [ho]; nofun
  have hsent := h.all_sent hp (by rw [ho]; rfl) hi
  unfold CliStream.reset
  split
  · next hd =>
    have hin : Within s { s with out := .plain .ended } :=
      ⟨rfl, rfl, rfl, rfl, rfl, rfl, rfl, rfl, rfl⟩
    exact of_ended (hin.base h.toBase hn) rfl (h.idle hp) (chunks_plain _)
      (.inl (hin.lost (h.not_lost_dead hn hd)))
  · have hbase : Base { s with
        cli := { s.cli with dead := true, resetSent := true }.trySend .reset
        out := .plain .ended } := by
      refine ⟨h.sent, h.close, fun _ => rfl, fun _ => .inr ⟨rfl, he⟩, fun f hf => ?_,
        fun _ => .inr (.inr he)⟩
      rcases List.mem_append.mp hf with hf | hf
      · exact h.spawned f hf
      · split at hf
        · cases hf
        · exact .inl (List.mem_singleton.mp hf)
    refine of_ended hbase rfl (h.idle hp) (chunks_plain _) ?_
    by_cases hc : s.cli.closed = true
    · exact .inl (.inr (.inl hc))
    · refine .inr (.inr ⟨⟨he, hsent⟩, rfl, rfl, .inr ?_⟩)
      simp [CliStream.trySend, hc]

/-- The stream behind a turn of the writer in a `send`. -/
theorem base_carries (h : Leads s) (hp : place s.out = .sending) {d : CliStream}
    (hd : Carries s.cli d) (out : Outward) : Base { s with cli := d, out } := by
  have hn : s.out ≠ .plain .ended := by intro ho; rw [ho] at hp; cases hp
  have hlost : Lost s → Lost { s with cli := d, out } :=
    fun hl => hl.mono id hd.closed.trans hd.outOpen.trans
  have hpre : payload d.wire <+: s.socket.offered := by
    rcases hd.writer with ⟨-, hw, -⟩ | ⟨-, -, hw, -⟩
    · refine ⟨unsent d.writer ++ (ahead s.out ++ s.socket.input), ?_⟩
      rw [← h.onWay (.inr hp), ← List.append_assoc, hw]
      simp only [List.append_assoc]
    · rw [hw]
      exact h.sent
  refine ⟨hpre, fun hc => ?_, ?_, ?_, ?_, ?_⟩
  · have hs := h.close (hd.close hc)
    refine ⟨hs.1, hpre.eq_of_length (Nat.le_antisymm hpre.length_le ?_)⟩
    exact hs.2 ▸ hd.grows.length_le
  · rw [hd.dead]
    exact h.told
  · rw [hd.dead]
    exact fun hdead => .inl (hlost (h.not_lost_dead hn hdead))
  · rw [hd.spawned]
    exact h.spawned
  · intro hr
    refine (h.reset ?_).imp_left hlost
    exact hr.imp hd.reset.mp (hd.spawned ▸ ·)

/-- A turn of the writer in a `send` leads on in it, behind it, or to its failure. -/
theorem carried (h : Leads s) (hp : place s.out = .sending) {d : CliStream}
    (hd : Advances s.cli d) :
    Carries s.cli d ∧ (d.failed = false ∨ d.writer = .idle ∧ Lost s) ∧
      (d.failed = false → d.closeSent = false ∧
        (∀ out, ahead out = ahead s.out →
          payload d.wire ++ unsent d.writer ++ ahead out ++ s.socket.input = s.socket.offered) ∧
        (d.writer = .idle ∨ Place.sending.Fits d)) := by
  have hf := h.fits
  rw [hp] at hf
  have hw : s.cli.writer ≠ .closing := by
    obtain ⟨chunk, rest, hw | hw⟩ := hf <;> rw [hw] <;> nofun
  have hn : s.out ≠ .plain .ended := by intro ho; rw [ho] at hp; cases hp
  have hc := carries_of_advances hd hw
  refine ⟨hc, ?_, fun hok => ⟨hc.closeSent.trans (h.unclosed (.inr hp)), ?_⟩⟩
  · rcases hc.writer with ⟨hw, -⟩ | ⟨-, hw, -, hl⟩
    · exact .inl (hw.trans (h.failed (.inr hp)))
    · refine .inr ⟨hw, ?_⟩
      rcases hl with hl | hl | hl
      · exact h.not_lost_dead hn hl
      · exact .inr (.inl hl)
      · exact .inr (.inr hl)
  · rcases hc.writer with ⟨-, hw, hwr⟩ | ⟨hw, -⟩
    · refine ⟨fun out ho => ?_, hwr⟩
      rw [hw, ho]
      exact h.onWay (.inr hp)
    · rw [hok] at hw
      cases hw

theorem advance (h : Leads s) {d : CliStream} (hd : Advances s.cli d)
    (ho : s.out = .plain .sending) :
    Leads { s with
      cli := d
      out := .plain (if d.writer ≠ .idle then .sending else if d.failed then .ended else .reading) } := by
  have hp : place s.out = .sending := by rw [ho]; rfl
  obtain ⟨hc, hfail, hgo⟩ := h.carried hp hd
  have hbase := h.base_carries hp hc
  by_cases hw : d.writer = .idle
  · cases hf : d.failed with
    | true =>
      have hl : Lost s := (hfail.resolve_left (by rw [hf]; nofun)).2
      simp only [hw, ne_eq, not_true_eq_false, if_false, if_true]
      exact of_ended (hbase _) rfl hw (chunks_plain _)
        (.inl (hl.mono id hc.closed.trans hc.outOpen.trans))
    | false =>
      obtain ⟨hcs, hway, -⟩ := hgo hf
      simp only [hw, ne_eq, not_true_eq_false, if_false, Bool.false_eq_true]
      exact of_live (hbase _) (.inl rfl) (hway _ (by rw [ho]; rfl)) hw hf hcs (chunks_plain _) nofun
  · have hf : d.failed = false := hfail.resolve_right fun he => hw he.1
    obtain ⟨hcs, hway, hfits⟩ := hgo hf
    simp only [ne_eq, hw, not_false_eq_true, if_true]
    exact of_live (hbase _) (.inr rfl) (hway _ (by rw [ho])) (hfits.resolve_left hw) hf hcs
      (chunks_plain _) nofun

theorem sending (h : Leads s) {r : ReadSocket} {queue : List Bytes} {d : CliStream}
    (hd : Advances s.cli d) (ho : s.out = .shaped r queue .sending)
    (hor : d.writer ≠ .idle ∨ d.failed = false) :
    Leads { s with
      cli := d
      out := .shaped r queue (if d.writer ≠ .idle then .sending else .waiting) } := by
  have hp : place s.out = .sending := by rw [ho]; rfl
  obtain ⟨hc, hfail, hgo⟩ := h.carried hp hd
  have hbase := h.base_carries hp hc
  have hf : d.failed = false := by
    rcases hor with hw | hf
    · exact hfail.resolve_right fun he => hw he.1
    · exact hf
  obtain ⟨hcs, hway, hfits⟩ := hgo hf
  have hchunks := h.chunks r queue _ ho
  have hsource : ∀ w', Place.Live (place (.shaped r queue w')) → ∀ q w,
      Outward.shaped r queue w' = .shaped .ended q w → s.socket.input = [] ∧
        s.socket.ending ≠ none ∧ (s.socket.ending = some .error → Lost s) := by
    intro w' _ q w he
    cases he
    exact h.source queue .sending ho (by rw [hp]; exact .inr rfl)
  have hlost : Lost s → Lost { s with cli := d } :=
    fun hl => hl.mono id hc.closed.trans hc.outOpen.trans
  by_cases hw : d.writer = .idle
  · simp only [hw, ne_eq, not_true_eq_false, if_false]
    refine of_live (hbase _) (.inl rfl) (hway _ (by rw [ho]; rfl)) hw hf hcs ?_ ?_
    · intro _ _ _ he
      cases he
      exact ⟨hchunks.1, nofun, hchunks.2.2⟩
    · intro q w he
      obtain ⟨hi, hen, hl⟩ := hsource .waiting (.inl rfl) q w he
      exact ⟨hi, hen, hlost ∘ hl⟩
  · simp only [ne_eq, hw, not_false_eq_true, if_true]
    refine of_live (hbase _) (.inr rfl) (hway _ (by rw [ho])) (hfits.resolve_left hw) hf hcs ?_ ?_
    · intro _ _ _ he
      cases he
      exact ⟨hchunks.1, nofun, hchunks.2.2⟩
    · intro q w he
      obtain ⟨hi, hen, hl⟩ := hsource .sending (.inr rfl) q w he
      exact ⟨hi, hen, hlost ∘ hl⟩

/-- The CLOSE gets on the connection, if there is one. -/
theorem closed (h : Leads s) (hp : place s.out = .closing) {d : CliStream}
    (hd : Advances s.cli d) {out : Outward} (ho : place out = .ended) (hc : Chunks out) :
    Leads { s with cli := d, out } := by
  have hf := h.fits
  rw [hp] at hf
  have hw : s.cli.writer = .closing := hf
  have hn : s.out ≠ .plain .ended := by intro ho; rw [ho] at hp; cases hp
  obtain ⟨hcs, hcl⟩ := h.closing hp
  have hd : d = { s.cli with
      wire := s.cli.wire ++ (if s.cli.outOpen then [.close] else [])
      writer := .idle } := by
    rcases hd with hd | hd
    · cases cliStep_of_step hd <;> simp_all
    · cases cliStep_of_step hd <;> simp_all
  subst hd
  have hpay : payload (s.cli.wire ++ if s.cli.outOpen then [.close] else []) =
      payload s.cli.wire := by
    split <;> simp
  have sent : ∀ e, Sent s e → Sent { s with
      cli := { s.cli with
        wire := s.cli.wire ++ (if s.cli.outOpen then [.close] else [])
        writer := .idle }
      out } e := fun e hs => ⟨hs.1, hpay.trans hs.2⟩
  have hclose : .close ∈ (s.cli.wire ++ if s.cli.outOpen then [.close] else []) → Sent s .eof := by
    intro hm
    rcases List.mem_append.mp hm with hm | hm
    · exact h.close hm
    · split at hm
      · next hopen => exact hcl.resolve_left (by rw [hopen]; nofun)
      · cases hm
  have hbase : Base { s with
      cli := { s.cli with
        wire := s.cli.wire ++ (if s.cli.outOpen then [.close] else [])
        writer := .idle }
      out } := by
    refine ⟨hpay.symm ▸ h.sent, fun hm => sent _ (hclose hm), h.told,
      fun hd => .inl (h.not_lost_dead hn hd), h.spawned, fun hr => h.reset (hr.imp_left fun hr => ?_)⟩
    rcases List.mem_append.mp hr with hr | hr
    · exact hr
    · split at hr <;> simp at hr
  refine of_ended hbase ho rfl hc ?_
  by_cases hopen : s.cli.outOpen = true
  · have hse := hcl.resolve_left (by rw [hopen]; nofun)
    exact .inr (.inl ⟨sent _ hse, hcs, List.mem_append_right _ (by simp [hopen])⟩)
  · exact .inl (.inr (.inr (by simpa using hopen)))

/-- Something is moved between the tasks, and the one with the writer stays where it is. -/
theorem moved (h : Leads s) {k : Socket} {out : Outward} (hoff : k.offered = s.socket.offered)
    (hend : k.ending = s.socket.ending) (hbr : k.broken = s.socket.broken)
    (hn : ∀ a, s.out ≠ .plain a) (ho : place out = place s.out)
    (hway : (place s.out).Live → ahead out ++ k.input = ahead s.out ++ s.socket.input)
    (hc : Chunks out)
    (hsource : ∀ queue w, out = .shaped .ended queue w → (place s.out).Live →
      k.input = [] ∧ k.ending ≠ none ∧ (k.ending = some .error → Lost s)) :
    Leads { s with socket := k, out } := by
  have hin : Within s { s with socket := k, out } :=
    ⟨rfl, rfl, rfl, rfl, rfl, rfl, hoff, hend, hbr⟩
  constructor
  · exact hin.base h.toBase (hn _)
  · intro hl
    have hl : (place s.out).Live := ho ▸ hl
    simp only [List.append_assoc, hway hl, hoff]
    simpa only [List.append_assoc] using h.onWay hl
  · exact ho.symm ▸ h.fits
  · exact ho.symm ▸ h.failed
  · exact ho.symm ▸ h.unclosed
  · exact hc
  · exact fun queue w he hl => hsource queue w he (ho ▸ hl)
  · exact fun hp => (h.closing (ho ▸ hp)).imp_right (.imp_right hin.sent)
  · intro hp
    rcases h.ended (ho ▸ hp) with hl | ⟨hs, hrest⟩ | ⟨-, hs, -⟩
    · exact .inl (hin.lost hl)
    · exact .inr (.inl ⟨hin.sent hs, hrest⟩)
    · exact absurd hs (hn _)

/-- A chunk gets into the queue, or has to wait for it. -/
theorem passes (h : Leads s) {k : Socket} {r : ReadSocket} {queue : List Bytes} {w : WriteMux}
    {chunk : Bytes} (hs : s.out = .shaped r queue w) (hne : chunk ≠ [])
    (hoff : k.offered = s.socket.offered) (hend : k.ending = s.socket.ending)
    (hbr : k.broken = s.socket.broken)
    (hway : ahead.passing r ++ s.socket.input = chunk ++ k.input) :
    Leads { s with socket := k, out := Pump.pass queue w chunk } := by
  obtain ⟨hq, hw, -⟩ := h.chunks r queue w hs
  have hn : ∀ a, s.out ≠ .plain a := by rw [hs]; nofun
  have hplace : ∀ r' q', place (.shaped r' q' w) = place s.out := by
    intro r' q'
    rw [hs]
    cases w <;> rfl
  unfold Pump.pass
  split
  · next he =>
    have hdone : ¬ (place s.out).Live := by
      rw [hs, he]
      simp [place, Place.Live]
    refine h.moved hoff hend hbr hn (hplace _ _) (absurd · hdone) ?_ fun _ _ _ => (absurd · hdone)
    intro _ _ _ he
    cases he
    exact ⟨hq, hw, nofun⟩
  · split
    · refine h.moved hoff hend hbr hn (hplace _ _) (fun _ => ?_) ?_ nofun
      · rw [hs]
        simp only [ahead, List.append_assoc, hway]
        simp [ahead.passing]
      · intro _ _ _ he
        cases he
        refine ⟨fun c hc => ?_, hw, nofun⟩
        rcases List.mem_append.mp hc with hc | hc
        · exact hq c hc
        · exact List.mem_singleton.mp hc ▸ hne
    · refine h.moved hoff hend hbr hn (hplace _ _) (fun _ => ?_) ?_ nofun
      · rw [hs]
        simp only [ahead, List.append_assoc, hway]
        simp [ahead.passing]
      · intro _ _ _ he
        cases he
        exact ⟨hq, hw, fun he => hne (ReadSocket.passing.inj he)⟩

theorem wake (h : Leads s) {r : ReadSocket} {queue : List Bytes} {chunk : Bytes}
    (ho : s.out = .shaped r queue (.sleeping chunk)) :
    Leads { s with cli := s.cli.send chunk, out := .shaped r queue .sending } := by
  obtain ⟨hq, hw, hr⟩ := h.chunks r queue _ ho
  have hp : place s.out = .between := by rw [ho]; rfl
  have hne : chunk ≠ [] := fun he => hw (congrArg _ he)
  have hin : Within s { s with cli := s.cli.send chunk, out := .shaped r queue .sending } :=
    ⟨rfl, rfl, rfl, rfl, rfl, rfl, rfl, rfl, rfl⟩
  refine of_live (hin.base h.toBase (by rw [ho]; exact fun he => by cases he)) (.inr rfl) ?_
    (fits_send _ hne) (h.failed (.inl hp)) (h.unclosed (.inl hp)) ?_ ?_
  · have hway := h.onWay (.inl hp)
    rw [h.idle hp, ho] at hway
    simp only [unsent_send]
    simpa [CliStream.send, ahead, ahead.sleeping] using hway
  · intro _ _ _ he
    cases he
    exact ⟨hq, WriteMux.noConfusion, hr⟩
  · intro q w he
    cases he
    exact h.source queue _ ho (by rw [hp]; exact .inl rfl)

/-- A turn towards the stream, unless it takes a failed read for an end. -/
theorem out {t : Pump} {e : Event} (h : Leads s) (hok : Careful s e) (ho : OutTurn s e t) :
    Leads t := by
  have shaped : ∀ {r queue w}, s.out = .shaped r queue w → ∀ a, s.out ≠ .plain a := by
    intro r queue w hs a
    rw [hs]
    nofun
  have empty : ∀ r, r ≠ .passing [] → ∀ w, w ≠ .sleeping [] → Chunks (.shaped r [] w) := by
    intro r hr w hw _ _ _ he
    cases he
    exact ⟨nofun, hw, hr⟩
  cases ho with
  | read n hi hn ho => exact h.read hi hn.1 ho
  | eof hi he ho =>
    have hp : place s.out = .between := by rw [ho]; rfl
    exact of_close h.toBase (h.idle hp) (h.unclosed (.inl hp))
      (.inr ⟨he, h.all_sent hp (by rw [ho]; rfl) hi⟩) (by rw [ho]; nofun) rfl rfl (chunks_plain _)
      (chunks_plain _)
  | error hi he ho => exact h.error hi he ho
  | advance d hd ho => exact h.advance hd ho
  | closed d hd ho => exact h.closed (by rw [ho]; rfl) hd rfl (chunks_plain _)
  | readShaped n queue w hi hn ho =>
    refine h.passes ho (take_ne_nil hi hn.1) rfl rfl rfl ?_
    simp [ahead.passing]
  | endShaped n hev ending queue w hi he ho =>
    obtain ⟨hq, hw, -⟩ := h.chunks _ _ _ ho
    refine h.moved rfl rfl rfl (shaped ho) ?_ (fun _ => ?_) ?_ ?_
    · rw [ho]
      cases w <;> rfl
    · rw [ho]
      rfl
    · intro _ _ _ he
      cases he
      exact ⟨hq, hw, nofun⟩
    · intro q w' _ _
      refine ⟨hi, by rw [he]; nofun, fun herr => hok n queue w hev ho hi herr⟩
  | passOn chunk queue w hq ho =>
    obtain ⟨-, -, hr⟩ := h.chunks _ _ _ ho
    exact h.passes ho (fun he => hr (congrArg _ he)) rfl rfl rfl rfl
  | next r chunk queue ho =>
    obtain ⟨hq, -, hr⟩ := h.chunks _ _ _ ho
    have hp : place s.out = .between := by rw [ho]; rfl
    refine h.moved rfl rfl rfl (shaped ho) (by rw [ho]; rfl) (fun _ => ?_) ?_ ?_
    · rw [ho]
      simp [ahead, ahead.sleeping]
    · intro _ _ _ he
      cases he
      refine ⟨fun c hc => hq c (List.mem_cons_of_mem _ hc), fun he => ?_, hr⟩
      exact hq chunk List.mem_cons_self (WriteMux.sleeping.inj he)
    · intro q w he hl
      cases he
      exact h.source _ _ ho hl
  | none ho =>
    have hp : place s.out = .between := by rw [ho]; rfl
    obtain ⟨hi, hen, hlost⟩ := h.source _ _ ho (by rw [hp]; exact .inl rfl)
    have hall := h.all_sent hp (by rw [ho]; rfl) hi
    refine of_close h.toBase (h.idle hp) (h.unclosed (.inl hp)) ?_ (by rw [ho]; nofun) rfl rfl
      (empty .ended nofun .closing nofun) (empty .ended nofun .ended nofun)
    cases he : s.socket.ending with
    | none => exact absurd he hen
    | some ending =>
      cases ending with
      | eof => exact .inr ⟨he, hall⟩
      | error => exact .inl (hlost he)
  | wake r chunk queue ho => exact h.wake ho
  | sending r queue d hd ho hw => exact h.sending hd ho hw
  | failed r queue d hd ho hw hf =>
    have hp : place s.out = .sending := by rw [ho]; rfl
    obtain ⟨hq, -, hr⟩ := h.chunks _ _ _ ho
    obtain ⟨hc, hfail, -⟩ := h.carried hp hd
    have hl : Lost s := (hfail.resolve_left (by rw [hf]; nofun)).2
    have hbase : Base { s with cli := d } := h.base_carries hp hc s.out
    refine of_close hbase hw (hc.closeSent.trans (h.unclosed (.inr hp)))
      (.inl (hl.mono id hc.closed.trans hc.outOpen.trans)) (shaped ho _) rfl rfl ?_
      (empty _ hr _ nofun)
    intro _ _ _ he
    cases he
    exact ⟨hq, nofun, hr⟩
  | closedShaped r queue d hd ho =>
    obtain ⟨-, -, hr⟩ := h.chunks _ _ _ ho
    exact h.closed (by rw [ho]; rfl) hd rfl (empty _ hr _ nofun)

theorem step {t : Pump} {e : Event} (h : Leads s) (ha : Arrives s) (hok : Careful s e)
    (hst : Pumping.step s e = some t) : Leads t := by
  rcases step_cases hst with ho | hb | ho | ⟨ho, hb, -, rfl⟩
  · exact h.out hok ho
  · exact h.back ha hb
  · exact h.outside ho
  · exact h.finish ha ho hb

end Leads

theorem leads_start (active : Bool) : Leads (start active) := by
  have hbase : Base (start active) := by
    cases active <;> exact ⟨List.prefix_rfl, nofun, nofun, nofun, nofun, by rintro (h | h) <;> cases h⟩
  cases active with
  | true =>
    refine Leads.of_live hbase (.inl rfl) rfl rfl rfl rfl ?_ nofun
    intro _ _ _ he
    cases he
    exact ⟨nofun, nofun, nofun⟩
  | false => exact Leads.of_live hbase (.inl rfl) rfl rfl rfl rfl (chunks_plain _) nofun

/-- What holds in every state of a careful run. -/
theorem invariants {active : Bool} {s : Pump} (h : (machine active).Reaches Careful s) :
    Fits s ∧ Arrives s ∧ Leads s := by
  refine Machine.Reaches.invariant (I := fun s => Fits s ∧ Arrives s ∧ Leads s) h ?_ ?_
  · rintro s rfl
    exact ⟨fits_start active, arrives_start active, leads_start active⟩
  · rintro s t e ⟨hf, ha, hl⟩ hok hst
    exact ⟨hf.step hst, ha.step hf hst, hl.step ha hok hst⟩

end Tunlit.Client.Departures
