import Tunlit.Client.Pumping

/-! # When the visitor goes away

Once `recv` has returned Reset nothing more comes from the visitor. The local app learns of
it when the pump returns or shuts its half of the connection down. Without a shape only the
task that writes to the app ends; the other one ends when it takes up something that it cannot
send any more. With a shape the app is told behind the bytes that are still queued for it. -/
namespace Tunlit.Client.Resets
open Tunlit.Lib.Runs Tunlit.Mux.Frames Tunlit.Mux.Cli Tunlit.Client.Pumping

/-! ## Stuck states -/

/-- The steps of the tasks, with the smallest read and the smallest write. -/
def attempts : List Event :=
  [.read 1, .passOn, .nextMux, .wakeMux, .take, .outSend, .received, .passBackOn, .nextSocket,
    .wakeSocket, .write 1, .finish]

theorem read_none {s : Pump} (h : s.read 1 = none) (n : Nat) : s.read n = none := by
  have hk : s.socket.read 1 = none → s.socket.read n = none := by
    intro hr
    unfold Socket.read at hr ⊢
    split
    · next hi => simpa [hi] using hr
    · next hi =>
      have hl : 0 < s.socket.input.length := List.length_pos_iff.mpr hi
      rw [if_neg hi, if_pos ⟨by decide, by decide, hl⟩] at hr
      cases hr
  unfold Pump.read at h ⊢
  split
  · next ho =>
    simp only [ho, Option.map_eq_none_iff] at h ⊢
    exact hk h
  · next ho =>
    simp only [ho, Option.map_eq_none_iff] at h ⊢
    exact hk h
  · rfl

theorem write_none {s : Pump} (h : s.write 1 = none) (n : Nat) : s.write n = none := by
  have hk : ∀ left, s.socket.write left 1 = none → s.socket.write left n = none := by
    intro left hr
    unfold Socket.write at hr ⊢
    rw [ite_eq_right_iff] at hr ⊢
    intro hn
    have := hr ⟨by decide, by omega, by omega⟩
    cases this
  unfold Pump.write at h ⊢
  split
  · next left hb =>
    simp only [hb] at h
    split at h
    · cases h
    · next hbr =>
      rw [if_neg hbr]
      simp only [Option.map_eq_none_iff] at h ⊢
      exact hk left h
  · next left hb =>
    simp only [hb] at h
    split at h
    · cases h
    · next hbr =>
      rw [if_neg hbr]
      simp only [Option.map_eq_none_iff] at h ⊢
      exact hk left h
  · rfl

theorem stuck_iff (s : Pump) : Stuck s ↔ ∀ e ∈ attempts, step s e = none := by
  constructor
  · intro h e he
    refine h e ?_
    revert he e
    decide
  · intro h e he
    cases e with
    | read n => exact read_none (h (.read 1) (by decide)) n
    | write n => exact write_none (h (.write 1) (by decide)) n
    | frame _ | closed | outClosed | shutdown | spawned _ | sends _ | ends _ | takes _ | breaks =>
      cases he
    | _ => exact h _ (by decide)

instance (s : Pump) : Decidable (Stuck s) := decidable_of_iff _ (stuck_iff s).symm

/-! ## What goes on by itself -/

/-- The bytes on their way to the socket. -/
def backlog : Inward → Bytes
  | .plain (.writing left) => left
  | .plain _ => []
  | .shaped r queue w => writing w ++ queue.flatten ++ passing r
where
  writing : WriteSocket → Bytes
    | .sleeping chunk | .writing chunk => chunk
    | .waiting | .ended => []
  passing : ReadMux → Bytes
    | .passing chunk => chunk
    | .receiving | .ended => []

/-- The writer still waits for credit. -/
def Taking (c : CliStream) : Prop := ∃ chunk rest, c.writer = .taking chunk rest

instance (c : CliStream) : Decidable (Taking c) :=
  match h : c.writer with
  | .taking chunk rest => isTrue ⟨chunk, rest, h⟩
  | .idle | .charged _ _ | .closing => isFalse fun ⟨_, _, ht⟩ => by rw [h] at ht; cases ht

/-- The pump has an end before it that it gets to when the stream is over and the app does
nothing. -/
def Leaves (s : Pump) : Prop :=
  match s.back with
  | .plain _ =>
    s.out = .plain .ended ∨ s.out = .plain .closing ∨
      s.socket.input ≠ [] ∨ s.socket.ending ≠ none ∨
      s.out = .plain .sending ∧ (Taking s.cli ∨ s.cli.outOpen = false)
  | .shaped _ _ w =>
    w = .ended ∨ s.socket.broken = true ∨ (backlog s.back).length ≤ s.socket.room

instance (s : Pump) : Decidable (Leaves s) := by
  unfold Leaves
  split <;> infer_instance

/-- When `recv` returns Reset the pump has an end before it. -/
def Leaving (s : Pump) (e : Event) : Prop := e = .received → s.item = .reset → Leaves s

instance (s : Pump) (e : Event) : Decidable (Leaving s e) :=
  inferInstanceAs (Decidable (_ → _ → _))

/-! ## The stream under the tasks -/

/-- The writer is where it was, and what is over stays over. -/
structure Calm (c d : CliStream) : Prop where
  writer : d.writer = c.writer
  outOpen : c.outOpen = false → d.outOpen = false
  dead : c.dead = true → d.dead = true

namespace Calm

variable {c d : CliStream}

theorem refl (c : CliStream) : Calm c c := ⟨rfl, id, id⟩

theorem trans {e : CliStream} (h : Calm c d) (h' : Calm d e) : Calm c e :=
  ⟨h'.writer.trans h.writer, h'.outOpen ∘ h.outOpen, h'.dead ∘ h.dead⟩

theorem taking (h : Calm c d) (ht : Taking c) : Taking d := by
  obtain ⟨chunk, rest, hw⟩ := ht
  exact ⟨chunk, rest, h.writer.trans hw⟩

theorem trySend (c : CliStream) (frame : Frame) : Calm c (c.trySend frame) := ⟨rfl, id, id⟩

theorem recv (c : CliStream) : Calm c c.recv := by
  unfold CliStream.recv CliStream.ack
  split
  · split
    · exact ⟨rfl, id, id⟩
    · exact ⟨rfl, id, id⟩
  · exact ⟨rfl, id, id⟩

theorem received (h : c.received? = some d) : Calm c d := by
  unfold CliStream.received? at h
  dsimp only at h
  split at h
  · cases h
    exact ⟨rfl, id, id⟩
  · cases h
    exact ⟨rfl, id, id⟩
  · cases h
    exact ⟨rfl, id, fun _ => rfl⟩
  · cases h
    exact ⟨rfl, id, id⟩
  · obtain ⟨-, h⟩ := Option.ite_none_left_eq_some.mp h
    cases h
    exact ⟨rfl, id, fun _ => rfl⟩

theorem onFrame (c : CliStream) (frame : Frame) : Calm c (c.onFrame frame) := by
  unfold CliStream.onFrame
  split
  · exact refl c
  · cases frame with
    | reset => exact ⟨rfl, id, fun _ => rfl⟩
    | _ => exact ⟨rfl, id, id⟩

theorem shutdown (c : CliStream) : Calm c c.shutdown := by
  unfold CliStream.shutdown
  split
  · exact ⟨rfl, id, fun _ => rfl⟩
  · exact refl c

theorem drop (c : CliStream) : Calm c c.drop := by
  unfold CliStream.drop
  dsimp only
  split
  · exact ⟨rfl, id, id⟩
  · exact ⟨rfl, id, id⟩

theorem runSpawned {i : Nat} (h : c.runSpawned i = some d) : Calm c d := by
  unfold CliStream.runSpawned at h
  split at h
  · cases h
  · cases h
    exact ⟨rfl, id, id⟩

end Calm

/-- A chunk that was read makes the writer wait for its credit. -/
theorem taking_send (c : CliStream) {data : Bytes} (hd : data ≠ []) : Taking (c.send data) := by
  cases hc : Tunlit.Lib.Chunks.chunks CHUNK data with
  | nil =>
    have := Tunlit.Lib.Chunks.flatten_chunks (n := CHUNK) (by decide) data
    rw [hc] at this
    exact absurd this.symm hd
  | cons chunk rest => exact ⟨chunk, rest, by simp [CliStream.send, hc, nextChunk]⟩

theorem close_writer (c : CliStream) (hw : c.writer = .idle) :
    c.close.writer = .idle ∨ c.close.writer = .closing := by
  unfold CliStream.close
  dsimp only
  split
  · exact .inl hw
  · split
    · exact .inl hw
    · exact .inr rfl

theorem close_dead (c : CliStream) : c.close.dead = c.dead := by
  unfold CliStream.close
  dsimp only
  split
  · rfl
  · split <;> rfl

/-- Where a turn of the writer leads. -/
theorem advances_cases {c d : CliStream} (h : Advances c d) :
    d.dead = c.dead ∧
      (d.writer = .idle ∨ ∃ chunk rest, d.writer = .taking chunk rest ∨ d.writer = .charged chunk rest) := by
  rcases h with h | h
  · cases cliStep_of_step h with
    | takeDead chunk rest hw hd => exact ⟨rfl, .inl rfl⟩
    | takeClosed chunk rest hw hd ha hc => exact ⟨rfl, .inl rfl⟩
    | take chunk rest hw hd ha hc => exact ⟨rfl, .inr ⟨chunk, rest, .inr rfl⟩⟩
  · cases cliStep_of_step h with
    | outSend chunk rest hw ho =>
      refine ⟨rfl, ?_⟩
      cases rest with
      | nil => exact .inl rfl
      | cons next rest => exact .inr ⟨next, rest, .inl rfl⟩
    | outSendFails chunk rest hw ho => exact ⟨rfl, .inl rfl⟩
    | outSendClose hw => exact ⟨rfl, .inl rfl⟩

/-- A writer that waits for credit of a stream that is over fails, and so does one whose
connection takes no messages. -/
theorem advances_over {c d : CliStream} (h : Advances c d) (hd : c.dead = true)
    (hw : c.writer ≠ .closing) (ht : Taking c ∨ c.outOpen = false) :
    d.writer = .idle ∧ d.failed = true := by
  rcases h with h | h
  · cases cliStep_of_step h with
    | takeDead => exact ⟨rfl, rfl⟩
    | takeClosed _ _ _ hd' => rw [hd] at hd'; cases hd'
    | take _ _ _ hd' => rw [hd] at hd'; cases hd'
  · cases cliStep_of_step h with
    | outSend chunk rest hw ho =>
      rcases ht with ⟨_, _, ht⟩ | ht
      · rw [hw] at ht; cases ht
      · rw [ho] at ht; cases ht
    | outSendFails => exact ⟨rfl, rfl⟩
    | outSendClose hc => exact absurd hc hw

/-! ## Turns of one direction -/

theorem pass_shaped (queue : List Bytes) (w : WriteMux) (chunk : Bytes) :
    ∃ r q w', Pump.pass queue w chunk = .shaped r q w' := by
  unfold Pump.pass
  split
  · exact ⟨_, _, _, rfl⟩
  · split <;> exact ⟨_, _, _, rfl⟩

/-- What a turn towards the stream leaves alone. -/
theorem outTurn_frame {s t : Pump} {e : Event} (h : OutTurn s e t) :
    t.back = s.back ∧ t.sawReset = s.sawReset ∧ t.returned = s.returned ∧ t.told = s.told ∧
      t.socket = { s.socket with input := t.socket.input } ∧
      (s.cli.dead = true → t.cli.dead = true) := by
  cases h with
  | error => exact ⟨rfl, rfl, rfl, rfl, rfl, fun hd => by simp [CliStream.reset, hd]⟩
  | eof | none => exact ⟨rfl, rfl, rfl, rfl, rfl, fun hd => (close_dead _).trans hd⟩
  | failed r queue d hd =>
    exact ⟨rfl, rfl, rfl, rfl, rfl, fun h => (close_dead d).trans ((advances_cases hd).1.trans h)⟩
  | advance d hd | closed d hd | sending r queue d hd | closedShaped r queue d hd =>
    exact ⟨rfl, rfl, rfl, rfl, rfl, fun h => (advances_cases hd).1.trans h⟩
  | _ => exact ⟨rfl, rfl, rfl, rfl, rfl, id⟩

/-- What the tasks towards the socket leave alone. -/
structure Apart (s t : Pump) : Prop where
  out : t.out = s.out
  cli : Calm s.cli t.cli
  input : t.socket.input = s.socket.input
  ending : t.socket.ending = s.socket.ending
  offered : t.socket.offered = s.socket.offered
  broken : t.socket.broken = s.socket.broken
  shut : s.socket.shut = true → t.socket.shut = true
  told : t.told = s.told
  returned : t.returned = s.returned

namespace Apart

variable {s t u : Pump}

theorem refl (s : Pump) : Apart s s := ⟨rfl, .refl _, rfl, rfl, rfl, rfl, id, rfl, rfl⟩

theorem trans (h : Apart s t) (h' : Apart t u) : Apart s u where
  out := h'.out.trans h.out
  cli := h.cli.trans h'.cli
  input := h'.input.trans h.input
  ending := h'.ending.trans h.ending
  offered := h'.offered.trans h.offered
  broken := h'.broken.trans h.broken
  shut := h'.shut ∘ h.shut
  told := h'.told.trans h.told
  returned := h'.returned.trans h.returned

theorem turn (back : Inward) : Apart s { s with back } := { refl s with }

theorem recv (back : Inward) : Apart s { s with cli := s.cli.recv, back } :=
  { refl s with cli := .recv _ }

theorem shutdown (back : Inward) : Apart s { s with socket := s.socket.shutdown, back } :=
  { refl s with shut := fun _ => rfl }

theorem writePlain (left : Bytes) : Apart s (s.writePlain left) := by
  unfold Pump.writePlain
  split
  · exact recv _
  · exact turn _

theorem passBack (queue : List Bytes) (w : WriteSocket) (chunk : Bytes) :
    Apart s (s.passBack queue w chunk) := by
  unfold Pump.passBack
  split
  · exact turn _
  · split
    · exact recv _
    · exact turn _

theorem receive {item : Incoming} (h : s.receive item = some t) : Apart s t := by
  unfold Pump.receive at h
  split at h
  · cases item with
    | data d =>
      cases h
      exact writePlain d
    | datagram d =>
      cases h
      exact recv s.back
    | close =>
      cases h
      exact shutdown _
    | reset =>
      cases h
      exact turn _
  · cases item with
    | data d =>
      cases h
      exact passBack _ _ d
    | datagram d =>
      cases h
      exact recv s.back
    | close =>
      cases h
      exact turn _
    | reset =>
      cases h
      exact turn _
  · cases h

theorem got {d : CliStream} (h : s.cli.received? = some d) : Apart s (s.got d) :=
  { refl s with cli := .received h }

theorem written {left rest : Bytes} {n : Nat} {k : Socket}
    (h : s.socket.write left n = some (rest, k)) : Apart s { s with socket := k } := by
  obtain ⟨-, h⟩ := Option.ite_none_right_eq_some.mp h
  cases h
  exact { refl s with }

theorem backTurn {e : Event} (h : BackTurn s e t) : Apart s t := by
  cases h with
  | received d _ hd ht => exact (got hd).trans (receive ht)
  | passBack chunk queue w hq hb => exact passBack queue w chunk
  | next | fails => exact turn _
  | none | failsShaped => exact shutdown _
  | wake => exact turn _
  | write n left rest k hk hw hb => exact (written hw).trans (writePlain rest)
  | writeShaped r queue n left rest k hk hw hb => exact (written hw).trans (turn _)

end Apart

/-- What the connection and the app leave alone, and what they only add to. -/
structure Around (s t : Pump) : Prop where
  out : t.out = s.out
  back : t.back = s.back
  cli : Calm s.cli t.cli
  input : s.socket.input ≠ [] → t.socket.input ≠ []
  ending : s.socket.ending ≠ none → t.socket.ending ≠ none
  broken : s.socket.broken = true → t.socket.broken = true
  room : s.socket.room ≤ t.socket.room
  shut : t.socket.shut = s.socket.shut
  returned : s.returned = true → t.returned = true
  sawReset : t.sawReset = s.sawReset

theorem Around.stream (s : Pump) {d : CliStream} (hd : Calm s.cli d) (told : List Incoming) :
    Around s { s with cli := d, told } :=
  ⟨rfl, rfl, hd, id, id, id, Nat.le_refl _, rfl, id, rfl⟩

theorem Around.of_outside {s t : Pump} (h : Outside s t) : Around s t := by
  cases h with
  | frame frame => exact .stream s (.onFrame _ frame) _
  | closed => exact .stream s (d := { s.cli with closed := true }) ⟨rfl, id, id⟩ _
  | outClosed => exact .stream s (d := { s.cli with outOpen := false }) ⟨rfl, fun _ => rfl, id⟩ _
  | shutdown hc => exact .stream s (.shutdown _) _
  | spawned i d hd => exact .stream s (.runSpawned hd) _
  | sends bytes he =>
    refine ⟨rfl, rfl, .refl _, fun hi h => hi ?_, id, id, Nat.le_refl _, rfl, id, rfl⟩
    exact (List.append_eq_nil_iff.mp h).1
  | ends e he => exact ⟨rfl, rfl, .refl _, id, fun _ => nofun, id, Nat.le_refl _, rfl, id, rfl⟩
  | takes n => exact ⟨rfl, rfl, .refl _, id, id, id, Nat.le_add_right _ _, rfl, id, rfl⟩
  | breaks => exact ⟨rfl, rfl, .refl _, id, id, fun _ => rfl, Nat.le_refl _, rfl, id, rfl⟩

theorem Around.of_finish (s : Pump) : Around s { s with cli := s.cli.drop, returned := true } :=
  ⟨rfl, rfl, .drop _, id, id, id, Nat.le_refl _, rfl, fun _ => rfl, rfl⟩

/-- A step is a turn in one of the directions, or nothing that the tasks do. -/
theorem step_around {s t : Pump} {e : Event} (h : step s e = some t) :
    OutTurn s e t ∨ BackTurn s e t ∨ Around s t := by
  rcases step_cases h with ho | hb | ho | ⟨-, -, -, rfl⟩
  · exact .inl ho
  · exact .inr (.inl hb)
  · exact .inr (.inr (.of_outside ho))
  · exact .inr (.inr (.of_finish s))

/-! ## Invariants -/

/-- Where the tasks are, and what they have left behind. -/
structure Fits (s : Pump) : Prop where
  reading : s.out = .plain .reading → s.cli.writer = .idle
  sending : s.out = .plain .sending →
    ∃ chunk rest, s.cli.writer = .taking chunk rest ∨ s.cli.writer = .charged chunk rest
  closing : s.out = .plain .closing → s.cli.writer = .closing
  shut : ∀ r queue w, s.back = .shaped r queue w →
    (w = .ended → s.socket.shut = true) ∧ w ≠ .writing []
  left : s.back ≠ .plain (.writing [])
  same : (∃ a, s.out = .plain a) ↔ ∃ b, s.back = .plain b

/-- No more is asked of the stream. -/
structure Over (s : Pump) : Prop where
  dead : s.cli.dead = true
  reader : s.back = .plain .ended ∨ ∃ queue w, s.back = .shaped .ended queue w
  leaves : Leaves s

theorem fits_start (active : Bool) : Fits (start active) := by
  cases active with
  | true =>
    refine ⟨nofun, nofun, nofun, fun _ _ _ h => ?_, nofun, by simp [start]⟩
    cases h
    exact ⟨nofun, nofun⟩
  | false =>
    exact ⟨fun _ => rfl, nofun, nofun, nofun, nofun, ⟨fun _ => ⟨_, rfl⟩, fun _ => ⟨_, rfl⟩⟩⟩

/-- A turn towards the stream keeps its variant of the pump. -/
theorem outTurn_same {s t : Pump} {e : Event} (h : OutTurn s e t) :
    (∃ a, t.out = .plain a) ↔ ∃ a, s.out = .plain a := by
  have close_plain : ∀ (u : Pump) a b, ∃ c, (u.close (.plain a) (.plain b)).out = .plain c := by
    intro u a b
    unfold Pump.close
    split <;> exact ⟨_, rfl⟩
  have close_shaped : ∀ (u : Pump) r q, ¬ ∃ c, (u.closeShaped r q).out = .plain c := by
    intro u r q
    unfold Pump.closeShaped Pump.close
    split <;> simp
  cases h with
  | eof hi he ho => simp [ho, close_plain]
  | none ho => simp [ho, close_shaped]
  | failed r queue d hd ho hw hf => simp [ho, close_shaped]
  | readShaped n queue w hi hn ho =>
    obtain ⟨r, q, w', hp⟩ := pass_shaped queue w (s.socket.input.take n)
    simp [ho, hp]
  | passOn chunk queue w hq ho =>
    obtain ⟨r, q, w', hp⟩ := pass_shaped queue w chunk
    simp [ho, hp]
  | read _ _ _ ho | error _ _ ho | advance _ _ ho | closed _ _ ho | endShaped _ _ _ _ _ _ _ ho
  | next _ _ _ ho | wake _ _ _ ho | sending _ _ _ _ ho _ | closedShaped _ _ _ _ ho => simp [ho]

/-- A turn towards the socket keeps its variant of the pump, and `write_socket` does not end
without shutting the socket down. -/
theorem backTurn_same {s t : Pump} {e : Event} (h : BackTurn s e t) :
    ((∃ b, t.back = .plain b) ↔ ∃ b, s.back = .plain b) ∧
      ∀ r queue w, t.back = .shaped r queue w → (∃ r queue, s.back = .shaped r queue w) ∨
        (w = .ended → t.socket.shut = true) ∧ w ≠ .writing [] := by
  have write_plain : ∀ (u : Pump) left, ∃ b, (u.writePlain left).back = .plain b := by
    intro u left
    unfold Pump.writePlain
    split <;> exact ⟨_, rfl⟩
  have pass_back : ∀ (u : Pump) queue w chunk, ∃ r q, (u.passBack queue w chunk).back = .shaped r q w := by
    intro u queue w chunk
    unfold Pump.passBack
    split
    · exact ⟨_, _, rfl⟩
    · split <;> exact ⟨_, _, rfl⟩
  cases h with
  | received d _ hd ht =>
    unfold Pump.receive at ht
    split at ht
    · next hb =>
      have hb : s.back = .plain .receiving := hb
      have hp : ∃ b, t.back = .plain b := by
        cases hi : s.item with
        | data d =>
          rw [hi] at ht
          cases ht
          exact write_plain _ d
        | _ =>
          rw [hi] at ht
          cases ht
          exact ⟨_, by first | exact hb | rfl⟩
      obtain ⟨b, hp⟩ := hp
      simp [hp, hb]
    · next queue w hb =>
      have hb : s.back = .shaped .receiving queue w := hb
      have hp : ∃ r q, t.back = .shaped r q w := by
        cases hi : s.item with
        | data d =>
          rw [hi] at ht
          cases ht
          exact pass_back _ _ _ d
        | _ =>
          rw [hi] at ht
          cases ht
          exact ⟨_, _, by first | exact hb | rfl⟩
      obtain ⟨r, q, hp⟩ := hp
      simp only [hp, hb, Inward.shaped.injEq, reduceCtorEq, exists_false, true_and]
      rintro - - - ⟨-, -, rfl⟩
      exact .inl ⟨_, _, rfl, rfl, rfl⟩
    · cases ht
  | passBack chunk queue w hq hb =>
    obtain ⟨r, q, hp⟩ := pass_back s queue w chunk
    simp only [hp, hb, Inward.shaped.injEq, reduceCtorEq, exists_false, true_and]
    rintro - - - ⟨-, -, rfl⟩
    exact .inl ⟨_, _, rfl, rfl, rfl⟩
  | write n left rest k hk hw hb =>
    obtain ⟨b, hp⟩ := write_plain { s with socket := k } rest
    generalize { s with socket := k }.writePlain rest = u at hp
    simp [hp, hb]
  | none hb | failsShaped _ _ _ _ _ hb =>
    simp only [hb, Pump.shutShaped, reduceCtorEq, exists_false, Inward.shaped.injEq, true_and]
    rintro - - - ⟨-, -, rfl⟩
    exact .inr ⟨fun _ => rfl, nofun⟩
  | next r chunk queue hb =>
    simp only [hb, reduceCtorEq, exists_false, Inward.shaped.injEq, true_and]
    rintro - - - ⟨-, -, rfl⟩
    exact .inr ⟨nofun, nofun⟩
  | fails _ _ _ hb => simp [hb]
  | wake r chunk queue hb | writeShaped r queue _ _ _ _ _ _ hb =>
    simp only [hb, Pump.writeShaped, reduceCtorEq, exists_false, Inward.shaped.injEq, true_and]
    rintro - - - ⟨-, -, rfl⟩
    refine .inr ?_
    split
    · exact ⟨nofun, nofun⟩
    · next hne => exact ⟨nofun, fun he => hne (WriteSocket.writing.inj he)⟩

theorem backTurn_left {s t : Pump} {e : Event} (h : BackTurn s e t)
    (hs : s.back ≠ .plain (.writing [])) : t.back ≠ .plain (.writing []) := by
  have write_plain : ∀ (u : Pump) left, (u.writePlain left).back ≠ .plain (.writing []) := by
    intro u left
    unfold Pump.writePlain
    split
    · nofun
    · next hne => exact fun he => hne (FromMux.writing.inj (Inward.plain.inj he))
  have pass_back : ∀ (u : Pump) queue w chunk, ∃ r q w', (u.passBack queue w chunk).back = .shaped r q w' := by
    intro u queue w chunk
    unfold Pump.passBack
    split
    · exact ⟨_, _, _, rfl⟩
    · split <;> exact ⟨_, _, _, rfl⟩
  cases h with
  | received d _ hd ht =>
    unfold Pump.receive at ht
    split at ht
    · next hb =>
      cases hi : s.item with
      | data d =>
        rw [hi] at ht
        cases ht
        exact write_plain _ d
      | datagram d =>
        rw [hi] at ht
        cases ht
        exact hs
      | close | reset =>
        rw [hi] at ht
        cases ht
        nofun
    · next queue w hb =>
      cases hi : s.item with
      | data d =>
        rw [hi] at ht
        cases ht
        obtain ⟨r, q, w', hp⟩ := pass_back (s.got _) queue w d
        exact hp.symm ▸ nofun
      | datagram d =>
        rw [hi] at ht
        cases ht
        exact hs
      | close | reset =>
        rw [hi] at ht
        cases ht
        nofun
    · cases ht
  | passBack chunk queue w hq hb =>
    obtain ⟨r, q, w', hp⟩ := pass_back s queue w chunk
    exact hp.symm ▸ nofun
  | write n left rest k hk hw hb => exact write_plain _ rest
  | _ => nofun

namespace Fits

variable {s t : Pump}

theorem around (h : Fits s) (ha : Around s t) : Fits t where
  reading := by rw [ha.out, ha.cli.writer]; exact h.reading
  sending := by rw [ha.out, ha.cli.writer]; exact h.sending
  closing := by rw [ha.out, ha.cli.writer]; exact h.closing
  shut := by rw [ha.back, ha.shut]; exact h.shut
  left := by rw [ha.back]; exact h.left
  same := by rw [ha.out, ha.back]; exact h.same

theorem back (h : Fits s) {e : Event} (hb : BackTurn s e t) : Fits t := by
  have ha := Apart.backTurn hb
  obtain ⟨hsame, hshut⟩ := backTurn_same hb
  refine ⟨?_, ?_, ?_, fun r queue w he => ?_, backTurn_left hb h.left, ?_⟩
  · rw [ha.out, ha.cli.writer]; exact h.reading
  · rw [ha.out, ha.cli.writer]; exact h.sending
  · rw [ha.out, ha.cli.writer]; exact h.closing
  · rcases hshut r queue w he with ⟨r, queue, hs⟩ | hs
    · exact (h.shut r queue w hs).imp_left (ha.shut ∘ ·)
    · exact hs
  · rw [ha.out, hsame]; exact h.same

theorem out (h : Fits s) {e : Event} (ho : OutTurn s e t) : Fits t := by
  obtain ⟨hb, -, -, -, hk, -⟩ := outTurn_frame ho
  have hshut : t.socket.shut = s.socket.shut := by rw [hk]
  have rest : ∀ r queue w, t.back = .shaped r queue w →
      (w = .ended → t.socket.shut = true) ∧ w ≠ .writing [] := by
    rw [hb, hshut]
    exact h.shut
  have same : (∃ a, t.out = .plain a) ↔ ∃ b, t.back = .plain b := by
    rw [outTurn_same ho, hb]
    exact h.same
  have left : t.back ≠ .plain (.writing []) := by
    rw [hb]
    exact h.left
  have shaped : (¬ ∃ a, s.out = .plain a) → Fits t := by
    intro hn
    rw [← outTurn_same ho] at hn
    exact ⟨fun he => absurd ⟨_, he⟩ hn, fun he => absurd ⟨_, he⟩ hn, fun he => absurd ⟨_, he⟩ hn,
      rest, left, same⟩
  cases ho with
  | read n hi hn ho =>
    refine ⟨nofun, fun _ => ?_, nofun, rest, left, same⟩
    have hne : s.socket.input.take n ≠ [] := by
      rw [Ne, List.take_eq_nil_iff, not_or]
      exact ⟨by omega, hi⟩
    obtain ⟨chunk, more, hw⟩ := taking_send s.cli hne
    exact ⟨chunk, more, .inl hw⟩
  | eof hi he ho =>
    rcases close_writer s.cli (h.reading ho) with hw | hw
    · have hp : (s.close (.plain .closing) (.plain .ended)).out = .plain .ended := if_pos hw
      refine ⟨?_, ?_, ?_, rest, left, same⟩ <;> rw [hp] <;> nofun
    · have hp : (s.close (.plain .closing) (.plain .ended)).out = .plain .closing :=
        if_neg (by rw [hw]; nofun)
      refine ⟨?_, ?_, fun _ => hw, rest, left, same⟩ <;> rw [hp] <;> nofun
  | error hi he ho => exact ⟨nofun, nofun, nofun, rest, left, same⟩
  | closed d hd ho => exact ⟨nofun, nofun, nofun, rest, left, same⟩
  | advance d hd ho =>
    obtain ⟨-, hw | ⟨chunk, more, hw | hw⟩⟩ := advances_cases hd
    · refine ⟨fun _ => hw, fun he => ?_, fun he => ?_, rest, left, same⟩
      all_goals
        simp only [hw, ne_eq, not_true_eq_false, if_false, Outward.plain.injEq] at he
        split at he <;> cases he
    all_goals
      refine ⟨fun he => ?_, fun _ => ⟨chunk, more, by simp [hw]⟩, fun he => ?_, rest, left, same⟩
      all_goals simp [hw] at he
  | readShaped _ _ _ _ _ ho | endShaped _ _ _ _ _ _ _ ho | passOn _ _ _ _ ho | next _ _ _ ho
  | none ho | wake _ _ _ ho | sending _ _ _ _ ho _ | failed _ _ _ _ ho _ _
  | closedShaped _ _ _ _ ho => exact shaped (by simp [ho])

theorem not_closing (h : Fits s) (ho : s.out = .plain .sending) : s.cli.writer ≠ .closing := by
  obtain ⟨chunk, rest, hw | hw⟩ := h.sending ho <;> rw [hw] <;> nofun

theorem step (h : Fits s) {e : Event} (hst : Pumping.step s e = some t) : Fits t := by
  rcases step_around hst with ho | hb | ha
  · exact h.out ho
  · exact h.back hb
  · exact h.around ha

end Fits

/-! ## Behind the Reset -/

theorem Leaves.around {s t : Pump} (h : Leaves s) (ha : Around s t) : Leaves t := by
  cases hb : s.back with
  | plain b =>
    simp only [Leaves, ha.back, hb, ha.out] at h ⊢
    rcases h with h | h | h | h | ⟨h, hc⟩
    · exact .inl h
    · exact .inr (.inl h)
    · exact .inr (.inr (.inl (ha.input h)))
    · exact .inr (.inr (.inr (.inl (ha.ending h))))
    · exact .inr (.inr (.inr (.inr ⟨h, hc.imp ha.cli.taking ha.cli.outOpen⟩)))
  | shaped r queue w =>
    simp only [Leaves, ha.back, hb] at h ⊢
    exact h.imp_right (.imp ha.broken fun h => h.trans ha.room)

theorem Leaves.out {s t : Pump} (h : Leaves s) (hf : Fits s) (hd : s.cli.dead = true)
    {e : Event} (ho : OutTurn s e t) : Leaves t := by
  obtain ⟨hb, -, -, -, hk, -⟩ := outTurn_frame ho
  cases hs : s.back with
  | shaped r queue w =>
    rw [hs] at hb
    have hroom : t.socket.room = s.socket.room := by rw [hk]
    have hbr : t.socket.broken = s.socket.broken := by rw [hk]
    simp only [Leaves, hs, hb, hroom, hbr] at h ⊢
    exact h
  | plain b =>
    have hb : t.back = .plain b := hb.trans hs
    simp only [Leaves, hs, hb] at h ⊢
    cases ho with
    | read n hi hn ho =>
      have hne : s.socket.input.take n ≠ [] := by
        rw [Ne, List.take_eq_nil_iff, not_or]
        exact ⟨by omega, hi⟩
      exact .inr (.inr (.inr (.inr ⟨rfl, .inl (taking_send s.cli hne)⟩)))
    | eof hi he ho =>
      unfold Pump.close
      split
      · exact .inl rfl
      · exact .inr (.inl rfl)
    | error hi he ho => exact .inl rfl
    | closed d hd ho => exact .inl rfl
    | advance d ha ho =>
      rw [ho] at h
      rcases h with h | h | h | h | ⟨-, h⟩
      · cases h
      · cases h
      · exact .inr (.inr (.inl h))
      · exact .inr (.inr (.inr (.inl h)))
      · obtain ⟨hw, hf⟩ := advances_over ha hd (hf.not_closing ho) h
        exact .inl (by simp [hw, hf])
    | readShaped _ _ _ _ _ ho | endShaped _ _ _ _ _ _ _ ho | passOn _ _ _ _ ho | next _ _ _ ho
    | none ho | wake _ _ _ ho | sending _ _ _ _ ho _ | failed _ _ _ _ ho _ _
    | closedShaped _ _ _ _ ho =>
      obtain ⟨a, ha⟩ := hf.same.mpr ⟨b, hs⟩
      rw [ho] at ha
      cases ha

/-- `write_socket` goes on with what is left, and needs no more room for it. -/
theorem Leaves.back {s t : Pump} (h : Leaves s) {queue : List Bytes} {w : WriteSocket}
    {e : Event} (hr : s.back = .shaped .ended queue w) (hb : BackTurn s e t) :
    Leaves t ∧ ∃ queue w, t.back = .shaped .ended queue w := by
  simp only [Leaves, hr] at h
  cases hb with
  | received d _ hd ht =>
    have hb : (s.got d).back = .shaped .ended queue w := hr
    simp [Pump.receive, hb] at ht
  | passBack chunk q w' hq hb => simp [hr] at hb
  | fails n left hk hb => simp [hr] at hb
  | write n left rest k hk hw hb => simp [hr] at hb
  | none hb =>
    rw [hr] at hb
    cases hb
    exact ⟨.inl rfl, _, _, rfl⟩
  | next r chunk q hb =>
    rw [hr] at hb
    cases hb
    refine ⟨?_, _, _, rfl⟩
    simp only [Leaves]
    rcases h with h | h | h
    · cases h
    · exact .inr (.inl h)
    · refine .inr (.inr ?_)
      simpa [backlog, backlog.writing, Nat.add_assoc] using h
  | wake r chunk q hb =>
    rw [hr] at hb
    cases hb
    refine ⟨?_, _, _, rfl⟩
    simp only [Leaves, Pump.writeShaped]
    rcases h with h | h | h
    · cases h
    · exact .inr (.inl h)
    · refine .inr (.inr ?_)
      by_cases hc : chunk = [] <;> simpa [backlog, backlog.writing, hc] using h
  | failsShaped n r q left hk hb =>
    rw [hr] at hb
    cases hb
    exact ⟨.inl rfl, _, _, rfl⟩
  | writeShaped r q n left rest k hk hw hb =>
    rw [hr] at hb
    cases hb
    obtain ⟨hn, hw⟩ := Option.ite_none_right_eq_some.mp hw
    cases hw
    refine ⟨?_, _, _, rfl⟩
    simp only [Leaves, Pump.writeShaped]
    rcases h with h | h | h
    · cases h
    · rw [hk] at h
      cases h
    · refine .inr (.inr ?_)
      have hl : (backlog (.shaped .ended queue
          (if left.drop n = [] then .waiting else .writing (left.drop n)))).length =
          left.length - n + queue.flatten.length := by
        split
        · next he =>
          have := congrArg List.length he
          simp only [List.length_drop, List.length_nil] at this
          simp [backlog, backlog.writing, backlog.passing, this]
        · simp [backlog, backlog.writing, backlog.passing]
      simp only [hl]
      simp only [backlog, backlog.writing, backlog.passing, List.append_nil, List.length_append] at h
      omega

namespace Over

variable {s t : Pump}

theorem around (h : Over s) (ha : Around s t) : Over t where
  dead := ha.cli.dead h.dead
  reader := by rw [ha.back]; exact h.reader
  leaves := h.leaves.around ha

theorem out (h : Over s) (hf : Fits s) {e : Event} (ho : OutTurn s e t) : Over t where
  dead := (outTurn_frame ho).2.2.2.2.2 h.dead
  reader := by rw [(outTurn_frame ho).1]; exact h.reader
  leaves := h.leaves.out hf h.dead ho

theorem back (h : Over s) {e : Event} (hb : BackTurn s e t) : Over t := by
  have hdead := (Apart.backTurn hb).cli.dead h.dead
  rcases h.reader with hr | ⟨queue, w, hr⟩
  · cases hb with
    | received d _ hd ht =>
      have hb : (s.got d).back = .plain .ended := hr
      simp [Pump.receive, hb] at ht
    | _ => simp_all
  · obtain ⟨hl, hr⟩ := h.leaves.back hr hb
    exact ⟨hdead, .inr hr, hl⟩

end Over

/-- Reset is returned in a turn of `recv`, and the task that called it ends. -/
theorem backTurn_reset {s t : Pump} {e : Event} (h : BackTurn s e t) (ht : t.sawReset = true) :
    s.sawReset = true ∨ e = .received ∧ s.item = .reset ∧ ∃ d, s.cli.received? = some d ∧
      ((s.back = .plain .receiving ∧ t = { s.got d with back := .plain .ended }) ∨
        ∃ queue w, s.back = .shaped .receiving queue w ∧
          t = { s.got d with back := .shaped .ended queue w }) := by
  have pass_back : ∀ (u : Pump) queue w chunk, (u.passBack queue w chunk).sawReset = u.sawReset := by
    intro u queue w chunk
    unfold Pump.passBack
    split
    · rfl
    · split <;> rfl
  have write_plain : ∀ (u : Pump) left, (u.writePlain left).sawReset = u.sawReset := by
    intro u left
    unfold Pump.writePlain
    split <;> rfl
  cases h with
  | received d _ hd hr =>
    by_cases hi : s.item = .reset
    · refine .inr ⟨rfl, hi, d, hd, ?_⟩
      unfold Pump.receive at hr
      split at hr
      · next hb =>
        rw [hi] at hr
        cases hr
        exact .inl ⟨hb, rfl⟩
      · next queue w hb =>
        rw [hi] at hr
        cases hr
        exact .inr ⟨queue, w, hb, rfl⟩
      · cases hr
    · have hg : (s.got d).sawReset = s.sawReset := by simp [Pump.got, hi]
      refine .inl ?_
      unfold Pump.receive at hr
      rw [← hg]
      split at hr
      all_goals
        first
        | (cases hr; done)
        | (cases hi' : s.item with
          | data d =>
            rw [hi'] at hr
            cases hr
            first | exact (write_plain _ _).symm.trans ht | exact (pass_back _ _ _ _).symm.trans ht
          | _ =>
            rw [hi'] at hr
            cases hr
            exact ht)
  | passBack chunk queue w hq hb => exact .inl ((pass_back s queue w chunk).symm.trans ht)
  | write n left rest k hk hw hb => exact .inl ((write_plain { s with socket := k } rest).symm.trans ht)
  | _ => exact .inl ht

theorem over_received {s t : Pump} {d : CliStream} (hd : s.cli.received? = some d)
    (hi : s.item = .reset) (hl : Leaves s)
    (h : (s.back = .plain .receiving ∧ t = { s.got d with back := .plain .ended }) ∨
      ∃ queue w, s.back = .shaped .receiving queue w ∧
        t = { s.got d with back := .shaped .ended queue w }) : Over t := by
  have hc := Calm.received hd
  have hdead : d.dead = true := by
    unfold CliStream.received? at hd
    unfold Pump.item at hi
    dsimp only at hd
    split at hd
    · next h => rw [h] at hi; cases hi
    · next h => rw [h] at hi; cases hi
    · cases hd; rfl
    · next h => rw [h] at hi; cases hi
    · obtain ⟨-, hd⟩ := Option.ite_none_left_eq_some.mp hd
      cases hd
      rfl
  rcases h with ⟨hb, rfl⟩ | ⟨queue, w, hb, rfl⟩
  · refine ⟨hdead, .inl rfl, ?_⟩
    simp only [Leaves, hb] at hl
    simp only [Leaves, Pump.got]
    exact hl.imp_right (.imp_right (.imp_right (.imp_right fun h =>
      ⟨h.1, h.2.imp hc.taking hc.outOpen⟩)))
  · refine ⟨hdead, .inr ⟨queue, w, rfl⟩, ?_⟩
    simp only [Leaves, hb] at hl
    exact hl

/-- Once Reset was returned, the pump has an end before it. -/
theorem over_of_leaving {active : Bool} {s : Pump} (h : (machine active).Reaches Leaving s) :
    Fits s ∧ (s.sawReset = true → Over s) := by
  refine Machine.Reaches.invariant (I := fun s => Fits s ∧ (s.sawReset = true → Over s)) h ?_ ?_
  · rintro s rfl
    refine ⟨fits_start active, ?_⟩
    cases active <;> nofun
  · rintro s t e ⟨hf, hr⟩ hok hst
    refine ⟨hf.step hst, fun ht => ?_⟩
    rcases step_around hst with ho | hb | ha
    · exact (hr ((outTurn_frame ho).2.1.symm.trans ht)).out hf ho
    · rcases backTurn_reset hb ht with hs | ⟨rfl, hi, d, hd, hcase⟩
      · exact (hr hs).back hb
      · exact over_received hd hi (hok rfl hi) hcase
    · exact (hr (ha.sawReset.symm.trans ht)).around ha

/-! ## The end of the pump -/

theorem outSend_some {c : CliStream} (h : c.writer = .closing ∨ ∃ chunk rest, c.writer = .charged chunk rest) :
    ∃ d, c.outSend = some d := by
  unfold CliStream.outSend
  rcases h with hw | ⟨chunk, rest, hw⟩ <;> rw [hw] <;> dsimp only <;> split <;> exact ⟨_, rfl⟩

theorem take_some {c : CliStream} (ht : Taking c) (hd : c.dead = true) :
    ∃ d, c.take = some d := by
  obtain ⟨chunk, rest, hw⟩ := ht
  exact ⟨{ c with writer := .idle, failed := true }, by simp [CliStream.take, hw, hd]⟩

theorem advance_some {s : Pump} (d : CliStream)
    (h : s.out = .plain .sending ∨ s.out = .plain .closing) : ∃ t, s.advance d = some t := by
  unfold Pump.advance
  rcases h with h | h <;> rw [h] <;> exact ⟨_, rfl⟩

/-- The task that reads the app ends by itself. -/
theorem ended_of_stuck {s : Pump} {b : FromMux} (hf : Fits s) (ho : Over s)
    (hb : s.back = .plain b) (hst : Stuck s) : s.out = .plain .ended := by
  have hl := ho.leaves
  simp only [Leaves, hb] at hl
  obtain ⟨a, ha⟩ := hf.same.mpr ⟨b, hb⟩
  have hread : a = .reading → s.socket.input = [] ∧ s.socket.ending = none := by
    rintro rfl
    have hn := hst (.read 1) rfl
    simp only [step, Pump.read, ha, Option.map_eq_none_iff, Socket.read] at hn
    split at hn
    · next hi => exact ⟨hi, by simpa using hn⟩
    · next hi =>
      have hlen : 0 < s.socket.input.length := List.length_pos_iff.mpr hi
      rw [if_pos ⟨by decide, by decide, hlen⟩] at hn
      cases hn
  cases a with
  | ended => exact ha
  | reading =>
    obtain ⟨hi, he⟩ := hread rfl
    simp [ha, hi, he] at hl
  | closing =>
    obtain ⟨d, hd⟩ := outSend_some (.inl (hf.closing ha))
    obtain ⟨t, ht⟩ := advance_some d (.inr ha)
    have hn := hst .outSend rfl
    simp [step, hd, ht] at hn
  | sending =>
    obtain ⟨chunk, rest, hw | hw⟩ := hf.sending ha
    · obtain ⟨d, hd⟩ := take_some ⟨chunk, rest, hw⟩ ho.dead
      obtain ⟨t, ht⟩ := advance_some d (.inl ha)
      have hn := hst .take rfl
      simp [step, hd, ht] at hn
    · obtain ⟨d, hd⟩ := outSend_some (.inr ⟨chunk, rest, hw⟩)
      obtain ⟨t, ht⟩ := advance_some d (.inl ha)
      have hn := hst .outSend rfl
      simp [step, hd, ht] at hn

/-- The task that writes to the app ends by itself. -/
theorem shut_of_stuck {s : Pump} {queue : List Bytes} {w : WriteSocket} (hf : Fits s) (ho : Over s)
    (hb : s.back = .shaped .ended queue w) (hst : Stuck s) : s.socket.shut = true := by
  have hl := ho.leaves
  simp only [Leaves, hb] at hl
  cases w with
  | ended => exact (hf.shut _ _ _ hb).1 rfl
  | waiting =>
    have hn := hst .nextSocket rfl
    cases queue <;> simp [step, Pump.nextSocket, hb] at hn
  | sleeping chunk =>
    have hn := hst .wakeSocket rfl
    simp [step, Pump.wakeSocket, hb] at hn
  | writing left =>
    have hn := hst (.write 1) rfl
    simp only [step, Pump.write, hb] at hn
    split at hn
    · cases hn
    · next hk =>
      have hne : left ≠ [] := fun he => (hf.shut _ _ _ hb).2 (congrArg _ he)
      have hlen : 0 < left.length := List.length_pos_iff.mpr hne
      have hroom : left.length ≤ s.socket.room := by
        rcases hl with hl | hl | hl
        · cases hl
        · exact absurd hl hk
        · simp only [backlog, backlog.writing, List.length_append] at hl
          omega
      have hn := Option.map_eq_none_iff.mp hn
      rw [Socket.write, if_pos ⟨by decide, by omega, by omega⟩] at hn
      cases hn

/-- When recv returns Reset while the pump has an end before it, the pump does not stop short
of it: it returns, or it shuts the socket's write half down. -/
theorem gone_of_leaving {active : Bool} {s : Pump} (h : (machine active).Reaches Leaving s)
    (hr : s.sawReset = true) (hst : Stuck s) : s.returned = true ∨ s.socket.shut = true := by
  obtain ⟨hf, ho⟩ := over_of_leaving h
  have ho := ho hr
  rcases ho.reader with hb | ⟨queue, w, hb⟩
  · have hn := hst .finish rfl
    simp only [step, ite_eq_right_iff, reduceCtorEq] at hn
    refine .inl (by_contra fun hret => hn ⟨.inl (ended_of_stuck hf ho hb hst), .inl hb, ?_⟩)
    simpa using hret
  · exact .inr (shut_of_stuck hf ho hb hst)

/-- With a shape the socket is shut down once its queue is empty. -/
theorem gone_shaped : ∃ s : Pump, (machine true).Reaches Leaving s ∧ s.sawReset = true ∧ Stuck s ∧
    (s.returned = true ∨ s.socket.shut = true) := by
  have h : ((machine true).exec (start true) [.frame .reset, .received, .nextSocket]).any (fun s =>
      decide (s.sawReset = true ∧ Stuck s)) = true := by decide
  obtain ⟨s, hs, h⟩ := (Option.any_eq_true _ _).mp h
  obtain ⟨hr, hst⟩ := of_decide_eq_true h
  have hreach : (machine true).Reaches Leaving s :=
    .exec (.init rfl) _ (by decide) hs
  exact ⟨s, hreach, hr, hst, gone_of_leaving hreach hr hst⟩

/-- Without one, the task that reads a silent app is not told. -/
theorem silent_not_gone : ¬ ∀ (active : Bool) (s : Pump), (machine active).Reachable s →
    s.sawReset = true → Stuck s → s.returned = true ∨ s.socket.shut = true := by
  have h : ((machine false).exec (start false) [.frame .reset, .received]).any (fun s =>
      decide (s.sawReset = true ∧ Stuck s ∧ ¬ (s.returned = true ∨ s.socket.shut = true))) = true := by
    decide
  obtain ⟨s, hs, h⟩ := (Option.any_eq_true _ _).mp h
  obtain ⟨hr, hst, hn⟩ := of_decide_eq_true h
  intro hall
  exact hn (hall false s (.exec (.init rfl) _ hs) hr hst)

end Tunlit.Client.Resets
