import Tunlit.WebSocket.Decoding

/-! # Frames that the server writes

`encodeFrame` writes a message as one frame, in the shortest of the three forms of a length.
A `FrameParser` reads such frames back, however they are cut. -/
namespace Tunlit.WebSocket.Encoding
open Tunlit.WebSocket.Frames Tunlit.WebSocket.Parser Tunlit.WebSocket.Decoding

/-! ## One frame -/

/-- The form in which a length takes the fewest bytes. -/
def shortest (length : Nat) : Form :=
  if length < 126 then .short else if length < 65536 then .medium else .long

theorem lt_limit_shortest {length : Nat} (h : length < 2 ^ 32) : length < (shortest length).limit := by
  unfold shortest
  split
  · assumption
  · split
    · assumption
    · exact Nat.lt_trans h (by decide)

theorem size_shortest_le {length : Nat} {form : Form} (h : length < form.limit) :
    (shortest length).size ≤ form.size := by
  unfold shortest
  cases form with
  | short =>
    have hs : length < 126 := h
    rw [if_pos hs]
  | medium =>
    split
    · decide
    · have hm : length < 65536 := h
      rw [if_pos hm]
  | long =>
    split
    · decide
    · split <;> decide

/-- A message of one frame. -/
def wholeFrame (opcode : Fin 16) (payload : Bytes) (key : Option Key)
    (h : payload.length < 2 ^ 32) : Frame where
  fin := true
  opcode := opcode
  key := key
  form := shortest payload.length
  payload := payload
  fits := lt_limit_shortest h

theorem or_top (n : Nat) (h : n < 128) : UInt8.ofNat n ||| 0x80 = UInt8.ofNat (128 + n) := by
  have hall : ∀ m : Fin 128, UInt8.ofNat m.val ||| 0x80 = UInt8.ofNat (128 + m.val) := by
    decide
  exact hall ⟨n, h⟩

theorem extended_medium (n : Nat) :
    Form.extended n .medium = [.ofNat (n / 256), .ofNat n] := rfl

theorem extended_long {n : Nat} (h : n < 2 ^ 32) : Form.extended n .long =
    [0, 0, 0, 0, .ofNat (n / 2 ^ 24), .ofNat (n / 2 ^ 16), .ofNat (n / 2 ^ 8), .ofNat n] := by
  have he : Form.extended n .long =
      [.ofNat (n / 256 / 256 / 256 / 256 / 256 / 256 / 256),
        .ofNat (n / 256 / 256 / 256 / 256 / 256 / 256), .ofNat (n / 256 / 256 / 256 / 256 / 256),
        .ofNat (n / 256 / 256 / 256 / 256), .ofNat (n / 256 / 256 / 256), .ofNat (n / 256 / 256),
        .ofNat (n / 256), .ofNat n] := rfl
  have h4 : n / 256 / 256 / 256 / 256 = 0 := by omega
  have h3 : n / 256 / 256 / 256 = n / 2 ^ 24 := by omega
  have h2 : n / 256 / 256 = n / 2 ^ 16 := by omega
  rw [he, h4, h3, h2]
  rfl

theorem encodeFrame_wire (opcode : Fin 16) (payload : Bytes) (key : Option Key)
    (h : payload.length < 2 ^ 32) :
    encodeFrame (.ofNat opcode.val) payload key = (wholeFrame opcode payload key h).wire := by
  have hbody : (wholeFrame opcode payload key h).body =
      key.elim payload fun key => key.bytes ++ mask key.bytes payload := by
    cases key <;> rfl
  have hsecond : ∀ mark, (wholeFrame opcode payload key h).form.mark payload.length = mark →
      mark < 128 → (wholeFrame opcode payload key h).head.second =
        key.elim (.ofNat mark) fun _ => .ofNat mark ||| 0x80 := by
    intro mark hmark hm
    subst hmark
    cases key with
    | none =>
      show UInt8.ofNat (0 * 128 + _) = _
      rw [Nat.zero_mul, Nat.zero_add]
      rfl
    | some key => exact (or_top _ hm).symm
  have hfirst : (wholeFrame opcode payload key h).head.first = 0x80 ||| .ofNat opcode.val := by
    have hall : ∀ n : Fin 16, UInt8.ofNat (1 * 128 + 0 * 16 + n.val) = 0x80 ||| .ofNat n.val := by
      decide
    exact hall opcode
  have hform : (wholeFrame opcode payload key h).head.form = shortest payload.length := rfl
  have hlength : (wholeFrame opcode payload key h).head.length = payload.length := rfl
  rw [Frame.wire, Head.bytes, hbody, hfirst, hform, hlength]
  unfold encodeFrame
  by_cases hs : payload.length < 126
  · have hf : shortest payload.length = .short := if_pos hs
    rw [hsecond payload.length (congrArg (Form.mark _) hf) (by omega), hf]
    cases key <;> simp [hs, Form.extended]
  · by_cases hm : payload.length < 65536
    · have hf : shortest payload.length = .medium := (if_neg hs).trans (if_pos hm)
      rw [hsecond 126 (congrArg (Form.mark _) hf) (by omega), hf, extended_medium]
      cases key <;> simp [hs, hm]
    · have hf : shortest payload.length = .long := (if_neg hs).trans (if_neg hm)
      rw [hsecond 127 (congrArg (Form.mark _) hf) (by omega), hf, extended_long h]
      cases key <;> simp [hs, hm]

/-! ## Frames in a row -/

/-- A message that `encodeFrame` is called with, and the key where it is to be masked. -/
structure Sending where
  opcode : Fin 16
  payload : Bytes
  key : Option Key
  named : opcode ≠ 0
  small : payload.length ≤ MAX_FRAME

namespace Sending

def bytes (sending : Sending) : Bytes :=
  encodeFrame (.ofNat sending.opcode.val) sending.payload sending.key

def message (sending : Sending) : Message := ⟨sending.opcode.val, sending.payload⟩

theorem length_lt (sending : Sending) : sending.payload.length < 2 ^ 32 :=
  Nat.lt_of_le_of_lt sending.small (by decide)

def frame (sending : Sending) : Frame :=
  wholeFrame sending.opcode sending.payload sending.key sending.length_lt

theorem bytes_eq (sending : Sending) : sending.bytes = sending.frame.wire :=
  encodeFrame_wire _ _ _ sending.length_lt

/-- No frame of the message, masked or not as this one is, is shorter. -/
theorem length_le (sending : Sending) {frame : Frame} (hp : frame.payload = sending.payload)
    (hk : frame.key.isSome = sending.key.isSome) : sending.frame.wire.length ≤ frame.wire.length := by
  have hfits : sending.payload.length < frame.form.limit := hp ▸ frame.fits
  have hsize : sending.frame.form.size ≤ frame.form.size := size_shortest_le hfits
  have hmine := length_wire sending.frame
  have hother := length_wire frame
  have hpayload : frame.head.length = sending.frame.head.length := congrArg List.length hp
  have hmasked : frame.head.masked = sending.frame.head.masked := hk
  rw [hmine, hother, hpayload, hmasked]
  exact Nat.add_le_add_right (Nat.add_le_add_right hsize _) _

end Sending

theorem assemble_frames (sendings : List Sending) :
    assemble none (sendings.map Sending.frame) = (sendings.map Sending.message, none) := by
  induction sendings with
  | nil => rfl
  | cons sending sendings ih =>
    have hn : sending.frame.isContinuation = false :=
      decide_eq_false fun h => sending.named (Fin.ext h)
    have hfin : sending.frame.fin = true := rfl
    simp only [List.map_cons, assemble, ih, hn, hfin]
    split <;> rfl

theorem decodes_sendings (sendings : List Sending) :
    Decodes false (sendings.map Sending.bytes).flatten
      (FrameParser.new false, sendings.map Sending.message) := by
  have hwires : sendings.map Sending.bytes = (sendings.map Sending.frame).map Frame.wire := by
    rw [List.map_map]
    exact List.map_congr_left fun sending _ => sending.bytes_eq
  have hreads : Reads (sendings.map Sending.bytes).flatten (sendings.map Sending.frame) [] := by
    refine ⟨by rw [hwires, List.append_nil], fun frame hf => ?_, fun frame _ hp => ?_⟩
    · obtain ⟨sending, -, rfl⟩ := List.mem_map.mp hf
      exact sending.small
    · have hl := two_le_length_wire frame
      rw [List.prefix_nil.mp hp] at hl
      exact absurd hl (by decide)
  have hover : ¬Oversized [] := fun h => absurd h.length_pos (by decide)
  have hassemble := assemble_frames sendings
  have hdecodes : Decodes false (sendings.map Sending.bytes).flatten
      (FrameParser.new false, (assemble none (sendings.map Sending.frame)).1) :=
    .frames rfl hreads (by rw [hassemble]; rfl) rfl (iff_of_false Bool.false_ne_true hover) rfl
  rwa [hassemble] at hdecodes

/-- The frames that are written for messages, fed to a new parser in any chunks, come out as
these messages and leave it as it was; each of them is a frame of the wire format, and as
short as one of its message can be. -/
theorem round_trip (sendings : List Sending) (chunks : List Bytes)
    (h : chunks.flatten = (sendings.map Sending.bytes).flatten) :
    (FrameParser.new false).pushAll chunks = (FrameParser.new false, sendings.map Sending.message) ∧
    ∀ sending ∈ sendings, ∃ frame : Frame, sending.bytes = frame.wire ∧ frame.fin = true ∧
      frame.opcode = sending.opcode ∧ frame.key = sending.key ∧ frame.payload = sending.payload ∧
      ∀ other : Frame, other.payload = sending.payload → other.key.isSome = sending.key.isSome →
        frame.wire.length ≤ other.wire.length := by
  refine ⟨?_, fun sending _ => ?_⟩
  · have hpush := decodes_push false chunks.flatten
    rw [← pushAll_new, h] at hpush
    obtain ⟨hmessages, hbuffer, hdead, hawaiting, hfragments⟩ :=
      hpush.unique (decodes_sendings sendings)
    refine Prod.ext ?_ hmessages
    generalize ((FrameParser.new false).pushAll chunks).1 = p at *
    obtain ⟨buffer, fragments, dead, awaitingHead⟩ := p
    obtain rfl : fragments = none := Option.map_eq_none_iff.mp hfragments
    simp only at hbuffer hdead hawaiting
    rw [hbuffer, hdead, hawaiting]
    rfl
  · exact ⟨sending.frame, sending.bytes_eq, rfl, rfl, rfl, rfl, fun other hp hk =>
      sending.length_le hp hk⟩

/-- A text and a ping, the second one under a key. -/
def hello : List Sending :=
  [⟨⟨1, by decide⟩, [104, 105], none, by decide, by decide⟩,
    ⟨⟨9, by decide⟩, [1], some ⟨[7, 7, 7, 7], rfl⟩, by decide, by decide⟩]

theorem round_trip_hello :
    (FrameParser.new false).pushAll [[0x81, 2, 104], [], [105, 0x89, 0x81, 7, 7], [7, 7, 6]] =
      (FrameParser.new false, [⟨1, [104, 105]⟩, ⟨9, [1]⟩]) :=
  (round_trip hello _ (by decide)).1

end Tunlit.WebSocket.Encoding
