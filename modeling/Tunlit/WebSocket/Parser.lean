import Tunlit.Lib.Drains
import Tunlit.WebSocket.Frames

/-! # The frame parser

`FrameParser` and `encodeFrame` of `lib/websocket.js`. A call of `push` gives the parser
after it, with the messages that `onMessage` was called with, in order. -/
namespace Tunlit.WebSocket.Parser
open Tunlit.Lib.BigEndian Tunlit.Lib.Drains Tunlit.WebSocket.Frames

/-! ## The source -/

structure Fragments where
  opcode : Nat
  parts : List Bytes
deriving DecidableEq, Repr

structure FrameParser where
  buffer : Bytes := []
  fragments : Option Fragments := none
  dead : Bool := false
  awaitingHead : Bool := false
deriving DecidableEq, Repr

structure Header where
  fin : Bool
  opcode : Nat
  masked : Bool
  length : Nat
  offset : Nat
deriving DecidableEq, Repr

/-- `buffer.indexOf(pattern)` -/
def indexOf (pattern : Bytes) : Bytes → Option Nat
  | [] => if pattern = [] then some 0 else none
  | b :: bytes =>
    if pattern <+: b :: bytes then some 0 else (indexOf pattern bytes).map (· + 1)

/-- `"\r\n\r\n"` -/
def BLANK_LINE : Bytes := [13, 10, 13, 10]

/-- The first lines of the loop. A length of 2 ^ 53 or more, which `Number` rounds, is
above `MAX_FRAME` in any case. -/
def header (buffer : Bytes) : Option Header :=
  match buffer with
  | first :: second :: _ =>
    let fin := decide (first &&& 0x80 ≠ 0)
    let opcode := (first &&& 0x0f).toNat
    let masked := decide (second &&& 0x80 ≠ 0)
    let length := (second &&& 0x7f).toNat
    if length = 126 then
      if buffer.length < 4 then none
      else some ⟨fin, opcode, masked, readBigEndian ((buffer.drop 2).take 2), 4⟩
    else if length = 127 then
      if buffer.length < 10 then none
      else some ⟨fin, opcode, masked, readBigEndian ((buffer.drop 2).take 8), 10⟩
    else some ⟨fin, opcode, masked, length, 2⟩
  | _ => none

namespace FrameParser

def new (skipHead : Bool) : FrameParser := { awaitingHead := skipHead }

/-- What is done with a payload: the fragments after it, and the calls of `onMessage`. -/
def accept (fragments : Option Fragments) (fin : Bool) (opcode : Nat) (payload : Bytes) :
    Option Fragments × List Message :=
  if 8 ≤ opcode then (fragments, [⟨opcode, payload⟩])
  else if opcode = 0 then
    match fragments with
    | none => (none, [])
    | some fragments =>
      let parts := fragments.parts ++ [payload]
      if fin then (none, [⟨fragments.opcode, parts.flatten⟩])
      else (some { fragments with parts }, [])
  else if fin then (fragments, [⟨opcode, payload⟩])
  else (some ⟨opcode, [payload]⟩, [])

end FrameParser

/-- A turn of the loop returns, or the loop goes on. -/
inductive Turn where
  | returns (parser : FrameParser)
  | continues (parser : FrameParser) (messages : List Message)
deriving DecidableEq, Repr

namespace FrameParser

def turn (parser : FrameParser) : Turn :=
  match header parser.buffer with
  | none => .returns parser
  | some head =>
    if MAX_FRAME < head.length then .returns { parser with dead := true, buffer := [] }
    else
      let start := head.offset + if head.masked then 4 else 0
      if parser.buffer.length < start + head.length then .returns parser
      else
        let payload := (parser.buffer.drop start).take head.length
        let key := (parser.buffer.drop head.offset).take 4
        let payload := if head.masked then mask key payload else payload
        let buffer := parser.buffer.drop (start + head.length)
        let (fragments, messages) := accept parser.fragments head.fin head.opcode payload
        .continues { parser with buffer, fragments } messages

/-- The loop, as often as `fuel`. -/
def drainUpTo : Nat → FrameParser → FrameParser × List Message
  | 0, parser => (parser, [])
  | fuel + 1, parser =>
    match parser.turn with
    | .returns parser => (parser, [])
    | .continues parser messages =>
      let (parser, more) := drainUpTo fuel parser
      (parser, messages ++ more)

/-- A turn that goes on takes bytes from the buffer, so this many turns are enough. -/
def drain (parser : FrameParser) : FrameParser × List Message :=
  drainUpTo (parser.buffer.length + 1) parser

def push (parser : FrameParser) (chunk : Bytes) : FrameParser × List Message :=
  if parser.dead then (parser, [])
  else
    let parser := { parser with
      buffer := if parser.buffer = [] then chunk else parser.buffer ++ chunk }
    if parser.awaitingHead then
      match indexOf BLANK_LINE parser.buffer with
      | none => (parser, [])
      | some i =>
        { parser with buffer := parser.buffer.drop (i + 4), awaitingHead := false }.drain
    else parser.drain

/-- One chunk after the other. -/
def pushAll (parser : FrameParser) : List Bytes → FrameParser × List Message
  | [] => (parser, [])
  | chunk :: chunks =>
    let (parser, messages) := parser.push chunk
    let (parser, more) := pushAll parser chunks
    (parser, messages ++ more)

/-- A call of `drain` that returns, by the turns it takes. -/
inductive Returns : FrameParser → FrameParser × List Message → Prop
  | returns {p q : FrameParser} : p.turn = .returns q → Returns p (q, [])
  | continues {p q r : FrameParser} {messages more : List Message} :
      p.turn = .continues q messages → Returns q (r, more) → Returns p (r, messages ++ more)

end FrameParser

/-- `encodeFrame`, with the key that `randomBytes` gave. -/
def encodeFrame (opcode : UInt8) (payload : Bytes) (masked : Option Key) : Bytes :=
  let length := payload.length
  let first := 0x80 ||| opcode
  let marked (mark : Nat) : UInt8 := match masked with
    | none => .ofNat mark
    | some _ => .ofNat mark ||| 0x80
  let header : Bytes :=
    if length < 126 then [first, marked length]
    else if length < 65536 then [first, marked 126, .ofNat (length / 256), .ofNat length]
    else [first, marked 127, 0, 0, 0, 0, .ofNat (length / 2 ^ 24), .ofNat (length / 2 ^ 16),
      .ofNat (length / 2 ^ 8), .ofNat length]
  match masked with
  | none => header ++ payload
  | some key => header ++ key.bytes ++ mask key.bytes payload

/-! ## Headers -/

section Bits
variable (b : UInt8)

theorem forall_byte {P : UInt8 → Prop} (h : ∀ n : Fin 256, P (.ofNat n.val)) : P b := by
  simpa using h ⟨b.toNat, b.toNat_lt⟩

theorem and_top : decide (b &&& 0x80 ≠ 0) = decide (128 ≤ b.toNat) :=
  forall_byte b (P := fun b => decide (b &&& 0x80 ≠ 0) = decide (128 ≤ b.toNat))
    (by decide +kernel)

theorem and_low : (b &&& 0x0f).toNat = b.toNat % 16 := by
  rw [UInt8.toNat_and]
  exact Nat.and_two_pow_sub_one_eq_mod b.toNat 4

theorem and_seven : (b &&& 0x7f).toNat = b.toNat % 128 := by
  rw [UInt8.toNat_and]
  exact Nat.and_two_pow_sub_one_eq_mod b.toNat 7

end Bits

/-- What the parser reads of a header. -/
def ofHead (head : Head) : Header :=
  ⟨head.fin, head.opcode.val, head.masked, head.length, head.form.size⟩

/-- A header is read as it was written, whatever stands behind it. -/
theorem header_bytes (head : Head) (more : Bytes) :
    header (head.bytes ++ more) = some (ofHead head) := by
  have hm := head.form.mark_le head.fits
  have hr := head.reserved.isLt
  have ho := head.opcode.isLt
  have hfin : decide (head.first &&& 0x80 ≠ 0) = head.fin := by
    rw [and_top, head.toNat_first]
    cases head.fin <;> (simp; omega)
  have hopcode : (head.first &&& 0x0f).toNat = head.opcode.val := by
    rw [and_low, head.toNat_first]
    omega
  have hmasked : decide (head.second &&& 0x80 ≠ 0) = head.masked := by
    rw [and_top, head.toNat_second]
    cases head.masked <;> simp
    omega
  have hlength : (head.second &&& 0x7f).toNat = head.form.mark head.length := by
    rw [and_seven, head.toNat_second]
    omega
  have hfits := head.fits
  simp only [Head.bytes, List.cons_append, header, hfin, hopcode, hmasked, hlength, ofHead]
  cases hform : head.form with
  | short =>
    simp only [hform, Form.limit] at hfits
    simp only [Form.mark, Form.size]
    have h126 : head.length ≠ 126 := by omega
    have h127 : head.length ≠ 127 := by omega
    simp only [h126, h127, if_false]
  | medium =>
    simp only [hform, Form.limit] at hfits
    simp [Form.mark, Form.extended, Form.size, readBigEndian_bigEndian (k := 2) hfits]
  | long =>
    simp only [hform, Form.limit] at hfits
    simp [Form.mark, Form.extended, Form.size, readBigEndian_bigEndian (k := 8) hfits]

theorem ofNat_parts (b : UInt8) : UInt8.ofNat ((decide (128 ≤ b.toNat)).toNat * 128 +
    b.toNat / 16 % 8 * 16 + b.toNat % 16) = b := by
  have hb := b.toNat_lt
  rw [← UInt8.toNat_inj, UInt8.toNat_ofNat']
  by_cases h : 128 ≤ b.toNat <;> simp [h] <;> omega

theorem ofNat_mark (b : UInt8) :
    UInt8.ofNat ((decide (128 ≤ b.toNat)).toNat * 128 + b.toNat % 128) = b := by
  have hb := b.toNat_lt
  rw [← UInt8.toNat_inj, UInt8.toNat_ofNat']
  by_cases h : 128 ≤ b.toNat <;> simp [h] <;> omega

/-- The header that begins with two bytes. -/
def headOf (first second : UInt8) (form : Form) (length : Nat) (fits : length < form.limit) :
    Head where
  fin := 128 ≤ first.toNat
  reserved := ⟨first.toNat / 16 % 8, Nat.mod_lt _ (by decide)⟩
  opcode := ⟨first.toNat % 16, Nat.mod_lt _ (by decide)⟩
  masked := 128 ≤ second.toNat
  form := form
  length := length
  fits := fits

theorem headOf_bytes {first second : UInt8} {form : Form} {length : Nat}
    {fits : length < form.limit} (h : second.toNat % 128 = form.mark length) :
    (headOf first second form length fits).bytes = first :: second :: form.extended length := by
  simp only [Head.bytes, Head.first, Head.second, headOf, ofNat_parts, ← h, ofNat_mark]

/-- What is read as a header is one. -/
theorem exists_head {buffer : Bytes} {found : Header} (h : header buffer = some found) :
    ∃ head : Head, head.bytes <+: buffer ∧ ofHead head = found := by
  obtain _ | ⟨first, _ | ⟨second, rest⟩⟩ := buffer
  · cases h
  · cases h
  have extends' : ∀ (form : Form) (k : Nat) (hk : k ≤ rest.length)
      (fits : readBigEndian (rest.take k) < form.limit),
      form.extended (readBigEndian (rest.take k)) = bigEndian k (readBigEndian (rest.take k)) →
      second.toNat % 128 = form.mark (readBigEndian (rest.take k)) →
      (headOf first second form _ fits).bytes <+: first :: second :: rest := by
    intro form k hk fits he hm
    rw [headOf_bytes hm, he, bigEndian_readBigEndian (List.length_take_of_le hk),
      List.prefix_cons_inj, List.prefix_cons_inj]
    exact List.take_prefix k rest
  simp only [header, and_top, and_low, and_seven, List.length_cons, List.drop_succ_cons,
    List.drop_zero] at h
  split at h
  · next hl =>
    split at h
    · cases h
    · next hlen =>
      have hk : 2 ≤ rest.length := by omega
      have fits : readBigEndian (rest.take 2) < Form.medium.limit :=
        readBigEndian_lt (List.length_take_of_le hk)
      exact ⟨_, extends' .medium 2 hk fits rfl hl, Option.some.inj h⟩
  · split at h
    · next hl =>
      split at h
      · cases h
      · next hlen =>
        have hk : 8 ≤ rest.length := by omega
        have fits : readBigEndian (rest.take 8) < Form.long.limit :=
          readBigEndian_lt (List.length_take_of_le hk)
        exact ⟨_, extends' .long 8 hk fits rfl hl, Option.some.inj h⟩
    · next h126 h127 =>
      have fits : second.toNat % 128 < Form.short.limit := by
        simp only [Form.limit]
        omega
      refine ⟨headOf first second .short _ fits, ?_, Option.some.inj h⟩
      rw [headOf_bytes rfl, List.prefix_cons_inj, List.prefix_cons_inj]
      exact List.nil_prefix

theorem header_of_start {head : Head} {buffer : Bytes} (h : head.bytes <+: buffer) :
    header buffer = some (ofHead head) := by
  obtain ⟨more, rfl⟩ := h
  exact header_bytes head more

/-! ## Turns -/

variable {p : FrameParser} {frame : Frame} {more : Bytes}

theorem length_wire (frame : Frame) : frame.wire.length = frame.head.form.size +
    (if frame.head.masked then 4 else 0) + frame.head.length := by
  rw [Frame.wire, List.length_append, Head.length_bytes, Frame.length_body, Nat.add_assoc]

/-- The payload that is cut out of a frame, and unmasked. -/
theorem payload_of_wire (frame : Frame) (more : Bytes) :
    (if frame.head.masked then
      mask (((frame.wire ++ more).drop frame.head.form.size).take 4)
        (((frame.wire ++ more).drop (frame.head.form.size +
          if frame.head.masked then 4 else 0)).take frame.head.length)
    else ((frame.wire ++ more).drop (frame.head.form.size +
      if frame.head.masked then 4 else 0)).take frame.head.length) = frame.payload := by
  have hbody : (frame.wire ++ more).drop frame.head.form.size = frame.body ++ more := by
    rw [Frame.wire, List.append_assoc, ← frame.head.length_bytes, List.drop_left]
  rw [← List.drop_drop, hbody]
  cases hk : frame.key with
  | none => simp [Frame.head, Frame.body, hk]
  | some key =>
    have h4 := key.four
    have hlen : (mask key.bytes frame.payload).length = frame.payload.length := by simp
    simp only [Frame.head, Frame.body, hk, Option.isSome_some, if_true, List.append_assoc]
    rw [← h4, List.take_left, List.drop_left, ← hlen, List.take_left, mask_mask]

/-- A whole frame at the front of the buffer is taken. -/
theorem turn_of_wire (hs : frame.Small) (h : p.buffer = frame.wire ++ more) :
    p.turn = .continues
      { p with
        buffer := more
        fragments := (FrameParser.accept p.fragments frame.fin frame.opcode.val frame.payload).1 }
      (FrameParser.accept p.fragments frame.fin frame.opcode.val frame.payload).2 := by
  have hhead : header p.buffer = some (ofHead frame.head) :=
    header_of_start (h ▸ ⟨frame.body ++ more, by rw [Frame.wire, List.append_assoc]⟩)
  have hsmall : ¬ MAX_FRAME < frame.head.length := Nat.not_lt.mpr hs
  have hlen := length_wire frame
  have hwhole : ¬ p.buffer.length <
      frame.head.form.size + (if frame.head.masked then 4 else 0) + frame.head.length := by
    rw [h, List.length_append, hlen]
    omega
  have hrest : p.buffer.drop
      (frame.head.form.size + (if frame.head.masked then 4 else 0) + frame.head.length) = more := by
    rw [h, ← hlen, List.drop_left]
  have hpayload := payload_of_wire frame more
  rw [← h] at hpayload
  simp only [FrameParser.turn, hhead, ofHead, hsmall, if_false, hwhole, hrest, hpayload]
  rfl

theorem turn_of_oversized (h : Oversized p.buffer) :
    p.turn = .returns { p with dead := true, buffer := [] } := by
  obtain ⟨head, hlarge, hp⟩ := h
  simp only [FrameParser.turn, header_of_start hp, ofHead, hlarge, if_true]

/-- The frame that a header, a key and a payload make up. -/
def frameOf (head : Head) (key : Option Key) (payload : Bytes)
    (length : payload.length = head.length) : Frame where
  fin := head.fin
  reserved := head.reserved
  opcode := head.opcode
  key := key
  form := head.form
  payload := payload
  fits := length ▸ head.fits

theorem frameOf_wire {head : Head} {key : Option Key} {payload : Bytes}
    {length : payload.length = head.length} (hk : key.isSome = head.masked) :
    (frameOf head key payload length).wire =
      head.bytes ++ (frameOf head key payload length).body := by
  have h : (frameOf head key payload length).head = head := by
    obtain ⟨fin, reserved, opcode, masked, form, len, fits⟩ := head
    simp only at hk length
    subst length hk
    rfl
  rw [Frame.wire, h]

theorem exists_wire {head : Head} {buffer : Bytes} (hp : head.bytes <+: buffer)
    (hsmall : head.length ≤ MAX_FRAME)
    (hlen : head.form.size + (if head.masked then 4 else 0) + head.length ≤ buffer.length) :
    ∃ frame : Frame, frame.Small ∧ frame.wire <+: buffer := by
  obtain ⟨rest, rfl⟩ := hp
  rw [List.length_append, Head.length_bytes] at hlen
  cases hm : head.masked with
  | false =>
    have hl : (rest.take head.length).length = head.length :=
      List.length_take_of_le (by simp [hm] at hlen; omega)
    refine ⟨frameOf head none _ hl, le_of_eq_of_le hl hsmall, ?_⟩
    rw [frameOf_wire (by simp [hm]), List.prefix_append_right_inj]
    exact List.take_prefix _ rest
  | true =>
    simp only [hm, if_true] at hlen
    have h4 : (rest.take 4).length = 4 := List.length_take_of_le (by omega)
    have hl : (mask (rest.take 4) ((rest.drop 4).take head.length)).length = head.length := by
      rw [length_mask]
      exact List.length_take_of_le (by rw [List.length_drop]; omega)
    refine ⟨frameOf head (some ⟨rest.take 4, h4⟩) _ hl, le_of_eq_of_le hl hsmall, ?_⟩
    rw [frameOf_wire (by simp [hm]), List.prefix_append_right_inj]
    simp only [frameOf, Frame.body, mask_mask]
    rw [← List.take_add]
    exact List.take_prefix _ rest

/-- A turn takes a whole frame, finds a header that announces too much, or changes nothing. -/
theorem turn_cases (p : FrameParser) :
    (∃ frame : Frame, frame.Small ∧ frame.wire <+: p.buffer) ∨ Oversized p.buffer ∨ p.turn = .returns p := by
  unfold FrameParser.turn
  split
  · exact .inr (.inr rfl)
  · next found hf =>
    obtain ⟨head, hp, rfl⟩ := exists_head hf
    split
    · next hlarge => exact .inr (.inl ⟨head, hlarge, hp⟩)
    · next hsmall =>
      by_cases hlen : p.buffer.length <
          head.form.size + (if head.masked then 4 else 0) + head.length
      · exact .inr (.inr (if_pos hlen))
      · exact .inl (exists_wire hp (Nat.not_lt.mp hsmall) (Nat.not_lt.mp hlen))

theorem no_wire_of_oversized {buffer : Bytes} (h : Oversized buffer) (frame : Frame)
    (hs : frame.Small) : ¬ frame.wire <+: buffer := by
  intro hw
  obtain ⟨head, hlarge, hp⟩ := h
  have hp' : frame.head.bytes <+: buffer := (List.prefix_append ..).trans hw
  have he := Option.some.inj ((header_of_start hp).symm.trans (header_of_start hp'))
  have hl : head.length = frame.head.length := congrArg Header.length he
  have hs' : frame.head.length ≤ MAX_FRAME := hs
  omega

theorem two_le_length_wire (frame : Frame) : 2 ≤ frame.wire.length := by
  have hs : 2 ≤ frame.head.form.size := by
    cases frame.head.form <;> simp [Form.size]
  have hl := length_wire frame
  omega

/-- Where the loop returns with the parser as it is, no whole frame is left. -/
theorem no_wire_of_returns (h : p.turn = .returns p) (frame : Frame) (hs : frame.Small) :
    ¬ frame.wire <+: p.buffer := by
  rintro ⟨more, hm⟩
  rw [turn_of_wire hs hm.symm] at h
  cases h

theorem not_oversized_of_returns (h : p.turn = .returns p) (hd : p.dead = false) :
    ¬ Oversized p.buffer := by
  intro ho
  rw [turn_of_oversized ho, Turn.returns.injEq] at h
  rw [← h] at hd
  cases hd

/-! ## The parser as a reader -/

/-- The parser without its buffer. -/
structure Mode where
  fragments : Option Fragments := none
  dead : Bool := false
  awaitingHead : Bool := false
deriving DecidableEq, Repr

def FrameParser.mode (p : FrameParser) : Mode := ⟨p.fragments, p.dead, p.awaitingHead⟩

def Mode.on (mode : Mode) (buffer : Bytes) : FrameParser :=
  ⟨buffer, mode.fragments, mode.dead, mode.awaitingHead⟩

@[simp] theorem mode_on (p : FrameParser) : p.mode.on p.buffer = p := rfl

/-- A dead parser passes over what comes in, byte by byte. -/
def readMode (mode : Mode) (buffer : Bytes) : Option (List Message × Mode × Bytes) :=
  if mode.dead then
    match buffer with
    | [] => none
    | _ :: rest => some ([], mode, rest)
  else if mode.awaitingHead then
    (indexOf BLANK_LINE buffer).map fun i =>
      ([], { mode with awaitingHead := false }, buffer.drop (i + 4))
  else match (mode.on buffer).turn with
    | .continues q messages => some (messages, q.mode, q.buffer)
    | .returns q => if q.dead then some ([], q.mode, buffer.drop 1) else none

theorem prefix_of_indexOf {pattern buffer : Bytes} {i : Nat} (h : indexOf pattern buffer = some i) :
    pattern <+: buffer.drop i := by
  induction buffer generalizing i with
  | nil =>
    rw [indexOf] at h
    split at h
    · next hp => simp [hp]
    · cases h
  | cons b buffer ih =>
    rw [indexOf] at h
    split at h
    · next hp =>
      cases h
      exact hp
    · obtain ⟨j, hj, rfl⟩ := Option.map_eq_some_iff.mp h
      exact ih hj

/-- A pattern that was found is found at the same place when more comes in. -/
theorem indexOf_append {pattern buffer : Bytes} {i : Nat} (h : indexOf pattern buffer = some i)
    (more : Bytes) : indexOf pattern (buffer ++ more) = some i := by
  induction buffer generalizing i with
  | nil =>
    rw [indexOf] at h
    split at h
    · next hp =>
      cases h
      subst hp
      cases more <;> simp [indexOf]
    · cases h
  | cons b buffer ih =>
    rw [indexOf] at h
    rw [List.cons_append, indexOf]
    split at h
    · next hp =>
      cases h
      exact if_pos (hp.trans (List.prefix_append (b :: buffer) more))
    · next hp =>
      obtain ⟨j, hj, rfl⟩ := Option.map_eq_some_iff.mp h
      have hlen := (prefix_of_indexOf hj).length_le
      rw [List.length_drop] at hlen
      rw [if_neg, ih hj, Option.map_some]
      intro hp'
      refine hp (List.prefix_of_prefix_length_le hp' (List.prefix_append (b :: buffer) more) ?_)
      rw [List.length_cons]
      omega

section Reading
variable {mode : Mode} {buffer : Bytes}

theorem readMode_dead (h : mode.dead = true) (b : UInt8) (rest : Bytes) :
    readMode mode (b :: rest) = some ([], mode, rest) := by
  rw [readMode, if_pos h]

theorem readMode_head (hd : mode.dead = false) (ha : mode.awaitingHead = true) :
    readMode mode buffer = (indexOf BLANK_LINE buffer).map fun i =>
      ([], { mode with awaitingHead := false }, buffer.drop (i + 4)) := by
  simp only [readMode, hd, ha, Bool.false_eq_true, if_false, if_true]

theorem readMode_frames (hd : mode.dead = false) (ha : mode.awaitingHead = false) :
    readMode mode buffer = match (mode.on buffer).turn with
      | .continues q messages => some (messages, q.mode, q.buffer)
      | .returns q => if q.dead then some ([], q.mode, buffer.drop 1) else none := by
  simp only [readMode, hd, ha, Bool.false_eq_true, if_false]

theorem readMode_of_wire (hd : mode.dead = false) (ha : mode.awaitingHead = false)
    (hs : frame.Small) (h : buffer = frame.wire ++ more) :
    readMode mode buffer = some
      ((FrameParser.accept mode.fragments frame.fin frame.opcode.val frame.payload).2,
      { mode with
        fragments := (FrameParser.accept mode.fragments frame.fin frame.opcode.val
          frame.payload).1 }, more) := by
  rw [readMode_frames hd ha, turn_of_wire (p := mode.on buffer) hs h]
  rfl

theorem readMode_of_oversized (hd : mode.dead = false) (ha : mode.awaitingHead = false)
    (h : Oversized buffer) :
    readMode mode buffer = some ([], { mode with dead := true }, buffer.drop 1) := by
  rw [readMode_frames hd ha, turn_of_oversized (p := mode.on buffer) h]
  rfl

/-- What a parser that is past the head does with a buffer. -/
theorem readMode_cases (hd : mode.dead = false) (ha : mode.awaitingHead = false)
    (buffer : Bytes) :
    (∃ (frame : Frame) (more : Bytes), frame.Small ∧ buffer = frame.wire ++ more) ∨
      Oversized buffer ∨
      readMode mode buffer = none ∧ (mode.on buffer).turn = .returns (mode.on buffer) := by
  rcases turn_cases (mode.on buffer) with ⟨frame, hs, more, hm⟩ | ho | hr
  · exact .inl ⟨frame, more, hs, hm.symm⟩
  · exact .inr (.inl ho)
  · refine .inr (.inr ⟨?_, hr⟩)
    rw [readMode_frames hd ha, hr]
    exact if_neg (by simp [Mode.on, hd])

theorem readMode_shorter {messages : List Message} {mode' : Mode} {rest : Bytes}
    (h : readMode mode buffer = some (messages, mode', rest)) : rest.length < buffer.length := by
  cases hd : mode.dead with
  | true =>
    cases buffer with
    | nil => simp [readMode, hd] at h
    | cons b buffer =>
      rw [readMode_dead hd] at h
      cases h
      exact Nat.lt_succ_self _
  | false =>
    cases ha : mode.awaitingHead with
    | true =>
      rw [readMode_head hd ha] at h
      obtain ⟨i, hi, he⟩ := Option.map_eq_some_iff.mp h
      cases he
      have hlen := (prefix_of_indexOf hi).length_le
      rw [List.length_drop] at hlen ⊢
      simp only [BLANK_LINE, List.length_cons, List.length_nil] at hlen
      omega
    | false =>
      rcases readMode_cases hd ha buffer with ⟨frame, more, hf, hm⟩ | ho | ⟨hn, -⟩
      · rw [readMode_of_wire hd ha hf hm] at h
        cases h
        have hl := two_le_length_wire frame
        rw [hm, List.length_append]
        omega
      · rw [readMode_of_oversized hd ha ho] at h
        cases h
        have hl := ho.length_pos
        rw [List.length_drop]
        omega
      · rw [hn] at h
        cases h

theorem readMode_stable {messages : List Message} {mode' : Mode} {rest : Bytes} (more : Bytes)
    (h : readMode mode buffer = some (messages, mode', rest)) :
    readMode mode (buffer ++ more) = some (messages, mode', rest ++ more) := by
  cases hd : mode.dead with
  | true =>
    cases buffer with
    | nil => simp [readMode, hd] at h
    | cons b buffer =>
      rw [readMode_dead hd] at h
      cases h
      exact readMode_dead hd b _
  | false =>
    cases ha : mode.awaitingHead with
    | true =>
      rw [readMode_head hd ha] at h ⊢
      obtain ⟨i, hi, he⟩ := Option.map_eq_some_iff.mp h
      cases he
      have hlen := (prefix_of_indexOf hi).length_le
      rw [List.length_drop] at hlen
      simp only [BLANK_LINE, List.length_cons, List.length_nil] at hlen
      rw [indexOf_append hi, Option.map_some, List.drop_append_of_le_length (by omega)]
    | false =>
      rcases readMode_cases hd ha buffer with ⟨frame, left, hf, hm⟩ | ho | ⟨hn, -⟩
      · rw [readMode_of_wire hd ha hf hm] at h
        cases h
        exact readMode_of_wire hd ha hf (by rw [hm, List.append_assoc])
      · rw [readMode_of_oversized hd ha ho] at h
        cases h
        have hl := ho.length_pos
        rw [readMode_of_oversized hd ha (ho.append more),
          List.drop_append_of_le_length (by omega)]
      · rw [hn] at h
        cases h

def reader : Reader UInt8 Mode Message where
  read := readMode
  shorter := readMode_shorter
  stable := readMode_stable

/-- A reader's result, as a parser and the messages. -/
def asParser (result : List Message × Mode × Bytes) : FrameParser × List Message :=
  (result.2.1.on result.2.2, result.1)

theorem drain_dead (h : mode.dead = true) (buffer : Bytes) :
    reader.drain mode buffer = ([], mode, []) := by
  induction buffer with
  | nil => exact Reader.drain_of_none (by simp [reader, readMode, h])
  | cons b rest ih =>
    rw [Reader.drain_of_some (R := reader) (readMode_dead h b rest), ih]
    rfl

end Reading

/-! ## The loop and its termination -/

theorem turn_shorter {q : FrameParser} {messages : List Message}
    (h : p.turn = .continues q messages) :
    q.buffer.length < p.buffer.length ∧ q.dead = p.dead ∧ q.awaitingHead = p.awaitingHead := by
  rcases turn_cases p with ⟨frame, hs, more, hm⟩ | ho | hr
  · rw [turn_of_wire hs hm.symm, Turn.continues.injEq] at h
    have hl := two_le_length_wire frame
    rw [← h.1, ← hm, List.length_append]
    refine ⟨?_, rfl, rfl⟩
    show more.length < frame.wire.length + more.length
    omega
  · rw [turn_of_oversized ho] at h
    cases h
  · rw [hr] at h
    cases h

theorem returns_drainUpTo {fuel : Nat} (h : p.buffer.length < fuel) :
    p.Returns (FrameParser.drainUpTo fuel p) := by
  induction fuel generalizing p with
  | zero => exact absurd h (Nat.not_lt_zero _)
  | succ fuel ih =>
    rw [FrameParser.drainUpTo]
    cases ht : p.turn with
    | returns q => exact .returns ht
    | continues q messages =>
      have hs := (turn_shorter ht).1
      exact .continues ht (ih (by omega))

/-- Every call of `drain` returns, with what the model computes. -/
theorem returns_drain (p : FrameParser) : p.Returns p.drain :=
  returns_drainUpTo (Nat.lt_succ_self _)

/-- And with nothing else. -/
theorem returns_unique {r r' : FrameParser × List Message} (h : p.Returns r) (h' : p.Returns r') :
    r = r' := by
  induction h generalizing r' with
  | returns ht =>
    cases h' with
    | returns ht' =>
      rw [ht] at ht'
      cases ht'
      rfl
    | continues ht' =>
      rw [ht] at ht'
      cases ht'
  | continues ht hr ih =>
    cases h' with
    | returns ht' =>
      rw [ht] at ht'
      cases ht'
    | continues ht' hr' =>
      rw [ht] at ht'
      cases ht'
      cases ih hr'
      rfl

theorem returns_reader (mode : Mode) {buffer : Bytes} (hd : mode.dead = false)
    (ha : mode.awaitingHead = false) :
    (mode.on buffer).Returns (asParser (reader.drain mode buffer)) := by
  induction mode, buffer using reader.drain_induction with
  | rests mode buffer hn =>
    rw [Reader.drain_of_none hn]
    rcases readMode_cases hd ha buffer with ⟨frame, more, hf, hm⟩ | ho | ⟨-, hr⟩
    · exact absurd (readMode_of_wire hd ha hf hm) (by rw [show readMode mode buffer = none from hn]; nofun)
    · exact absurd (readMode_of_oversized hd ha ho)
        (by rw [show readMode mode buffer = none from hn]; nofun)
    · exact .returns hr
  | reads mode buffer messages mode' rest hs ih =>
    rw [Reader.drain_of_some hs]
    replace hs : readMode mode buffer = some (messages, mode', rest) := hs
    rcases readMode_cases hd ha buffer with ⟨frame, more, hf, hm⟩ | ho | ⟨hn, -⟩
    · rw [readMode_of_wire hd ha hf hm] at hs
      cases hs
      exact .continues (turn_of_wire (p := mode.on buffer) hf hm) (ih hd ha)
    · rw [readMode_of_oversized hd ha ho] at hs
      cases hs
      rw [drain_dead rfl]
      exact .returns (turn_of_oversized (p := mode.on buffer) ho)
    · rw [hn] at hs
      cases hs

/-- The loop is the reader's, for a parser that is past the head. -/
theorem drain_eq (hd : p.dead = false) (ha : p.awaitingHead = false) :
    p.drain = asParser (reader.drain p.mode p.buffer) :=
  returns_unique (returns_drain p) (returns_reader p.mode hd ha)

/-- A dead parser has dropped its buffer. -/
def Settled (p : FrameParser) : Prop := p.dead = true → p.buffer = []

theorem push_eq (hp : Settled p) (chunk : Bytes) :
    p.push chunk = asParser (reader.drain p.mode (p.buffer ++ chunk)) := by
  obtain ⟨buffer, fragments, dead, awaitingHead⟩ := p
  have hb : (if buffer = [] then chunk else buffer ++ chunk) = buffer ++ chunk := by
    split
    · next he => rw [he, List.nil_append]
    · rfl
  unfold FrameParser.push
  simp only [hb, FrameParser.mode]
  cases dead with
  | true =>
    obtain rfl : buffer = [] := hp rfl
    rw [drain_dead rfl]
    rfl
  | false =>
    cases awaitingHead with
    | true =>
      have hread : readMode ⟨fragments, false, true⟩ (buffer ++ chunk) = _ := readMode_head rfl rfl
      simp only [Bool.false_eq_true, if_false, if_true]
      cases hi : indexOf BLANK_LINE (buffer ++ chunk) with
      | none =>
        rw [hi, Option.map_none] at hread
        rw [Reader.drain_of_none hread]
        rfl
      | some i =>
        rw [hi, Option.map_some] at hread
        rw [Reader.drain_of_some hread]
        exact drain_eq rfl rfl
    | false => exact drain_eq rfl rfl

theorem settled_push (hp : Settled p) (chunk : Bytes) : Settled (p.push chunk).1 := by
  rw [push_eq hp]
  intro hd
  have hr : readMode (reader.drain p.mode (p.buffer ++ chunk)).2.1
      (reader.drain p.mode (p.buffer ++ chunk)).2.2 = none :=
    Reader.read_drain (R := reader) ..
  cases hb : (reader.drain p.mode (p.buffer ++ chunk)).2.2 with
  | nil => exact hb
  | cons b rest =>
    rw [hb, readMode_dead hd] at hr
    cases hr

theorem pushAll_eq (hp : Settled p) (chunks : List Bytes) :
    p.pushAll chunks = asParser (reader.feed p.mode p.buffer chunks) := by
  induction chunks generalizing p with
  | nil => rfl
  | cons chunk chunks ih =>
    simp only [FrameParser.pushAll, ih (settled_push hp chunk), Reader.feed]
    rw [push_eq hp]
    rfl

theorem readMode_new (skipHead : Bool) : readMode (FrameParser.new skipHead).mode [] = none := by
  cases skipHead <;> decide

/-- However a stream is cut into chunks, the parser makes the same of it as in one piece. -/
theorem pushAll_new (skipHead : Bool) (chunks : List Bytes) :
    (FrameParser.new skipHead).pushAll chunks = (FrameParser.new skipHead).push chunks.flatten := by
  have hp : Settled (FrameParser.new skipHead) := fun _ => rfl
  have hn : reader.read (FrameParser.new skipHead).mode (FrameParser.new skipHead).buffer = none :=
    readMode_new skipHead
  rw [pushAll_eq hp, push_eq hp, Reader.feed_eq_drain hn]

end Tunlit.WebSocket.Parser
