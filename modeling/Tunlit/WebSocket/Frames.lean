import Tunlit.Lib.BigEndian
import Mathlib.Data.List.Infix

/-! # The WebSocket wire format

What a stream of frames is, independent of how the server reads one: the header with the
three forms of a length, the mask, and how frames make up messages. -/
namespace Tunlit.WebSocket.Frames
open Tunlit.Lib.BigEndian

abbrev Bytes := List UInt8

scoped instance neZeroByte : NeZero 8 := ⟨by decide⟩
scoped instance neZeroHalf : NeZero 16 := ⟨by decide⟩

def MAX_FRAME : Nat := 16 * 1024 * 1024

/-! ## Headers -/

/-- The three forms of a length: in the second byte, or in two or eight bytes behind it. -/
inductive Form where
  | short
  | medium
  | long
deriving DecidableEq, Repr

namespace Form

def limit : Form → Nat
  | .short => 126
  | .medium => 2 ^ 16
  | .long => 2 ^ 64

/-- The lower seven bits of the second byte. -/
def mark (length : Nat) : Form → Nat
  | .short => length
  | .medium => 126
  | .long => 127

def extended (length : Nat) : Form → Bytes
  | .short => []
  | .medium => bigEndian 2 length
  | .long => bigEndian 8 length

/-- The length of the header without the mask. -/
def size : Form → Nat
  | .short => 2
  | .medium => 4
  | .long => 10

theorem mark_le {form : Form} {length : Nat} (h : length < form.limit) : form.mark length ≤ 127 := by
  cases form <;> simp only [mark, limit] at h ⊢ <;> omega

@[simp] theorem length_extended (form : Form) (length : Nat) :
    (form.extended length).length + 2 = form.size := by
  cases form <;> simp [extended, size]

end Form

structure Head where
  fin : Bool
  reserved : Fin 8
  opcode : Fin 16
  masked : Bool
  form : Form
  length : Nat
  fits : length < form.limit
deriving DecidableEq

namespace Head

def first (head : Head) : UInt8 :=
  .ofNat (head.fin.toNat * 128 + head.reserved.val * 16 + head.opcode.val)

def second (head : Head) : UInt8 := .ofNat (head.masked.toNat * 128 + head.form.mark head.length)

def bytes (head : Head) : Bytes := head.first :: head.second :: head.form.extended head.length

variable (head : Head)

@[simp] theorem length_bytes : head.bytes.length = head.form.size := by
  rw [bytes, List.length_cons, List.length_cons]
  exact head.form.length_extended head.length

theorem toNat_first :
    head.first.toNat = head.fin.toNat * 128 + head.reserved.val * 16 + head.opcode.val := by
  have hr := head.reserved.isLt
  have ho := head.opcode.isLt
  have hf := head.fin.toNat_le
  rw [first, UInt8.toNat_ofNat']
  omega

theorem toNat_second :
    head.second.toNat = head.masked.toNat * 128 + head.form.mark head.length := by
  have hm := head.form.mark_le head.fits
  have hk := head.masked.toNat_le
  rw [second, UInt8.toNat_ofNat']
  omega

end Head

/-! ## Frames -/

structure Key where
  bytes : Bytes
  four : bytes.length = 4
deriving DecidableEq

/-- The payload under a key, which is also how it is read back. -/
def mask (key payload : Bytes) : Bytes := payload.mapIdx fun i b => b ^^^ key.getD (i % 4) 0

@[simp] theorem length_mask (key payload : Bytes) : (mask key payload).length = payload.length := by
  simp [mask]

@[simp] theorem mask_mask (key payload : Bytes) : mask key (mask key payload) = payload := by
  apply List.ext_getElem
  · simp
  · intro i h₁ h₂
    simp [mask, UInt8.xor_assoc]

structure Frame where
  fin : Bool
  reserved : Fin 8 := 0
  opcode : Fin 16
  key : Option Key := none
  form : Form
  payload : Bytes
  fits : payload.length < form.limit
deriving DecidableEq

namespace Frame

/-- The server takes the payload. -/
def Small (frame : Frame) : Prop := frame.payload.length ≤ MAX_FRAME

def head (frame : Frame) : Head where
  fin := frame.fin
  reserved := frame.reserved
  opcode := frame.opcode
  masked := frame.key.isSome
  form := frame.form
  length := frame.payload.length
  fits := frame.fits

/-- What stands behind the header. -/
def body (frame : Frame) : Bytes :=
  match frame.key with
  | none => frame.payload
  | some key => key.bytes ++ mask key.bytes frame.payload

def wire (frame : Frame) : Bytes := frame.head.bytes ++ frame.body

theorem length_body (frame : Frame) : frame.body.length =
    (if frame.head.masked then 4 else 0) + frame.head.length := by
  unfold body head
  cases frame.key with
  | none => simp
  | some key => simp [key.four]

def isControl (frame : Frame) : Bool := 8 ≤ frame.opcode.val
def isContinuation (frame : Frame) : Bool := frame.opcode.val = 0

end Frame

/-! ## Messages -/

structure Message where
  opcode : Nat
  payload : Bytes
deriving DecidableEq, Repr

/-- The messages of a sequence of frames, and the one that is left open. A control frame is
a message of its own wherever it stands, and a continuation of nothing is passed over. -/
def assemble (opened : Option Message) : List Frame → List Message × Option Message
  | [] => ([], opened)
  | frame :: frames =>
    let message : Message := ⟨frame.opcode.val, frame.payload⟩
    if frame.isControl then
      let (messages, last) := assemble opened frames
      (message :: messages, last)
    else if frame.isContinuation then
      match opened with
      | none => assemble none frames
      | some started =>
        let joined : Message := ⟨started.opcode, started.payload ++ frame.payload⟩
        if frame.fin then
          let (messages, last) := assemble none frames
          (joined :: messages, last)
        else assemble (some joined) frames
    else if frame.fin then
      let (messages, last) := assemble opened frames
      (message :: messages, last)
    else assemble (some message) frames

/-! ## Streams -/

/-- The bytes begin with a header that announces more than the server takes. -/
def Oversized (bytes : Bytes) : Prop := ∃ head : Head, MAX_FRAME < head.length ∧ head.bytes <+: bytes

section Oversizes
variable {bytes : Bytes}

theorem Oversized.append (h : Oversized bytes) (more : Bytes) : Oversized (bytes ++ more) := by
  obtain ⟨head, hl, hp⟩ := h
  exact ⟨head, hl, hp.trans (List.prefix_append ..)⟩

theorem Oversized.length_pos (h : Oversized bytes) : 0 < bytes.length := by
  obtain ⟨head, -, hp⟩ := h
  have hl := hp.length_le
  rw [Head.bytes, List.length_cons] at hl
  omega

end Oversizes

/-- The frames of a stream, up to where no whole frame is left or an oversized one begins. -/
structure Reads (stream : Bytes) (frames : List Frame) (rest : Bytes) : Prop where
  whole : stream = (frames.map Frame.wire).flatten ++ rest
  small : ∀ frame ∈ frames, frame.Small
  last : ∀ frame : Frame, frame.Small → ¬ frame.wire <+: rest

end Tunlit.WebSocket.Frames
