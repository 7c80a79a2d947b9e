import Mathlib.Algebra.BigOperators.Group.List.Basic
import Mathlib.Algebra.Order.Ring.Nat

/-! # The frames of a multiplexed connection

The binary messages both ends exchange for one stream, with the constants of flow
control. `encode` and `decode` are the two functions of `lib/frames.js`; the CLI
reads and writes the same five byte header. A stream is announced by an OPEN frame,
which is on the same FIFO connection before every other frame of the stream, so the
frames of a stream that both ends know are the remaining ones. -/
namespace Tunlit.Mux.Frames

abbrev Bytes := List UInt8

def HEADER_SIZE : Nat := 5
def WINDOW_SIZE : Nat := 1024 * 1024
def CHUNK_SIZE : Nat := 64 * 1024
def MAX_DATAGRAM : Nat := 65507

inductive FrameType where
  | open | data | close | windowUpdate | datagram | reset
deriving DecidableEq, Repr

/-- `TYPES` -/
def FrameType.code : FrameType → UInt8
  | .open => 0x01
  | .data => 0x02
  | .close => 0x03
  | .windowUpdate => 0x04
  | .datagram => 0x05
  | .reset => 0x06

def uint32BE (n : Nat) : Bytes :=
  [.ofNat (n / 2 ^ 24 % 256), .ofNat (n / 2 ^ 16 % 256), .ofNat (n / 2 ^ 8 % 256), .ofNat (n % 256)]

def readUInt32BE : Bytes → Option Nat
  | a :: b :: c :: d :: _ => some (a.toNat * 2 ^ 24 + b.toNat * 2 ^ 16 + c.toNat * 2 ^ 8 + d.toNat)
  | _ => none

def encode (type : FrameType) (streamId : Nat) (payload : Bytes) : Bytes :=
  type.code :: uint32BE streamId ++ payload

structure Decoded where
  type : UInt8
  streamId : Nat
  payload : Bytes
deriving DecidableEq, Repr

def decode (buffer : Bytes) : Option Decoded :=
  if buffer.length < HEADER_SIZE then none
  else match buffer with
    | type :: rest => (readUInt32BE rest).map fun id => ⟨type, id, rest.drop 4⟩
    | [] => none

theorem readUInt32BE_append {n : Nat} (hn : n < 2 ^ 32) (rest : Bytes) :
    readUInt32BE (uint32BE n ++ rest) = some n := by
  simp only [uint32BE, readUInt32BE, List.cons_append, List.nil_append, UInt8.toNat_ofNat']
  congr 1
  omega

theorem decode_encode (type : FrameType) {id : Nat} (hid : id < 2 ^ 32) (payload : Bytes) :
    decode (encode type id payload) = some ⟨type.code, id, payload⟩ := by
  have hlen : ¬ (encode type id payload).length < HEADER_SIZE := by
    simp [encode, uint32BE, HEADER_SIZE]
  unfold decode
  rw [if_neg hlen]
  simp only [encode, List.cons_append, readUInt32BE_append hid, Option.map_some]
  simp [uint32BE]

/-- A message of one stream, as the ends act on it. -/
inductive Frame where
  | data (payload : Bytes)
  | close
  | windowUpdate (amount : Nat)
  | datagram (payload : Bytes)
  | reset
deriving DecidableEq, Repr

def Frame.type : Frame → FrameType
  | .data _ => .data
  | .close => .close
  | .windowUpdate _ => .windowUpdate
  | .datagram _ => .datagram
  | .reset => .reset

def Frame.payload : Frame → Bytes
  | .data payload | .datagram payload => payload
  | .windowUpdate amount => uint32BE amount
  | .close | .reset => []

/-- The switch over the frame type of `_onFrame`, and of the CLI's reader loop. -/
def Frame.ofDecoded (d : Decoded) : Option Frame :=
  if d.type = FrameType.data.code then some (.data d.payload)
  else if d.type = FrameType.close.code then some .close
  else if d.type = FrameType.reset.code then some .reset
  else if d.type = FrameType.datagram.code then some (.datagram d.payload)
  else if d.type = FrameType.windowUpdate.code then (readUInt32BE d.payload).map .windowUpdate
  else none

/-- What is written for a frame is read back as that frame, as long as an amount fits
its four bytes. -/
theorem ofDecoded_encode (f : Frame) {id : Nat} (hid : id < 2 ^ 32)
    (hf : ∀ n, f = .windowUpdate n → n < 2 ^ 32) :
    (decode (encode f.type id f.payload)).bind Frame.ofDecoded = some f := by
  rw [decode_encode _ hid, Option.bind_some]
  cases f with
  | windowUpdate n =>
    have := readUInt32BE_append (hf n rfl) []
    simp only [List.append_nil] at this
    simp [Frame.ofDecoded, Frame.type, Frame.payload, FrameType.code, this]
  | _ => rfl

end Tunlit.Mux.Frames
