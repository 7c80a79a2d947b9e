import Mathlib.Logic.Function.Basic
import Tunlit.Lib.Runs
import Tunlit.Mux.Frames

/-! # All streams of a connection

`MuxSession` of the server and `Mux` of the CLI: how ids are given out, and which stream gets a
frame. What a stream itself does is any sequence of frames that it sends, and its end. Both
directions of the WebSocket are FIFO; a message of the CLI gets there from a task of its own.
Every stream is numbered by its opening; only the numbers tell which stream a frame is of. -/
namespace Tunlit.Mux.Sessions
open Tunlit.Lib.Runs Tunlit.Mux.Frames

/-! ## Frames of the CLI -/

/-- `encode` of the CLI -/
def cliEncode (kind : FrameType) (id : UInt32) (payload : Bytes) : Bytes :=
  kind.code :: uint32BE id.toNat ++ payload

/-- What the reader loop takes from a binary message. -/
def cliDecode (data : Bytes) : Option (UInt8 × UInt32 × Bytes) :=
  (decode data).map fun frame => (frame.type, UInt32.ofNat frame.streamId, frame.payload)

/-- The server writes the lowest 32 bits of an id. -/
theorem decode_encode_mod (type : FrameType) (id : ℕ) (payload : Bytes) :
    decode (encode type id payload) = some ⟨type.code, id % 2 ^ 32, payload⟩ := by
  have hbytes : uint32BE id = uint32BE (id % 2 ^ 32) := by
    simp only [uint32BE, List.cons.injEq, and_true]
    refine ⟨?_, ?_, ?_, ?_⟩ <;> congr 1 <;> omega
  have hid : id % 2 ^ 32 < 2 ^ 32 := Nat.mod_lt _ (by decide)
  rw [← decode_encode type hid payload, encode, encode, hbytes]

theorem decode_cliEncode (kind : FrameType) (id : UInt32) (payload : Bytes) :
    decode (cliEncode kind id payload) = some ⟨kind.code, id.toNat, payload⟩ :=
  decode_encode kind id.toNat_lt payload

theorem cliDecode_encode (type : FrameType) (id : ℕ) (payload : Bytes) :
    cliDecode (encode type id payload) = some (type.code, UInt32.ofNat id, payload) := by
  have hid : UInt32.ofNat (id % 2 ^ 32) = UInt32.ofNat id := by
    rw [← UInt32.toNat_inj]
    simp
  rw [cliDecode, decode_encode_mod, Option.map_some, hid]

/-! ## Streams -/

/-- A stream as one side knows it: its id there, and its number. A stream that the CLI opens
has its OPEN frame sent after it is registered. -/
structure Stream where
  key : ℕ
  tag : ℕ
  own : Bool
  announced : Bool
deriving DecidableEq

/-- One side: its map of streams, the streams that may still act, and those that have ended. -/
structure Side where
  nextId : ℕ
  streams : ℕ → Option ℕ := fun _ => none
  objects : List Stream := []
  ended : List ℕ := []

/-- A frame as a stream sends it. -/
structure Message where
  type : FrameType
  id : ℕ
  payload : Bytes
  tag : ℕ
deriving DecidableEq

structure Session where
  server : Side := { nextId := 2 }
  cli : Side := { nextId := 1 }
  tasks : List Message := []
  toServer : List Message := []
  toCli : List Message := []
  opened : ℕ := 0

namespace Side

def create (e : Side) (stream : Stream) : Side :=
  { e with streams := Function.update e.streams stream.key (some stream.tag),
           objects := e.objects ++ [stream] }

/-- `_forget` and `forget`, of a stream that has ended. -/
def forget (e : Side) (id tag : ℕ) : Side :=
  { e with streams := Function.update e.streams id none, ended := tag :: e.ended }

/-- A stream ends for good. -/
def finish (e : Side) (i : ℕ) (stream : Stream) : Side :=
  { e.forget stream.key stream.tag with objects := e.objects.eraseIdx i }

/-- `_onFrame` of the server, up to what a stream does with its frame. -/
def onFrame (e : Side) (frame : Decoded) (tag : ℕ) : Side :=
  if frame.type = FrameType.open.code then
    if (e.streams frame.streamId).isSome then e
    else e.create ⟨frame.streamId, tag, false, true⟩
  else e

/-- The reader loop of the CLI, likewise: it registers every OPEN, and a RESET ends a stream. -/
def onMessage (e : Side) (kind : UInt8) (id : ℕ) (tag : ℕ) : Side :=
  if kind = FrameType.open.code then e.create ⟨id, tag, false, true⟩
  else match e.streams id with
    | none => e
    | some known => if kind = FrameType.reset.code then e.forget id known else e

section
variable (e : Side) (stream : Stream) (i id tag : ℕ)

@[simp] theorem create_streams :
    (e.create stream).streams = Function.update e.streams stream.key (some stream.tag) := rfl

@[simp] theorem create_objects : (e.create stream).objects = e.objects ++ [stream] := rfl

@[simp] theorem create_ended : (e.create stream).ended = e.ended := rfl

@[simp] theorem forget_streams :
    (e.forget id tag).streams = Function.update e.streams id none := rfl

@[simp] theorem forget_objects : (e.forget id tag).objects = e.objects := rfl

@[simp] theorem forget_ended : (e.forget id tag).ended = tag :: e.ended := rfl

@[simp] theorem finish_streams :
    (e.finish i stream).streams = Function.update e.streams stream.key none := rfl

@[simp] theorem finish_objects : (e.finish i stream).objects = e.objects.eraseIdx i := rfl

@[simp] theorem finish_ended : (e.finish i stream).ended = stream.tag :: e.ended := rfl

end

end Side

def Message.bytes (m : Message) : Bytes := encode m.type m.id m.payload

def Message.cliBytes (m : Message) : Bytes := cliEncode m.type (UInt32.ofNat m.id) m.payload

/-- A stream sends a frame, or a RESET when it ends. -/
def Stream.message (stream : Stream) (type : FrameType) (payload : Bytes) : Message :=
  ⟨type, stream.key, payload, stream.tag⟩

inductive Event where
  | serverOpen (payload : Bytes)
  | serverSend (i : ℕ) (type : FrameType) (payload : Bytes)
  | serverEnd (i : ℕ) (reset : Bool)
  | cliRegister
  | cliOpen (i : ℕ) (payload : Bytes)
  | cliSend (i : ℕ) (type : FrameType) (payload : Bytes)
  | cliEnd (i : ℕ) (reset : Bool)
  | task (i : ℕ)
  | toServer
  | toCli

/-- The RESET of a stream that ends. -/
def resets (stream : Stream) (reset : Bool) : List Message :=
  if reset then [stream.message .reset []] else []

namespace Session

/-- `MuxSession.open` -/
def serverOpen (s : Session) (payload : Bytes) : Session :=
  { s with
    server := { s.server.create ⟨s.server.nextId, s.opened, true, true⟩ with
      nextId := s.server.nextId + 2 }
    toCli := s.toCli ++ [⟨.open, s.server.nextId, payload, s.opened⟩]
    opened := s.opened + 1 }

/-- `Mux::open` up to its await -/
def cliRegister (s : Session) : Session :=
  { s with
    cli := { s.cli.create ⟨s.cli.nextId, s.opened, true, false⟩ with
      nextId := (s.cli.nextId + 2) % 2 ^ 32 }
    opened := s.opened + 1 }

/-- `Mux::open` goes on: its OPEN is sent. -/
def cliOpen (s : Session) (i : ℕ) (stream : Stream) (payload : Bytes) : Session :=
  { s with
    cli := { s.cli with objects := s.cli.objects.set i { stream with announced := true } }
    toServer := s.toServer ++ [stream.message .open payload] }

def step (s : Session) : Event → Option Session
  | .serverOpen payload => some (s.serverOpen payload)
  | .serverSend i type payload =>
    (s.server.objects[i]?).bind fun stream =>
      if type = .open then none
      else some { s with toCli := s.toCli ++ [stream.message type payload] }
  | .serverEnd i reset =>
    (s.server.objects[i]?).map fun stream =>
      { s with server := s.server.finish i stream, toCli := s.toCli ++ resets stream reset }
  | .cliRegister => some s.cliRegister
  | .cliOpen i payload =>
    (s.cli.objects[i]?).bind fun stream =>
      if stream.announced then none else some (s.cliOpen i stream payload)
  | .cliSend i type payload =>
    (s.cli.objects[i]?).bind fun stream =>
      if type = .open ∨ stream.announced = false then none
      else some { s with tasks := s.tasks ++ [stream.message type payload] }
  | .cliEnd i reset =>
    (s.cli.objects[i]?).bind fun stream =>
      if stream.announced = false then none
      else some { s with cli := s.cli.finish i stream, tasks := s.tasks ++ resets stream reset }
  | .task i =>
    (s.tasks[i]?).map fun m =>
      { s with tasks := s.tasks.eraseIdx i, toServer := s.toServer ++ [m] }
  | .toServer =>
    match s.toServer with
    | [] => none
    | m :: rest => (decode m.cliBytes).map fun frame =>
      { s with server := s.server.onFrame frame m.tag, toServer := rest }
  | .toCli =>
    match s.toCli with
    | [] => none
    | m :: rest => (cliDecode m.bytes).map fun frame =>
      { s with cli := s.cli.onMessage frame.1 frame.2.1.toNat m.tag, toCli := rest }

end Session

def machine : Machine Session Event where
  init s := s = {}
  step := Session.step

/-! ## Streams that do not get mixed up -/

/-- The id of a stream on the wire. -/
def Stream.wireId (stream : Stream) : ℕ := stream.key % 2 ^ 32

/-- A frame with this type and id reaches the stream that it is of: an OPEN makes a new one,
another frame finds its own, or its own one has ended there. -/
def Reaches (e : Side) (type : UInt8) (id tag : ℕ) : Prop :=
  if type = FrameType.open.code then e.streams id = none
  else e.streams id = some tag ∨ e.streams id = none ∧ tag ∈ e.ended

structure Unmixed (s : Session) : Prop where
  server : ∀ a ∈ s.server.objects, ∀ b ∈ s.server.objects, a.wireId = b.wireId → a.tag = b.tag
  cli : ∀ a ∈ s.cli.objects, ∀ b ∈ s.cli.objects, a.wireId = b.wireId → a.tag = b.tag
  even : ∀ a ∈ s.server.objects, a.own = true → a.wireId % 2 = 0
  odd : ∀ a ∈ s.cli.objects, a.own = true → a.wireId % 2 = 1
  decoded : ∀ a ∈ s.server.objects, ∀ type payload,
    (cliDecode (encode type a.key payload)).map
      (fun frame => (frame.1, frame.2.1.toNat, frame.2.2)) = some (type.code, a.key, payload)
  cliDecoded : ∀ a ∈ s.cli.objects, ∀ type payload,
    decode (cliEncode type (UInt32.ofNat a.key) payload) = some ⟨type.code, a.key, payload⟩
  toServer : ∀ m rest frame, s.toServer = m :: rest → decode m.cliBytes = some frame →
    Reaches s.server frame.type frame.streamId m.tag
  toCli : ∀ m rest frame, s.toCli = m :: rest → cliDecode m.bytes = some frame →
    Reaches s.cli frame.1 frame.2.1.toNat m.tag

/-- The ids that are in use, with the numbers of their streams. -/
def Session.pairs (s : Session) : List (ℕ × ℕ) :=
  (s.server.objects ++ s.cli.objects).map (fun a => (a.key, a.tag)) ++
    (s.tasks ++ s.toServer ++ s.toCli).map fun m => (m.id, m.tag)

/-- The server's next id fits its four bytes. The CLI's is free: no stream has it on either
side, and no frame that is under way. -/
def ok (s : Session) : Event → Prop
  | .serverOpen _ => s.server.nextId < 2 ^ 32
  | .cliRegister => s.cli.nextId ∉ s.pairs.map Prod.fst
  | _ => True

instance (s : Session) : ∀ e, Decidable (ok s e)
  | .serverOpen _ => inferInstanceAs (Decidable (_ < _))
  | .cliRegister => inferInstanceAs (Decidable (_ ∉ _))
  | .serverSend .. | .serverEnd .. | .cliOpen .. | .cliSend .. | .cliEnd .. | .task _ | .toServer
  | .toCli => .isTrue trivial

end Tunlit.Mux.Sessions
