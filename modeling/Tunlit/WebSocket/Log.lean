import Tunlit.WebSocket.Injection

/-! # What the log of a WebSocket says

The entry of an upgrade is written before the app has answered, with status 101, and the
parsers take what follows the first blank line for frames. So the log is right where the
app's answer is a 101 and no frame is compressed or too long for the parser. -/
namespace Tunlit.WebSocket.Log
open Function Tunlit.Lib.Runs Tunlit.WebSocket.Frames Tunlit.WebSocket.Parser
  Tunlit.WebSocket.Decoding Tunlit.WebSocket.Upgrade Tunlit.WebSocket.Injection

/-! ## What was exchanged -/

/-- What the server has taken from the sender of a direction. -/
def received (flow : Flow) : Bytes := flow.forwarded ++ flow.held

/-- The status that a receiver reads in a status line. -/
def statusOf (bytes : Bytes) : Option Nat :=
  match bytes.dropWhile (· ≠ 32) with
  | _ :: a :: b :: c :: _ =>
    if 48 ≤ a ∧ a ≤ 57 ∧ 48 ≤ b ∧ b ≤ 57 ∧ 48 ≤ c ∧ c ≤ 57 then
      some ((a.toNat - 48) * 100 + (b.toNat - 48) * 10 + (c.toNat - 48))
    else none
  | _ => none

/-- The status of the answer that the visitor has received. -/
def visitorStatus (c : Connection) : Option Nat := statusOf (c.flow .outgoing).forwarded

/-- The whole frames that were exchanged in a direction, of any length. -/
def Exchanged (skipHead : Bool) (bytes : Bytes) (frames : List Frame) : Prop :=
  (∀ body, ¬ BodyOf skipHead bytes body) ∧ frames = [] ∨
    ∃ rest, BodyOf skipHead bytes (wires frames ++ rest) ∧ ∀ frame : Frame, ¬ frame.wire <+: rest

/-- The messages that the ends make of frames, when an extension reads the payload of a
message under the reserved bits of its first frame. -/
def meaning (extension : Fin 8 → Bytes → Bytes) (opened : Option (Fin 8 × Message)) :
    List Frame → List Message
  | [] => []
  | frame :: frames =>
    let whole : Message := ⟨frame.opcode.val, extension frame.reserved frame.payload⟩
    if frame.isControl then whole :: meaning extension opened frames
    else if frame.isContinuation then
      match opened with
      | none => meaning extension none frames
      | some (reserved, started) =>
        let payload := started.payload ++ frame.payload
        if frame.fin then
          ⟨started.opcode, extension reserved payload⟩ :: meaning extension none frames
        else meaning extension (some (reserved, ⟨started.opcode, payload⟩)) frames
    else if frame.fin then whole :: meaning extension opened frames
    else meaning extension (some (frame.reserved, ⟨frame.opcode.val, frame.payload⟩)) frames

/-- The records of a direction, but for those of injected messages. -/
def recorded (c : Connection) (d : Direction) : List Record :=
  c.pending.filter fun r => r.direction = d && !r.injected

/-- The log of a connection says what happened. -/
structure Truthful (extension : Fin 8 → Bytes → Bytes) (c : Connection) : Prop where
  status : visitorStatus c = some c.entry.status
  upgraded : ∀ d, recorded c d ≠ [] → visitorStatus c = some 101
  messages : ∀ d, ∃ frames, Exchanged (d = .outgoing) (received (c.flow d)) frames ∧
    recorded c d = (meaning extension none frames).map (record d)

/-- The visitor has received a 101, and no frame that was exchanged is compressed or longer
than the parser takes. -/
structure Plain (c : Connection) : Prop where
  answered : visitorStatus c = some 101
  frames : ∀ d, ∃ frames, Exchanged (d = .outgoing) (received (c.flow d)) frames ∧
    ∀ frame ∈ frames, frame.reserved = 0 ∧ frame.Small

theorem meaning_eq {extension : Fin 8 → Bytes → Bytes} (h0 : ∀ payload, extension 0 payload = payload)
    {frames : List Frame} (h : ∀ frame ∈ frames, frame.reserved = 0) (opened : Option Message) :
    meaning extension (opened.map fun message => (0, message)) frames =
      (assemble opened frames).1 := by
  induction frames generalizing opened with
  | nil => rfl
  | cons frame frames ih =>
    rw [List.forall_mem_cons] at h
    simp only [meaning, assemble, h.1, h0]
    split
    · rw [ih h.2]
    · split
      · cases opened with
        | none => exact ih h.2 none
        | some started =>
          simp only [Option.map_some, h0]
          split
          · exact congrArg _ (ih h.2 none)
          · exact ih h.2 (some _)
      · split
        · rw [ih h.2]
        · exact ih h.2 (some _)

/-! ## The parsers -/

variable {request : Request} {visitor app : Bytes} {c c' : Connection}

/-- What the parser of a direction made of the bytes that were taken from the sender. -/
def Parsed (c : Connection) (d : Direction) : Prop :=
  ((c.flow d).parser, recorded c d) =
    (((FrameParser.new (d = .outgoing)).push (received (c.flow d))).1,
      ((FrameParser.new (d = .outgoing)).push (received (c.flow d))).2.map (record d))

/-- Two pieces are parsed as one. -/
theorem push_append (skipHead : Bool) (a b : Bytes) :
    (FrameParser.new skipHead).push (a ++ b) =
      ((((FrameParser.new skipHead).push a).1.push b).1,
        ((FrameParser.new skipHead).push a).2 ++ (((FrameParser.new skipHead).push a).1.push b).2) := by
  have h := pushAll_new skipHead [a, b]
  simp only [FrameParser.pushAll, List.flatten_cons, List.flatten_nil, List.append_nil] at h
  exact h.symm

theorem filter_record (d d' : Direction) (messages : List Message) :
    (messages.map (record d)).filter (fun r => r.direction = d' && !r.injected) =
      if d = d' then messages.map (record d) else [] := by
  split
  · next h =>
    refine List.filter_eq_self.mpr fun r hr => ?_
    obtain ⟨message, -, rfl⟩ := List.mem_map.mp hr
    simp [record, h]
  · next h =>
    refine List.filter_eq_nil_iff.mpr fun r hr => ?_
    obtain ⟨message, -, rfl⟩ := List.mem_map.mp hr
    simp [record, h]

theorem Parsed.same {d : Direction} (h : Parsed c d)
    (hp : (c'.flow d).parser = (c.flow d).parser)
    (hr : received (c'.flow d) = received (c.flow d)) (hl : recorded c' d = recorded c d) :
    Parsed c' d := by
  rw [Parsed, hp, hr, hl]
  exact h

theorem parsed_start (request : Request) (visitor app : Bytes) (d : Direction) :
    Parsed (proxyUpgrade request visitor app) d := by
  have hfirst : (if request.head = [] then (FrameParser.new false, [])
      else (FrameParser.new false).push request.head) =
      (FrameParser.new false).push request.head := by
    split
    · next h =>
      rw [h]
      decide
    · rfl
  cases d with
  | incoming =>
    simp only [Parsed, recorded, received, proxyUpgrade, hfirst, filter_record, List.append_nil,
      reduceCtorEq, decide_false, if_true]
  | outgoing =>
    simp only [Parsed, recorded, received, proxyUpgrade, filter_record, reduceCtorEq, if_false]
    decide

theorem parsed_read {d : Direction} (h : ∀ d, Parsed c d) (n : Nat) (d' : Direction) :
    Parsed (c.read d n) d' := by
  have hpending : recorded (c.read d n) d' = recorded c d' ++
      if d = d' then (((c.flow d).parser.push ((c.flow d).unread.take n)).2).map (record d)
      else [] := by
    rw [← filter_record]
    exact List.filter_append ..
  by_cases hd : d' = d
  · subst hd
    have hreceived : received ((c.read d' n).flow d') =
        received (c.flow d') ++ (c.flow d').unread.take n := by
      simp [received, Connection.read, Connection.onFlow]
    have hparser : ((c.read d' n).flow d').parser =
        ((c.flow d').parser.push ((c.flow d').unread.take n)).1 := by
      simp [Connection.read, Connection.onFlow]
    obtain ⟨hp, hm⟩ := Prod.mk.inj (h d')
    rw [Parsed, hparser, hpending, hreceived, push_append, if_pos rfl, hp, hm, List.map_append]
  · refine (h d').same ?_ ?_ ?_
    · simp [Connection.read, Connection.onFlow, hd]
    · simp [Connection.read, Connection.onFlow, hd]
    · rw [hpending, if_neg (Ne.symm hd), List.append_nil]

theorem received_write (c : Connection) (d d' : Direction) (n : Nat) :
    received ((c.write d n).flow d') = received (c.flow d') := by
  by_cases hd : d' = d
  · subst hd
    simp [received, Connection.write, Connection.onFlow]
  · simp [Connection.write, Connection.onFlow, hd]

/-- An injected message changes nothing that the parsers see. -/
theorem inject_flow (c : Connection) (d d' : Direction) (text : Bytes) (key : Key) :
    ((c.inject d text key).1.flow d').parser = (c.flow d').parser ∧
      received ((c.inject d text key).1.flow d') = received (c.flow d') := by
  unfold Connection.inject Connection.writer
  by_cases hd : d' = d
  · subst hd
    split
    · simp only [Connection.onFlow]
      split
      · simp [received]
      · split <;> simp [received]
    · exact ⟨rfl, rfl⟩
  · split
    · simp only [Connection.onFlow]
      split
      · simp [hd]
      · split <;> simp [hd]
    · exact ⟨rfl, rfl⟩

theorem inject_pending (c : Connection) (d : Direction) (text : Bytes) (key : Key) :
    (c.inject d text key).1.pending = c.pending ∨ (c.inject d text key).1.pending =
      c.pending ++ [{ record d ⟨1, text⟩ with injected := true }] := by
  unfold Connection.inject Connection.writer
  split
  · right
    simp only [Connection.onFlow]
    split
    · rfl
    · split <;> rfl
  · exact .inl rfl

theorem parsed_step {event : Event} (h : ∀ d, Parsed c d) (hs : step c event = some c')
    (d' : Direction) : Parsed c' d' := by
  cases event with
  | read d n =>
    rw [step, Option.ite_none_left_eq_some] at hs
    obtain ⟨-, hs⟩ := hs
    cases hs
    exact parsed_read h n d'
  | write d n =>
    rw [step, Option.ite_none_left_eq_some] at hs
    obtain ⟨-, hs⟩ := hs
    cases hs
    refine (h d').same ?_ (received_write c d d' n) rfl
    by_cases hd : d' = d
    · subst hd
      simp [Connection.write, Connection.onFlow]
    · simp [Connection.write, Connection.onFlow, hd]
  | finish d =>
    rw [step, Option.ite_none_left_eq_some] at hs
    obtain ⟨-, hs⟩ := hs
    cases hs
    by_cases hd : d' = d
    · subst hd
      refine (h d').same ?_ ?_ rfl <;> simp [Connection.onFlow, received]
    · refine (h d').same ?_ ?_ rfl <;> simp [Connection.onFlow, hd]
  | inject d text key =>
    rw [step, Option.ite_none_left_eq_some] at hs
    obtain ⟨-, hs⟩ := hs
    cases hs
    obtain ⟨hp, hr⟩ := inject_flow c d d' text key
    refine (h d').same hp hr ?_
    rcases inject_pending c d text key with hpending | hpending <;>
      simp [recorded, hpending]
  | destroy =>
    cases hs
    exact h d'
  | closed =>
    rw [step, Option.ite_none_right_eq_some] at hs
    obtain ⟨-, hs⟩ := hs
    cases hs
    exact h d'

theorem entry_step {event : Event} (hs : step c event = some c') :
    c'.entry.status = c.entry.status := by
  cases event <;> grind [step, Connection.read, Connection.write, Connection.onFlow,
    Connection.inject, Connection.writer]

theorem parsed_run (h : (machine request visitor app).Reachable c) :
    (∀ d, Parsed c d) ∧ c.entry.status = 101 :=
  h.invariant (I := fun c => (∀ d, Parsed c d) ∧ c.entry.status = 101)
    (fun _ hi => hi ▸ ⟨parsed_start request visitor app, rfl⟩)
    fun _ _ _ hp _ hs => ⟨parsed_step hp.1 hs, (entry_step hs).trans hp.2⟩

/-! ## The log -/

/-- The frames that were exchanged, if none is too long, are those that the parser reads. -/
theorem messages_of_exchanged {skipHead : Bool} {bytes : Bytes} {frames : List Frame}
    (h : Exchanged skipHead bytes frames) (hsmall : ∀ frame ∈ frames, frame.Small) :
    ((FrameParser.new skipHead).push bytes).2 = (assemble none frames).1 := by
  have hdecodes := decodes_push skipHead bytes
  generalize (FrameParser.new skipHead).push bytes = result at hdecodes
  cases hdecodes with
  | head hskip hnone =>
    rcases h with ⟨-, rfl⟩ | ⟨rest, hbody, -⟩
    · rfl
    · exact absurd hbody (hnone _)
  | frames hbody hreads =>
    rcases h with ⟨hnone, -⟩ | ⟨rest, hbody', hlast⟩
    · exact absurd hbody (hnone _)
    · obtain rfl := BodyOf.unique _ hbody hbody'
      obtain ⟨rfl, -⟩ := reads_unique hreads ⟨rfl, hsmall, fun frame _ => hlast frame⟩
      rfl

/-- Where the app's 101 has reached the visitor and no frame is compressed or too long, the
log says what happened. -/
theorem truthful_of_plain (extension : Fin 8 → Bytes → Bytes)
    (uncompressed : ∀ payload, extension 0 payload = payload)
    (h : (machine request visitor app).Reachable c) (hplain : Plain c) :
    Truthful extension c := by
  obtain ⟨hparsed, hentry⟩ := parsed_run h
  refine ⟨by rw [hplain.answered, hentry], fun _ _ => hplain.answered, fun d => ?_⟩
  obtain ⟨frames, hexchanged, hframes⟩ := hplain.frames d
  refine ⟨frames, hexchanged, ?_⟩
  have hm : meaning extension none frames = (assemble none frames).1 :=
    meaning_eq uncompressed (fun frame hf => (hframes frame hf).1) none
  rw [(Prod.mk.inj (hparsed d)).2, hm,
    messages_of_exchanged hexchanged fun frame hf => (hframes frame hf).2]

/-! ## Runs -/

theorem not_wire_prefix_nil (frame : Frame) : ¬ frame.wire <+: [] := by
  intro h
  have hl := two_le_length_wire frame
  have hn := h.length_le
  simp only [List.length_nil] at hn
  omega

def hello : Frame := textFrame greeting none (by decide)

/-- A 101, and a message of the app. -/
theorem truthful_of_plain_hello : ∃ c : Connection, recorded c .outgoing ≠ [] ∧
    Truthful (fun _ payload => payload) c := by
  have h₁ : (machine chat [] (switching ++ hello.wire)).Reachable _ :=
    .step (.init rfl) (e := .read .outgoing 23) rfl
  have h₂ : (machine chat [] (switching ++ hello.wire)).Reachable _ :=
    .step h₁ (e := .write .outgoing 23) rfl
  refine ⟨_, ?_, truthful_of_plain _ (fun _ => rfl) h₂ ⟨?_, fun d => ?_⟩⟩
  · decide
  · decide
  · cases d with
    | incoming => exact ⟨[], .inr ⟨[], rfl, not_wire_prefix_nil⟩, nofun⟩
    | outgoing =>
      have hi : indexOf BLANK_LINE (switching ++ hello.wire) = some 15 := by decide
      have hs := splitsHead_of_indexOf hi
      refine ⟨[hello], .inr ⟨[], ⟨_, hs⟩, not_wire_prefix_nil⟩, fun frame hf => ?_⟩
      rw [List.mem_singleton.mp hf]
      exact ⟨rfl, by simp [Frame.Small, hello, textFrame, greeting, MAX_FRAME]⟩

/-- `HTTP/1.1 404 No`, with nothing behind it -/
def refusal : Bytes := [72, 84, 84, 80, 47, 49, 46, 49, 32, 52, 48, 52, 32, 78, 111, 13, 10, 13, 10]

/-- An upgrade that the app refuses is logged as a connection with status 101. -/
theorem not_always_truthful : ¬ ∀ (extension : Fin 8 → Bytes → Bytes) (request : Request)
    (visitor app : Bytes) (c : Connection), (∀ payload, extension 0 payload = payload) →
    (machine request visitor app).Reachable c → c.isOpen = false → Truthful extension c := by
  intro h
  have h₁ : (machine chat [] refusal).Reachable _ :=
    .step (.init rfl) (e := .read .outgoing 19) rfl
  have h₂ : (machine chat [] refusal).Reachable _ := .step h₁ (e := .write .outgoing 19) rfl
  have h₃ : (machine chat [] refusal).Reachable _ := .step h₂ (e := .destroy) rfl
  have h₄ : (machine chat [] refusal).Reachable _ := .step h₃ (e := .closed) rfl
  have hstatus := (h (fun _ payload => payload) chat [] refusal _ (fun _ => rfl) h₄ rfl).status
  revert hstatus
  decide

end Tunlit.WebSocket.Log
