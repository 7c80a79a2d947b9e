import Tunlit.WebSocket.Encoding
import Tunlit.WebSocket.Upgrade

/-! # Injected messages

An injected frame is written between two pieces of what the sender sends, wherever the
pieces were cut. It is a message between two messages of the sender exactly where the
bytes that were written so far end the head or a message. -/
namespace Tunlit.WebSocket.Injection
open Function Tunlit.Lib.Runs Tunlit.WebSocket.Frames Tunlit.WebSocket.Parser
  Tunlit.WebSocket.Decoding Tunlit.WebSocket.Encoding Tunlit.WebSocket.Upgrade

/-! ## Frames in a row -/

def wires (frames : List Frame) : Bytes := (frames.map Frame.wire).flatten

@[simp] theorem wires_nil : wires [] = [] := rfl

@[simp] theorem wires_cons (frame : Frame) (frames : List Frame) :
    wires (frame :: frames) = frame.wire ++ wires frames := rfl

@[simp] theorem wires_append (frames more : List Frame) :
    wires (frames ++ more) = wires frames ++ wires more := by
  simp [wires]

/-- Whole frames at the beginning of a sequence of frames are its first ones. -/
theorem wires_prefix {first frames : List Frame} {more : Bytes}
    (h : wires first ++ more = wires frames) :
    ∃ rest, frames = first ++ rest ∧ more = wires rest := by
  induction first generalizing frames with
  | nil => exact ⟨frames, rfl, h⟩
  | cons f first ih =>
    cases frames with
    | nil =>
      have hl := two_le_length_wire f
      have he := congrArg List.length h
      simp only [wires_cons, wires_nil, List.length_append, List.length_nil] at he
      omega
    | cons g frames =>
      rw [wires_cons, wires_cons, List.append_assoc] at h
      obtain ⟨rfl, ht⟩ := wire_inj h
      obtain ⟨rest, rfl, rfl⟩ := ih ht
      exact ⟨rest, rfl, rfl⟩

theorem assemble_append (opened : Option Message) (frames more : List Frame) :
    assemble opened (frames ++ more) =
      ((assemble opened frames).1 ++ (assemble (assemble opened frames).2 more).1,
      (assemble (assemble opened frames).2 more).2) := by
  induction frames generalizing opened with
  | nil => rfl
  | cons frame frames ih =>
    simp only [List.cons_append, assemble]
    split
    · simp only [ih, List.cons_append]
    · split
      · cases opened with
        | none => exact ih none
        | some started =>
          simp only
          split <;> simp only [ih, List.cons_append]
      · split <;> simp only [ih, List.cons_append]

/-- No message is left open. -/
def Closed (frames : List Frame) : Prop := (assemble none frames).2 = none

theorem Closed.append {frames more : List Frame} (h : Closed frames) :
    Closed (frames ++ more) ↔ Closed more := by
  rw [Closed, assemble_append, h, Closed]

/-! ## The frame that is injected -/

/-- A text message of one frame. -/
def textFrame (payload : Bytes) (key : Option Key) (h : payload.length < 2 ^ 32) : Frame where
  fin := true
  opcode := 1
  key := key
  form := if payload.length < 126 then .short else if payload.length < 65536 then .medium else .long
  payload := payload
  fits := by
    split
    · assumption
    · split
      · assumption
      · exact Nat.lt_trans h (by decide)

theorem encodeFrame_eq (payload : Bytes) (key : Option Key) (h : payload.length < 2 ^ 32) :
    encodeFrame 1 payload key = (textFrame payload key h).wire :=
  encodeFrame_wire 1 payload key h

/-! ## What is to be delivered -/

/-- What either side sends: frames, and the app a head before them. -/
structure Exchange (request : Request) (visitor app : Bytes) where
  visitorFrames : List Frame
  head : Bytes
  appFrames : List Frame
  visitor_sends : request.head ++ visitor = wires visitorFrames
  app_answers : SplitsHead app head (wires appFrames)

variable {request : Request} {visitor app : Bytes}

namespace Exchange
variable (e : Exchange request visitor app)

def frames : Direction → List Frame
  | .incoming => e.visitorFrames
  | .outgoing => e.appFrames

/-- What is written before anything of the sender's. -/
def raw (_ : Exchange request visitor app) : Direction → Bytes
  | .incoming => request.raw
  | .outgoing => []

/-- What the sender sends before its frames. -/
def own : Direction → Bytes
  | .incoming => []
  | .outgoing => e.head ++ BLANK_LINE

/-- The head that the receiver gets: of the request to the app, of the answer to the visitor. -/
def headOf (d : Direction) : Bytes := e.raw d ++ e.own d

end Exchange

/-- A part of what is delivered: frames of the sender, or a frame that was injected. -/
inductive Item where
  | sent (frames : List Frame)
  | injected (frame : Frame)

namespace Item

def frames : Item → List Frame
  | .sent frames => frames
  | .injected frame => [frame]

def sentFrames : Item → List Frame
  | .sent frames => frames
  | .injected _ => []

def payload : Item → Option Bytes
  | .sent _ => none
  | .injected frame => some frame.payload

/-- Frames of the sender that leave no message open, or a text message of one frame. -/
def Whole : Item → Prop
  | .sent frames => Closed frames
  | .injected frame => frame.fin = true ∧ frame.opcode = 1

end Item

namespace Item

def messages : Item → List Message
  | .sent frames => (assemble none frames).1
  | .injected frame => [⟨1, frame.payload⟩]

end Item

/-- The receiver finds the messages of the sender, and each injected one in its place. -/
theorem assemble_items {items : List Item} (h : ∀ item ∈ items, item.Whole) :
    assemble none (items.flatMap Item.frames) = (items.flatMap Item.messages, none) := by
  induction items with
  | nil => rfl
  | cons item items ih =>
    rw [List.forall_mem_cons] at h
    have hitem : assemble none item.frames = (item.messages, none) := by
      cases item with
      | sent frames => exact Prod.ext rfl h.1
      | injected frame =>
        obtain ⟨hfin, hop⟩ := h.1
        simp [Item.frames, Item.messages, assemble, Frame.isControl, Frame.isContinuation, hfin, hop]
    rw [List.flatMap_cons, assemble_append, hitem, ih h.2, List.flatMap_cons]

/-- Behind the head come the sender's frames, each whole and in order, with the injected
messages between whole messages of the sender; the last part may be on its way. -/
structure Mixed (head : Bytes) (frames : List Frame) (flow : Flow) (items : List Item)
    (rest : List Frame) (tail : Bytes) : Prop where
  delivered : flow.delivered = head ++ wires (items.flatMap Item.frames) ++ tail
  sent : frames = items.flatMap Item.sentFrames ++ rest
  coming : tail ++ (flow.held ++ flow.unread) = wires rest
  injected : items.filterMap Item.payload = flow.injected
  whole : ∀ item ∈ items, item.Whole

/-- What the receiver of a direction gets. -/
def Delivers (head : Bytes) (frames : List Frame) (flow : Flow) : Prop :=
  flow.injected = [] ∧ flow.delivered ++ (flow.held ++ flow.unread) = head ++ wires frames ∨
    ∃ items rest tail, Mixed head frames flow items rest tail

/-- The sender's bytes that were written end the head, or a message. -/
def AtBoundary (skipHead : Bool) (forwarded : Bytes) : Prop :=
  ∃ frames, BodyOf skipHead forwarded (wires frames) ∧ Closed frames

/-- A message is injected into a direction that is up, and at a boundary. -/
def Apart (c : Connection) : Event → Prop
  | .inject d _ _ => c.isOpen = true → c.destroyed = false ∧ (c.flow d).ended = false ∧
      AtBoundary (d = .outgoing) (c.flow d).forwarded
  | _ => True

/-! ## The invariant -/

/-- How the bytes of a direction are spread, with the sender's part of the head. -/
structure Flows (raw own : Bytes) (frames : List Frame) (flow : Flow) : Prop where
  sent : flow.forwarded ++ (flow.held ++ flow.unread) = own ++ wires frames
  delivers : flow.injected = [] ∧ flow.delivered = raw ++ flow.forwarded ∨
    ∃ items rest tail, Mixed (raw ++ own) frames flow items rest tail ∧
      flow.forwarded = own ++ wires (items.flatMap Item.sentFrames) ++ tail

theorem Flows.result {raw own : Bytes} {frames : List Frame} {flow : Flow}
    (h : Flows raw own frames flow) : Delivers (raw ++ own) frames flow := by
  rcases h.delivers with ⟨hi, hd⟩ | ⟨items, rest, tail, hm, -⟩
  · refine .inl ⟨hi, ?_⟩
    rw [hd, List.append_assoc, h.sent, List.append_assoc]
  · exact .inr ⟨items, rest, tail, hm⟩

/-- Where a head was split off, it still is when more comes in. -/
theorem SplitsHead.append {stream head body : Bytes} (h : SplitsHead stream head body)
    (more : Bytes) : SplitsHead (stream ++ more) head (body ++ more) := by
  obtain ⟨i, hi, hle⟩ := indexOf_le BLANK_LINE head body
  rw [← h.whole] at hi
  refine ⟨by rw [h.whole, List.append_assoc], fun head' body' he => ?_⟩
  obtain ⟨j, hj, hj'⟩ := indexOf_le BLANK_LINE head' body'
  rw [← he, indexOf_append hi more] at hj
  cases hj
  have hs := splitsHead_of_indexOf hi
  have hl := h.first _ _ hs.whole
  rw [List.length_take] at hl
  omega

theorem closed_sent {items : List Item} (h : ∀ item ∈ items, item.Whole) :
    Closed (items.flatMap Item.sentFrames) := by
  induction items with
  | nil => rfl
  | cons item items ih =>
    rw [List.forall_mem_cons] at h
    rw [List.flatMap_cons]
    refine (Closed.append ?_).mpr (ih h.2)
    cases item with
    | sent frames => exact h.1
    | injected frame => rfl

/-- At a boundary, what was written is the head and the first frames of the sender. -/
theorem boundary_frames (e : Exchange request visitor app) {d : Direction}
    {forwarded more : Bytes} (hs : forwarded ++ more = e.own d ++ wires (e.frames d))
    (hb : AtBoundary (d = .outgoing) forwarded) :
    ∃ first rest, e.frames d = first ++ rest ∧ forwarded = e.own d ++ wires first ∧
      more = wires rest ∧ Closed first := by
  obtain ⟨first, hbody, hclosed⟩ := hb
  cases d with
  | incoming =>
    have hf : wires first = forwarded := hbody
    rw [← hf] at hs
    obtain ⟨rest, hr, hmore⟩ := wires_prefix (hs.trans (List.nil_append _))
    exact ⟨first, rest, hr, hf.symm, hmore, hclosed⟩
  | outgoing =>
    obtain ⟨head, hsplit⟩ : ∃ head, SplitsHead forwarded head (wires first) := hbody
    have happ : app = e.own .outgoing ++ wires e.appFrames := e.app_answers.whole
    have hall : forwarded ++ more = app := hs.trans happ.symm
    have hlong := SplitsHead.append hsplit more
    rw [hall] at hlong
    have hw : wires first ++ more = wires e.appFrames :=
      BodyOf.unique true ⟨_, hlong⟩ ⟨_, e.app_answers⟩
    obtain ⟨rest, hr, hmore⟩ := wires_prefix hw
    refine ⟨first, rest, hr, ?_, hmore, hclosed⟩
    change forwarded ++ more = e.own .outgoing ++ wires e.appFrames at hs
    rw [← hw, ← List.append_assoc] at hs
    exact List.append_cancel_right hs

/-! ## Steps -/

section Flows
variable {raw own : Bytes} {frames : List Frame} {flow flow' : Flow}

/-- The flow is the same but for where the bytes wait that are not written yet. -/
theorem Flows.shift (h : Flows raw own frames flow) (hd : flow'.delivered = flow.delivered)
    (hf : flow'.forwarded = flow.forwarded) (hi : flow'.injected = flow.injected)
    (hq : flow'.held ++ flow'.unread = flow.held ++ flow.unread) : Flows raw own frames flow' := by
  refine ⟨by rw [hf, hq, h.sent], ?_⟩
  rw [hi, hd, hf]
  rcases h.delivers with hplain | ⟨items, rest, tail, hm, hforwarded⟩
  · exact .inl hplain
  · exact .inr ⟨items, rest, tail,
      ⟨hd.trans hm.delivered, hm.sent, hq ▸ hm.coming, hi ▸ hm.injected, hm.whole⟩, hforwarded⟩

theorem Flows.write (h : Flows raw own frames flow) (n : Nat) :
    Flows raw own frames { flow with
      held := flow.held.drop n
      delivered := flow.delivered ++ flow.held.take n
      forwarded := flow.forwarded ++ flow.held.take n } := by
  have hq : flow.held.take n ++ (flow.held.drop n ++ flow.unread) = flow.held ++ flow.unread := by
    rw [← List.append_assoc, List.take_append_drop]
  refine ⟨by rw [List.append_assoc, hq, h.sent], ?_⟩
  rcases h.delivers with ⟨hi, hd⟩ | ⟨items, rest, tail, hm, hf⟩
  · exact .inl ⟨hi, by rw [hd, List.append_assoc]⟩
  · refine .inr ⟨items, rest, tail ++ flow.held.take n, ⟨?_, hm.sent, ?_, hm.injected, hm.whole⟩, ?_⟩
    · rw [hm.delivered, List.append_assoc]
    · rw [List.append_assoc, hq, hm.coming]
    · rw [hf, List.append_assoc]

end Flows

/-- A frame that is written at a boundary comes between two messages of the sender. -/
theorem Flows.inject (e : Exchange request visitor app) {d : Direction} {raw : Bytes}
    {flow : Flow} (h : Flows raw (e.own d) (e.frames d) flow)
    (hb : AtBoundary (d = .outgoing) flow.forwarded) (frame : Frame) (hfin : frame.fin = true)
    (hop : frame.opcode = 1) :
    Flows raw (e.own d) (e.frames d) { flow with
      delivered := flow.delivered ++ frame.wire
      injected := flow.injected ++ [frame.payload] } := by
  obtain ⟨first, rest, hframes, hforwarded, hmore, hclosed⟩ := boundary_frames e h.sent hb
  refine ⟨h.sent, .inr ?_⟩
  rcases h.delivers with ⟨hi, hd⟩ | ⟨items, rest', tail, hm, hf⟩
  · refine ⟨[.sent first, .injected frame], rest, [], ⟨?_, ?_, hmore, ?_, ?_⟩, ?_⟩
    · simp [hd, hforwarded, Item.frames]
    · simpa [Item.sentFrames] using hframes
    · rw [hi]
      rfl
    · simp [Item.Whole, hclosed, hfin, hop]
    · simp [hforwarded, Item.sentFrames]
  · have hw : wires (items.flatMap Item.sentFrames) ++ tail = wires first := by
      rw [hf, List.append_assoc] at hforwarded
      exact List.append_cancel_left hforwarded
    obtain ⟨mid, hfirst, htail⟩ := wires_prefix hw
    have hmid : Closed mid := (Closed.append (closed_sent hm.whole)).mp (hfirst ▸ hclosed)
    refine ⟨items ++ [.sent mid, .injected frame], rest, [], ⟨?_, ?_, hmore, ?_, ?_⟩, ?_⟩
    · simp [hm.delivered, htail, Item.frames]
    · simp [hframes, hfirst, Item.sentFrames]
    · rw [List.filterMap_append, hm.injected]
      rfl
    · intro item hitem
      simp only [List.mem_append, List.mem_cons, List.not_mem_nil, or_false] at hitem
      rcases hitem with hitem | rfl | rfl
      · exact hm.whole item hitem
      · exact hmid
      · exact ⟨hfin, hop⟩
    · simp [hforwarded, hfirst, Item.sentFrames]

/-- Both directions. -/
def Keeps (e : Exchange request visitor app) (c : Connection) : Prop :=
  ∀ d, Flows (e.raw d) (e.own d) (e.frames d) (c.flow d)

variable {c c' : Connection} {e : Exchange request visitor app}

theorem Keeps.update (h : Keeps e c) {d : Direction} {flow : Flow}
    (hf : Flows (e.raw d) (e.own d) (e.frames d) flow) (hc : c'.flow = update c.flow d flow) :
    Keeps e c' := by
  intro d'
  rw [hc]
  by_cases hd : d' = d
  · subst hd
    simpa using hf
  · simpa [hd] using h d'

theorem keeps_start (e : Exchange request visitor app) :
    Keeps e (proxyUpgrade request visitor app) := by
  intro d
  cases d with
  | incoming =>
    refine ⟨?_, .inl ⟨rfl, rfl⟩⟩
    show request.head ++ ([] ++ visitor) = [] ++ wires e.visitorFrames
    rw [List.nil_append, List.nil_append, e.visitor_sends]
  | outgoing =>
    refine ⟨?_, .inl ⟨rfl, rfl⟩⟩
    show [] ++ ([] ++ app) = e.head ++ BLANK_LINE ++ wires e.appFrames
    rw [List.nil_append, List.nil_append]
    exact e.app_answers.whole

theorem keeps_step {event : Event} (h : Keeps e c) (ha : Apart c event)
    (hs : step c event = some c') : Keeps e c' := by
  cases event with
  | read d n =>
    rw [step, Option.ite_none_left_eq_some] at hs
    obtain ⟨-, hs⟩ := hs
    cases hs
    refine h.update ?_ rfl
    exact (h d).shift rfl rfl rfl (by simp)
  | write d n =>
    rw [step, Option.ite_none_left_eq_some] at hs
    obtain ⟨-, hs⟩ := hs
    cases hs
    exact h.update ((h d).write n) rfl
  | finish d =>
    rw [step, Option.ite_none_left_eq_some] at hs
    obtain ⟨-, hs⟩ := hs
    cases hs
    refine h.update ?_ rfl
    exact (h d).shift rfl rfl rfl rfl
  | inject d text key =>
    rw [step, Option.ite_none_left_eq_some] at hs
    obtain ⟨htext, hs⟩ := hs
    cases hs
    simp only [Bool.or_eq_true, decide_eq_true_eq, not_or, Nat.not_lt] at htext
    have hlen : text.length < 2 ^ 32 := Nat.lt_of_le_of_lt htext.2 (by decide)
    unfold Connection.inject
    split
    · next ho =>
      obtain ⟨hdestroyed, hended, hb⟩ := ha ho
      have hflows := (h d).inject e hb
        (textFrame text (if d = .incoming then some key else none) hlen) rfl rfl
      rw [← encodeFrame_eq] at hflows
      refine h.update hflows ?_
      simp [Connection.writer, Connection.onFlow, hdestroyed, hended, textFrame]
    · exact h
  | destroy =>
    cases hs
    exact h
  | closed =>
    rw [step, Option.ite_none_right_eq_some] at hs
    obtain ⟨-, hs⟩ := hs
    cases hs
    exact h

theorem keeps_run (e : Exchange request visitor app)
    (h : (machine request visitor app).Reaches Apart c) : Keeps e c :=
  h.invariant (fun _ hi => hi ▸ keeps_start e) fun _ _ _ hk ha hs => keeps_step hk ha hs

/-- Where every message is injected at a boundary, both receivers get the head, the frames of
the sender and the injected messages, none inside another. -/
theorem delivers_of_apart (e : Exchange request visitor app)
    (h : (machine request visitor app).Reaches Apart c) (d : Direction) :
    Delivers (e.headOf d) (e.frames d) (c.flow d) :=
  (keeps_run e h d).result

/-! ## Runs -/

def chat : Request where
  method := "GET"
  path := "/chat"
  headers := [("connection", "Upgrade"), ("upgrade", "websocket")]
  head := []
  ip := "203.0.113.9"
  host := "shop.example"
  connection := "c1"

/-- `HTTP/1.1 101 OK`, with nothing behind it -/
def switching : Bytes := [72, 84, 84, 80, 47, 49, 46, 49, 32, 49, 48, 49, 32, 79, 75, 13, 10, 13, 10]

def quiet : Exchange chat [] switching where
  visitorFrames := []
  head := switching.take 15
  appFrames := []
  visitor_sends := rfl
  app_answers := splitsHead_of_indexOf (i := 15) (by decide)

def zeroKey : Key := ⟨[0, 0, 0, 0], rfl⟩

/-- `hi` -/
def greeting : Bytes := [104, 105]

theorem delivers_of_apart_greeting : ∃ c : Connection, (c.flow .outgoing).injected = [greeting] ∧
    Delivers (quiet.headOf .outgoing) (quiet.frames .outgoing) (c.flow .outgoing) := by
  have h₁ : (machine chat [] switching).Reaches Apart _ :=
    .step (.init rfl) (e := .read .outgoing 19) trivial rfl
  have h₂ : (machine chat [] switching).Reaches Apart _ :=
    .step h₁ (e := .write .outgoing 19) trivial rfl
  have hb : AtBoundary true switching :=
    ⟨[], ⟨_, splitsHead_of_indexOf (i := 15) (by decide)⟩, rfl⟩
  have h₃ : (machine chat [] switching).Reaches Apart _ :=
    .step h₂ (e := .inject .outgoing greeting zeroKey) (fun _ => ⟨rfl, rfl, hb⟩) rfl
  exact ⟨_, rfl, delivers_of_apart quiet h₃ .outgoing⟩

/-- A message that is injected before the app has answered comes before the head of the answer. -/
theorem not_always_delivers : ¬ ∀ (request : Request) (visitor app : Bytes)
    (e : Exchange request visitor app) (c : Connection),
    (machine request visitor app).Reachable c →
      ∀ d, Delivers (e.headOf d) (e.frames d) (c.flow d) := by
  intro h
  have hr : (machine chat [] switching).Reachable _ :=
    .step (.init rfl) (e := .inject .outgoing greeting zeroKey) rfl
  rcases h chat [] switching quiet _ hr .outgoing with ⟨hi, -⟩ | ⟨items, rest, tail, hm⟩
  · exact absurd hi (by decide)
  · have hl := congrArg List.length hm.delivered
    rw [List.length_append, List.length_append] at hl
    have hhead : (quiet.headOf .outgoing).length = 19 := rfl
    have hd : (((proxyUpgrade chat [] switching).inject .outgoing greeting
      zeroKey).1.flow .outgoing).delivered.length = 4 := by decide
    omega

end Tunlit.WebSocket.Injection
