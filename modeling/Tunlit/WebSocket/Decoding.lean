import Tunlit.WebSocket.Parser

/-! # What the parser decodes

The messages of a stream are those of its frames: `Decodes` says so of the bytes alone, and
gives one answer. -/
namespace Tunlit.WebSocket.Decoding
open Tunlit.Lib.Drains Tunlit.WebSocket.Frames Tunlit.WebSocket.Parser

/-! ## Past the head -/

/-- The message that some fragments are the beginning of. -/
def Fragments.joined (fragments : Fragments) : Message := ⟨fragments.opcode, fragments.parts.flatten⟩

/-- What the parser does with one frame is what the reference does. -/
theorem accept_eq (fragments : Option Fragments) (frame : Frame) (frames : List Frame) :
    assemble (fragments.map Fragments.joined) (frame :: frames) =
      ((FrameParser.accept fragments frame.fin frame.opcode.val frame.payload).2 ++
        (assemble ((FrameParser.accept fragments frame.fin frame.opcode.val frame.payload).1.map
          Fragments.joined) frames).1,
      (assemble ((FrameParser.accept fragments frame.fin frame.opcode.val frame.payload).1.map
        Fragments.joined) frames).2) := by
  simp only [assemble, Frame.isControl, Frame.isContinuation, FrameParser.accept, decide_eq_true_eq]
  split
  · rfl
  · split
    · cases fragments with
      | none => rfl
      | some started =>
        cases frame.fin <;>
          simp [Fragments.joined, List.flatten_append]
    · split
      · rfl
      · simp [Fragments.joined]

/-- Past the head, the parser reads the frames up to where no whole one is left, or the
first one that announces too much. -/
theorem reads_of_drain (mode : Mode) (hd : mode.dead = false) (ha : mode.awaitingHead = false)
    (buffer : Bytes) : ∃ frames rest, Reads buffer frames rest ∧
      (reader.drain mode buffer).1 = (assemble (mode.fragments.map Fragments.joined) frames).1 ∧
      (reader.drain mode buffer).2.1.fragments.map Fragments.joined =
        (assemble (mode.fragments.map Fragments.joined) frames).2 ∧
      (reader.drain mode buffer).2.1.awaitingHead = false ∧
      ((reader.drain mode buffer).2.1.dead = true ↔ Oversized rest) ∧
      (reader.drain mode buffer).2.2 =
        if (reader.drain mode buffer).2.1.dead then [] else rest := by
  induction mode, buffer using reader.drain_induction with
  | rests mode buffer hn =>
    rw [Reader.drain_of_none hn]
    rcases readMode_cases hd ha buffer with ⟨frame, more, hf, hm⟩ | ho | ⟨-, hr⟩
    · exact absurd (readMode_of_wire hd ha hf hm) (by rw [show readMode mode buffer = none from hn]; nofun)
    · exact absurd (readMode_of_oversized hd ha ho)
        (by rw [show readMode mode buffer = none from hn]; nofun)
    · refine ⟨[], buffer, ⟨rfl, nofun, no_wire_of_returns hr⟩, rfl, rfl, ha, ?_, ?_⟩
      · exact iff_of_false (by simp [hd]) (not_oversized_of_returns hr hd)
      · simp [hd]
  | reads mode buffer messages mode' rest hs ih =>
    rw [Reader.drain_of_some hs]
    replace hs : readMode mode buffer = some (messages, mode', rest) := hs
    rcases readMode_cases hd ha buffer with ⟨frame, more, hf, hm⟩ | ho | ⟨hn, -⟩
    · rw [readMode_of_wire hd ha hf hm] at hs
      cases hs
      obtain ⟨frames, last, ⟨hw, hsmall, hlast⟩, hmessages, hopen, hrest⟩ := ih hd ha
      have ha' := accept_eq mode.fragments frame frames
      refine ⟨frame :: frames, last, ⟨?_, List.forall_mem_cons.mpr ⟨hf, hsmall⟩, hlast⟩, ?_, ?_, hrest⟩
      · rw [hm, hw, List.map_cons, List.flatten_cons, List.append_assoc]
      · rw [ha']
        exact congrArg _ hmessages
      · rw [ha']
        exact hopen
    · rw [readMode_of_oversized hd ha ho] at hs
      cases hs
      rw [drain_dead rfl]
      exact ⟨[], buffer, ⟨rfl, nofun, no_wire_of_oversized ho⟩, rfl, rfl, ha, iff_of_true rfl ho, rfl⟩
    · rw [hn] at hs
      cases hs

/-- The first blank line ends the head. -/
structure SplitsHead (stream head body : Bytes) : Prop where
  whole : stream = head ++ BLANK_LINE ++ body
  first : ∀ head' body', stream = head' ++ BLANK_LINE ++ body' → head.length ≤ head'.length

/-- The bytes that frames are read from. -/
def BodyOf (skipHead : Bool) (stream body : Bytes) : Prop :=
  if skipHead then ∃ head, SplitsHead stream head body else body = stream

/-- What a decoder of the wire format gives for a stream: nothing as long as the head is
not over, and then the messages of the frames that follow it. -/
inductive Decodes (skipHead : Bool) (stream : Bytes) : FrameParser × List Message → Prop
  | head : skipHead = true → (∀ body, ¬ BodyOf skipHead stream body) →
      Decodes skipHead stream (⟨stream, none, false, true⟩, [])
  | frames {body rest : Bytes} {frames : List Frame} {p : FrameParser} :
      BodyOf skipHead stream body → Reads body frames rest →
      p.fragments.map Fragments.joined = (assemble none frames).2 →
      p.awaitingHead = false → (p.dead = true ↔ Oversized rest) →
      p.buffer = (if p.dead then [] else rest) →
      Decodes skipHead stream (p, (assemble none frames).1)

theorem indexOf_le (pattern before after : Bytes) :
    ∃ i, indexOf pattern (before ++ pattern ++ after) = some i ∧ i ≤ before.length := by
  induction before with
  | nil =>
    refine ⟨0, ?_, Nat.le_refl 0⟩
    have hp : pattern <+: [] ++ pattern ++ after := List.prefix_append ..
    generalize [] ++ pattern ++ after = buffer at hp
    cases buffer with
    | nil => rw [indexOf, if_pos (List.prefix_nil.mp hp)]
    | cons b buffer => rw [indexOf, if_pos hp]
  | cons b before ih =>
    obtain ⟨i, hi, hle⟩ := ih
    rw [List.cons_append, List.cons_append, indexOf]
    by_cases hp : pattern <+: b :: (before ++ pattern ++ after)
    · exact ⟨0, if_pos hp, Nat.zero_le _⟩
    · exact ⟨i + 1, by rw [if_neg hp, hi, Option.map_some], Nat.succ_le_succ hle⟩

theorem splitsHead_of_indexOf {stream : Bytes} {i : Nat} (h : indexOf BLANK_LINE stream = some i) :
    SplitsHead stream (stream.take i) (stream.drop (i + 4)) := by
  obtain ⟨body, hb⟩ := prefix_of_indexOf h
  have hlen := (prefix_of_indexOf h).length_le
  rw [List.length_drop] at hlen
  constructor
  · have hbody : stream.drop (i + 4) = body := by
      rw [← List.drop_drop, ← hb]
      rfl
    rw [hbody, List.append_assoc, hb, List.take_append_drop]
  · intro head' body' he
    obtain ⟨j, hj, hle⟩ := indexOf_le BLANK_LINE head' body'
    rw [← he, h] at hj
    cases hj
    simp only [BLANK_LINE, List.length_cons, List.length_nil] at hlen
    rw [List.length_take_of_le (by omega)]
    exact hle

theorem not_bodyOf {stream : Bytes} (h : indexOf BLANK_LINE stream = none) (body : Bytes) :
    ¬ BodyOf true stream body := by
  rintro ⟨head, rfl, -⟩
  obtain ⟨i, hi, -⟩ := indexOf_le BLANK_LINE head body
  rw [hi] at h
  cases h

theorem decodes_push (skipHead : Bool) (stream : Bytes) :
    Decodes skipHead stream ((FrameParser.new skipHead).push stream) := by
  rw [push_eq fun _ => rfl]
  change Decodes skipHead stream (asParser (reader.drain ⟨none, false, skipHead⟩ stream))
  cases skipHead with
  | false =>
    obtain ⟨frames, rest, hr, hm, ho, ha, hd, hb⟩ :=
      reads_of_drain ⟨none, false, false⟩ rfl rfl stream
    rw [asParser, hm]
    exact .frames rfl hr ho ha hd hb
  | true =>
    have hread : readMode ⟨none, false, true⟩ stream = _ := readMode_head rfl rfl
    cases hi : indexOf BLANK_LINE stream with
    | none =>
      rw [hi, Option.map_none] at hread
      rw [Reader.drain_of_none hread]
      exact .head rfl (not_bodyOf hi)
    | some i =>
      rw [hi, Option.map_some] at hread
      rw [Reader.drain_of_some hread]
      obtain ⟨frames, rest, hr, hm, ho, ha, hd, hb⟩ :=
        reads_of_drain ⟨none, false, false⟩ rfl rfl (stream.drop (i + 4))
      simp only [asParser, hm, List.nil_append]
      exact .frames ⟨_, splitsHead_of_indexOf hi⟩ hr ho ha hd hb

/-! ## The reference is a function -/

theorem body_inj {f g : Frame} (hm : f.head.masked = g.head.masked) (h : f.body = g.body) :
    f.key = g.key ∧ f.payload = g.payload := by
  simp only [Frame.head] at hm
  unfold Frame.body at h
  cases hf : f.key with
  | none =>
    have hg : g.key = none := by simpa [hf] using hm.symm
    simp only [hf, hg] at h
    exact ⟨hg.symm, h⟩
  | some key =>
    obtain ⟨key', hg⟩ : ∃ key', g.key = some key' :=
      Option.isSome_iff_exists.mp (by simpa [hf] using hm.symm)
    simp only [hf, hg] at h
    obtain ⟨hk, hp⟩ := List.append_inj h (key.four.trans key'.four.symm)
    have hkey : key = key' := by
      cases key
      cases key'
      simp only at hk
      subst hk
      rfl
    refine ⟨by rw [hg, hkey], ?_⟩
    rw [← mask_mask key.bytes f.payload, hp, hkey, mask_mask]

/-- No whole frame is the beginning of another one. -/
theorem wire_inj {f g : Frame} {a b : Bytes} (h : f.wire ++ a = g.wire ++ b) : f = g ∧ a = b := by
  have hf : f.head.bytes <+: f.wire ++ a := ⟨f.body ++ a, by rw [Frame.wire, List.append_assoc]⟩
  have hg : g.head.bytes <+: f.wire ++ a :=
    h ▸ ⟨g.body ++ b, by rw [Frame.wire, List.append_assoc]⟩
  have he := Option.some.inj ((header_of_start hf).symm.trans (header_of_start hg))
  have hsize : f.head.form.size = g.head.form.size := congrArg Header.offset he
  have hmasked : f.head.masked = g.head.masked := congrArg Header.masked he
  have hlength : f.head.length = g.head.length := congrArg Header.length he
  obtain ⟨hw, hab⟩ := List.append_inj h (by rw [length_wire, length_wire, hsize, hmasked, hlength])
  obtain ⟨hbytes, hbody⟩ := List.append_inj hw
    (by rw [Head.length_bytes, Head.length_bytes, hsize])
  obtain ⟨hkey, hpayload⟩ := body_inj hmasked hbody
  have hform : f.form = g.form := by
    simp only [Frame.head] at hsize
    revert hsize
    cases f.form <;> cases g.form <;> simp [Form.size]
  have hfin : f.fin = g.fin := congrArg Header.fin he
  have hopcode : f.opcode = g.opcode := Fin.ext (congrArg Header.opcode he)
  have hreserved : f.reserved = g.reserved := by
    have hfirst := congrArg UInt8.toNat (List.head_eq_of_cons_eq hbytes)
    rw [Head.toNat_first, Head.toNat_first] at hfirst
    simp only [Frame.head, hfin, hopcode] at hfirst
    exact Fin.ext (by omega)
  refine ⟨?_, hab⟩
  cases f
  cases g
  simp only at hfin hreserved hopcode hkey hform hpayload
  subst hfin hreserved hopcode hkey hform hpayload
  rfl

theorem reads_unique {stream rest rest' : Bytes} {frames frames' : List Frame}
    (h : Reads stream frames rest) (h' : Reads stream frames' rest') :
    frames = frames' ∧ rest = rest' := by
  obtain ⟨hw, hs, hl⟩ := h
  obtain ⟨hw', hs', hl'⟩ := h'
  induction frames generalizing stream frames' with
  | nil =>
    cases frames' with
    | nil => exact ⟨rfl, by simpa using hw.symm.trans hw'⟩
    | cons f frames' =>
      refine absurd ?_ (hl f (hs' f (List.mem_cons_self ..)))
      rw [List.map_nil, List.flatten_nil, List.nil_append] at hw
      rw [← hw, hw', List.map_cons, List.flatten_cons, List.append_assoc]
      exact List.prefix_append ..
  | cons f frames ih =>
    cases frames' with
    | nil =>
      refine absurd ?_ (hl' f (hs f (List.mem_cons_self ..)))
      rw [List.map_nil, List.flatten_nil, List.nil_append] at hw'
      rw [← hw', hw, List.map_cons, List.flatten_cons, List.append_assoc]
      exact List.prefix_append ..
    | cons g frames' =>
      simp only [List.map_cons, List.flatten_cons, List.append_assoc] at hw hw'
      obtain ⟨rfl, he⟩ := wire_inj (hw.symm.trans hw')
      obtain ⟨rfl, rfl⟩ := ih rfl (List.forall_mem_cons.mp hs).2 he
        (List.forall_mem_cons.mp hs').2
      exact ⟨rfl, rfl⟩

theorem BodyOf.unique (skipHead : Bool) {stream body body' : Bytes}
    (h : BodyOf skipHead stream body) (h' : BodyOf skipHead stream body') : body = body' := by
  cases skipHead with
  | false => exact Eq.trans h (Eq.symm h')
  | true =>
    obtain ⟨head, h⟩ := h
    obtain ⟨head', h'⟩ := h'
    have hl := Nat.le_antisymm (h.first _ _ h'.whole) (h'.first _ _ h.whole)
    have he := h.whole.symm.trans h'.whole
    rw [List.append_assoc, List.append_assoc] at he
    exact List.append_cancel_left (List.append_inj he hl).2

/-- A stream has one decoding: the same messages, and the same parser up to how the parts
of an unfinished message are kept. -/
theorem Decodes.unique {skipHead : Bool} {stream : Bytes} {r r' : FrameParser × List Message}
    (h : Decodes skipHead stream r) (h' : Decodes skipHead stream r') :
    r.2 = r'.2 ∧ r.1.buffer = r'.1.buffer ∧ r.1.dead = r'.1.dead ∧
      r.1.awaitingHead = r'.1.awaitingHead ∧
      r.1.fragments.map Fragments.joined = r'.1.fragments.map Fragments.joined := by
  cases h with
  | head hs hn =>
    cases h' with
    | head => exact ⟨rfl, rfl, rfl, rfl, rfl⟩
    | frames hb => exact absurd hb (hn _)
  | frames hb hr ho ha hd hbuf =>
    cases h' with
    | head hs hn => exact absurd hb (hn _)
    | frames hb' hr' ho' ha' hd' hbuf' =>
      obtain rfl := BodyOf.unique skipHead hb hb'
      obtain ⟨rfl, rfl⟩ := reads_unique hr hr'
      have hdead := Bool.eq_iff_iff.mpr (hd.trans hd'.symm)
      exact ⟨rfl, by rw [hbuf, hbuf', hdead], hdead, ha.trans ha'.symm, ho.trans ho'.symm⟩

/-- Cutting a stream into chunks makes no difference to the messages or to the parser, what
comes out is what a decoder of the wire format gives, and every call of `drain` returns. -/
theorem frameParser_decodes (skipHead : Bool) (chunks : List Bytes) :
    (FrameParser.new skipHead).pushAll chunks = (FrameParser.new skipHead).push chunks.flatten ∧
      Decodes skipHead chunks.flatten ((FrameParser.new skipHead).pushAll chunks) ∧
      ∀ parser : FrameParser, parser.Returns parser.drain :=
  ⟨pushAll_new skipHead chunks, pushAll_new skipHead chunks ▸ decodes_push skipHead chunks.flatten,
    returns_drain⟩

end Tunlit.WebSocket.Decoding
