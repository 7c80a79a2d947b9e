import Tunlit.Client.Departures

/-! # What a shape does to a connection

A shape is there to simulate a bad connection: it takes time. When nothing is left to do, the
visitor and the app have seen the same of each other with a shape as without one, as long as no
read of the socket fails: that looks like the end of the app's bytes then. -/
namespace Tunlit.Client.Shaping
open Tunlit.Lib.Runs Tunlit.Mux.Frames Tunlit.Mux.Cli Tunlit.Mux.FlowControl
open Tunlit.Client.Pumping Tunlit.Client.Resets Tunlit.Client.Arrivals Tunlit.Client.Departures

/-! ## At any time -/

/-- The bytes are the first ones in both directions, and the ends are behind all of them. -/
structure Kept (s : Pump) : Prop where
  sent : payload s.cli.wire <+: s.socket.offered
  taken : s.socket.taken <+: heard s.told
  close : .close ∈ s.cli.wire → Sent s .eof
  shut : s.socket.shut = true → s.socket.broken = true ∨ .reset ∈ s.told ∨
    endOf s.told = some .close ∧ s.socket.taken = heard s.told

theorem end_cases {l : List Incoming} (h : endOf l ≠ none) :
    endOf l = some .close ∨ endOf l = some .reset := by
  induction l with
  | nil => exact absurd rfl h
  | cons item l ih => cases item <;> simp_all

/-- What the reader got before it ended is all that it was told. -/
theorem heard_of_ended {s : Pump} (h : Arrives s) (he : ReaderEnded s.back) :
    s.socket.broken = true ∨ heard s.told = s.cli.received ∧ endOf s.told ≠ none := by
  obtain ⟨consumed, unread, htold, -, hrec, -, hends⟩ := h.heard
  refine (hends he).imp_right fun hne => ⟨?_, ?_⟩
  · rw [htold, heard_append_of_end hne, hrec]
  · rw [htold, endOf_append]
    intro hn
    exact hne (Option.or_eq_none_iff.mp hn).1

theorem received_begins {s : Pump} (h : Arrives s) : s.cli.received <+: heard s.told := by
  obtain ⟨consumed, unread, htold, -, hrec, -⟩ := h.heard
  rw [htold, hrec]
  by_cases hc : endOf consumed = none
  · rw [heard_append hc]
    exact List.prefix_append _ _
  · exact ⟨[], by rw [List.append_nil, heard_append_of_end hc]⟩

theorem kept {s : Pump} (ha : Arrives s) (hl : Leads s) : Kept s := by
  refine ⟨hl.sent, ha.taken.trans (received_begins ha), hl.close, fun hs => ?_⟩
  rcases ha.shut hs with hb | ⟨he, ht⟩
  · exact .inl hb
  · refine (heard_of_ended ha he).imp_right fun ⟨hh, hne⟩ => ?_
    rcases end_cases hne with hc | hr
    · exact .inr ⟨hc, ht.trans hh.symm⟩
    · exact .inl (reset_of_endOf hr)

/-! ## When nothing is left to do -/

/-- No task has anything to do, though the visitor gives credit and the app takes bytes. -/
structure Settled (s : Pump) : Prop where
  stuck : Stuck s
  credit : ¬ Taking s.cli
  room : 0 < s.socket.room
  spawned : s.cli.spawned = []

instance (s : Pump) : Decidable (Settled s) :=
  decidable_of_iff (Stuck s ∧ ¬ Taking s.cli ∧ 0 < s.socket.room ∧ s.cli.spawned = [])
    ⟨fun ⟨a, b, c, d⟩ => ⟨a, b, c, d⟩, fun h => ⟨h.stuck, h.credit, h.room, h.spawned⟩⟩

/-- A socket that is read has nothing to read. -/
theorem read_done {s : Pump} (h : Stuck s) (ho : s.out = .plain .reading ∨
    ∃ queue w, s.out = .shaped .reading queue w) :
    s.socket.input = [] ∧ s.socket.ending = none := by
  have hn : s.socket.read 1 = none := by
    have hr := h (.read 1) rfl
    rcases ho with ho | ⟨queue, w, ho⟩ <;>
      simpa only [step, Pump.read, ho, Option.map_eq_none_iff] using hr
  unfold Socket.read at hn
  split at hn
  · next hi => exact ⟨hi, Option.map_eq_none_iff.mp hn⟩
  · next hi =>
    have hlen : 0 < s.socket.input.length := List.length_pos_iff.mpr hi
    rw [if_pos ⟨by decide, by decide, hlen⟩] at hn
    cases hn

/-- A reader that waits has received everything. -/
theorem received_done {s : Pump} (h : Stuck s) (ho : s.back = .plain .receiving ∨
    ∃ queue w, s.back = .shaped .receiving queue w) : s.cli.rx = [] := by
  by_contra hne
  obtain ⟨item, rest, hx⟩ := List.exists_cons_of_ne_nil hne
  have hr := h .received rfl
  have hd : ∃ d, s.cli.received? = some d := by
    unfold CliStream.received?
    cases item <;> simp [hx]
  obtain ⟨d, hd⟩ := hd
  simp only [step, Pump.received, hd, Option.bind_some, Pump.receive] at hr
  rcases ho with ho | ⟨queue, w, ho⟩
  · have ho : (s.got d).back = .plain .receiving := ho
    simp [ho] at hr
  · have ho : (s.got d).back = .shaped .receiving queue w := ho
    simp [ho] at hr

/-- Nothing is left of what is written. -/
theorem written_done {s : Pump} (h : Stuck s) (hroom : 0 < s.socket.room) {left : Bytes}
    (hl : left ≠ []) : s.back ≠ .plain (.writing left) ∧
      ∀ r queue, s.back ≠ .shaped r queue (.writing left) := by
  have hlen : 0 < left.length := List.length_pos_iff.mpr hl
  have hw : ∃ rest, s.socket.write left 1 = some rest := by
    rw [Socket.write, if_pos ⟨by decide, by omega, by omega⟩]
    exact ⟨_, rfl⟩
  obtain ⟨rest, hw⟩ := hw
  have hr := h (.write 1) rfl
  constructor
  · intro hb
    simp only [step, Pump.write, hb, hw, Option.map_some] at hr
    split at hr <;> cases hr
  · intro r queue hb
    simp only [step, Pump.write, hb, hw, Option.map_some] at hr
    split at hr <;> cases hr

/-- Where the tasks towards the socket are in the end. -/
theorem back_cases {s : Pump} (hf : Fits s) (h : Settled s) :
    s.back = .plain .receiving ∨ s.back = .plain .ended ∨
      s.back = .shaped .receiving [] .waiting ∨ ∃ r queue, s.back = .shaped r queue .ended := by
  cases hb : s.back with
  | plain b =>
    cases b with
    | receiving => exact .inl rfl
    | ended => exact .inr (.inl rfl)
    | writing left =>
      have hne : left ≠ [] := by
        rintro rfl
        exact hf.left hb
      exact absurd hb (written_done h.stuck h.room hne).1
  | shaped r queue w =>
    refine .inr (.inr ?_)
    cases w with
    | ended => exact .inr ⟨r, queue, rfl⟩
    | sleeping chunk =>
      have hr := h.stuck .wakeSocket rfl
      simp [step, Pump.wakeSocket, hb] at hr
    | writing left =>
      have hne : left ≠ [] := fun he => (hf.shut _ _ _ hb).2 (congrArg _ he)
      exact absurd hb ((written_done h.stuck h.room hne).2 r queue)
    | waiting =>
      have hr := h.stuck .nextSocket rfl
      cases queue with
      | cons chunk queue => simp [step, Pump.nextSocket, hb] at hr
      | nil =>
        cases r with
        | receiving => exact .inl rfl
        | ended => simp [step, Pump.nextSocket, hb] at hr
        | passing chunk =>
          have hr := h.stuck .passBackOn rfl
          simp [step, Pump.passBackOn, hb, QUEUE] at hr

/-- All that the reader was told has been written. -/
theorem taken_settled {s : Pump} (hf : Fits s) (ha : Arrives s) (h : Settled s)
    (hb : s.socket.broken = false) : s.socket.taken = heard s.told := by
  have waiting : ¬ ReaderEnded s.back → s.cli.rx = [] → s.cli.received = heard s.told := by
    intro hn hrx
    obtain ⟨consumed, unread, htold, hun, hrec, -⟩ := ha.heard
    have hr : s.returned = false := by
      refine Bool.eq_false_iff.mpr fun hr => hn ?_
      rcases (ha.returned hr).2.1 with hb | hb
      · exact .inl hb
      · exact .inr ⟨_, _, hb⟩
    rw [htold, hun hr, hrx, List.append_nil, hrec]
  have done : ReaderEnded s.back → s.cli.received = heard s.told := fun he =>
    ((heard_of_ended ha he).resolve_left (by rw [hb]; nofun)).1.symm
  have hway := ha.onWay.resolve_left (by rw [hb]; nofun)
  rcases back_cases hf h with hs | hs | hs | ⟨r, queue, hs⟩
  · rw [← waiting (by simp [ReaderEnded, hs]) (received_done h.stuck (.inl hs)), ← hway]
    simp [hs, backlog]
  · rw [← done (.inl hs), ← hway]
    simp [hs, backlog]
  · rw [← waiting (by simp [ReaderEnded, hs]) (received_done h.stuck (.inr ⟨_, _, hs⟩)), ← hway]
    simp [hs, backlog, backlog.writing, backlog.passing]
  · obtain ⟨he, ht⟩ := (ha.shut ((hf.shut _ _ _ hs).1 rfl)).resolve_left (by rw [hb]; nofun)
    exact ht.trans (done he)

/-- The socket is shut down when the visitor has closed the stream, and not before. -/
theorem shut_settled {s : Pump} (hf : Fits s) (ha : Arrives s) (hl : Leads s) (h : Settled s)
    (hb : s.socket.broken = false) (hn : ¬ Lost s) :
    s.socket.shut = true ↔ endOf s.told = some .close := by
  have hreset : .reset ∉ s.told := fun hr => hn (.inl hr)
  constructor
  · intro hs
    rcases (kept ha hl).shut hs with hk | hr | ⟨hc, -⟩
    · rw [hb] at hk
      cases hk
    · exact absurd hr hreset
    · exact hc
  · intro hc
    have waiting : ¬ ReaderEnded s.back → s.cli.rx = [] → False := by
      intro hr hrx
      obtain ⟨consumed, unread, htold, hun, -, hgoes, -⟩ := ha.heard
      have hret : s.returned = false := by
        refine Bool.eq_false_iff.mpr fun hret => hr ?_
        rcases (ha.returned hret).2.1 with hb | hb
        · exact .inl hb
        · exact .inr ⟨_, _, hb⟩
      rw [htold, hun hret, hrx, List.append_nil, hgoes hr] at hc
      cases hc
    rcases back_cases hf h with hs | hs | hs | ⟨r, queue, hs⟩
    · exact (waiting (by simp [ReaderEnded, hs]) (received_done h.stuck (.inl hs))).elim
    · rcases ha.close hs with hs | hk | hr
      · exact hs
      · rw [hb] at hk
        cases hk
      · exact absurd hr hreset
    · exact (waiting (by simp [ReaderEnded, hs]) (received_done h.stuck (.inr ⟨_, _, hs⟩))).elim
    · exact (hf.shut _ _ _ hs).1 rfl

/-- Where the tasks towards the stream are in the end. -/
theorem out_cases {s : Pump} (hl : Leads s) (h : Settled s) :
    place s.out = .between ∧ ahead s.out = [] ∧ s.socket.input = [] ∧ s.socket.ending = none ∨
      place s.out = .ended := by
  have going : place s.out = .sending ∨ place s.out = .closing → False := by
    intro hp
    have hd : ∃ d, s.cli.outSend = some d := by
      refine outSend_some ?_
      have hf := hl.fits
      rcases hp with hp | hp <;> rw [hp] at hf
      · obtain ⟨chunk, rest, hw | hw⟩ := hf
        · exact absurd ⟨chunk, rest, hw⟩ h.credit
        · exact .inr ⟨chunk, rest, hw⟩
      · exact .inl hf
    obtain ⟨d, hd⟩ := hd
    have hr := h.stuck .outSend rfl
    simp only [step, hd, Option.bind_some] at hr
    unfold Pump.advance at hr
    split at hr
    · cases hr
    · cases hr
    · cases hr
    · cases hr
    · next h1 h2 h3 h4 =>
      cases ho : s.out with
      | plain a => cases a <;> simp_all [place]
      | shaped r queue w => cases w <;> simp_all [place]
  cases ho : s.out with
  | plain a =>
    cases a with
    | reading =>
      obtain ⟨hi, he⟩ := read_done h.stuck (.inl ho)
      exact .inl ⟨rfl, rfl, hi, he⟩
    | sending => exact (going (.inl (by rw [ho]; rfl))).elim
    | closing => exact (going (.inr (by rw [ho]; rfl))).elim
    | ended => exact .inr rfl
  | shaped r queue w =>
    cases w with
    | sending => exact (going (.inl (by rw [ho]; rfl))).elim
    | closing => exact (going (.inr (by rw [ho]; rfl))).elim
    | ended => exact .inr rfl
    | sleeping chunk =>
      have hr := h.stuck .wakeMux rfl
      simp [step, Pump.wakeMux, ho] at hr
    | waiting =>
      have hr := h.stuck .nextMux rfl
      cases queue with
      | cons chunk queue => simp [step, Pump.nextMux, ho] at hr
      | nil =>
        cases r with
        | reading =>
          obtain ⟨hi, he⟩ := read_done h.stuck (.inr ⟨_, _, ho⟩)
          exact .inl ⟨rfl, rfl, hi, he⟩
        | ended => simp [step, Pump.nextMux, ho] at hr
        | passing chunk =>
          have hr := h.stuck .passOn rfl
          simp [step, Pump.passOn, ho, QUEUE] at hr

/-! ## With and without a shape -/

/-- What the visitor and the app have seen of each other. -/
structure Seen where
  sent : Bytes
  closed : Bool
  reset : Bool
  taken : Bytes
  shut : Bool
deriving DecidableEq

def seen (s : Pump) : Seen where
  sent := payload s.cli.wire
  closed := decide (.close ∈ s.cli.wire)
  reset := decide (.reset ∈ s.cli.wire)
  taken := s.socket.taken
  shut := s.socket.shut

/-- What they are to see, by what the app has sent and what the reader was told. -/
def expected (offered : Bytes) (ending : Option End) (told : List Incoming) : Seen where
  sent := offered
  closed := decide (ending = some .eof)
  reset := decide (ending = some .error)
  taken := heard told
  shut := decide (endOf told = some .close)

/-- A direction that is not disturbed brings over all bytes, and then its end. -/
theorem seen_settled {s : Pump} (hf : Fits s) (ha : Arrives s) (hl : Leads s) (h : Settled s)
    (hb : s.socket.broken = false) (hn : ¬ Lost s) :
    seen s = expected s.socket.offered s.socket.ending s.told := by
  have sent : payload s.cli.wire = s.socket.offered ∧
      (.close ∈ s.cli.wire ↔ s.socket.ending = some .eof) ∧
      (.reset ∈ s.cli.wire ↔ s.socket.ending = some .error) := by
    have hclose := fun hc => (hl.close hc).1
    have hreset : .reset ∈ s.cli.wire → s.socket.ending = some .error := fun hr =>
      ((hl.reset (.inl hr)).resolve_left hn).resolve_left (by rw [hb]; nofun)
    rcases out_cases hl h with ⟨hp, hahead, hi, he⟩ | hp
    · refine ⟨hl.all_sent hp hahead hi, ⟨hclose, fun hc => ?_⟩, ⟨hreset, fun hr => ?_⟩⟩
      · rw [he] at hc
        cases hc
      · rw [he] at hr
        cases hr
    · rcases (hl.ended hp).resolve_left hn with ⟨hs, -, hc⟩ | ⟨hs, -, -, hr⟩
      · refine ⟨hs.2, ⟨hclose, fun _ => hc⟩, ⟨hreset, fun hr => ?_⟩⟩
        rw [hs.1] at hr
        cases hr
      · refine ⟨hs.2, ⟨hclose, fun hc => ?_⟩, ⟨hreset, fun _ => ?_⟩⟩
        · rw [hs.1] at hc
          cases hc
        · exact hr.resolve_right (by rw [h.spawned]; nofun)
  obtain ⟨hpay, hclose, hreset⟩ := sent
  have hshut : s.socket.shut = decide (endOf s.told = some .close) := by
    rw [Bool.eq_iff_iff, decide_eq_true_iff]
    exact shut_settled hf ha hl h hb hn
  simp only [seen, expected, hpay, hclose, hreset, taken_settled hf ha h hb, hshut]

/-- Without a shape no read is taken for an end that it is not. -/
theorem careful_of_plain {s : Pump} (h : (machine false).Reachable s) :
    (machine false).Reaches Careful s := by
  have plain : ∀ s, (machine false).Reachable s → ∃ a, s.out = .plain a := by
    intro s hs
    refine Machine.Reaches.invariant (I := fun s => ∃ a, s.out = .plain a) hs ?_ ?_
    · rintro s rfl
      exact ⟨_, rfl⟩
    · rintro s t e ⟨a, ha⟩ - hst
      rcases step_around hst with ho | hb | hr
      · exact (outTurn_same ho).mpr ⟨a, ha⟩
      · exact ⟨a, (Apart.backTurn hb).out.trans ha⟩
      · exact ⟨a, hr.out.trans ha⟩
  induction h with
  | init hi => exact .init hi
  | @step s t e hr _ hst ih =>
    refine .step ih (fun n queue w _ ho => ?_) hst
    obtain ⟨a, ha⟩ := plain s hr
    rw [ha] at ho
    cases ho

/-- As long as no failed read is taken for the end of the app's bytes, a pump with a shape
keeps to what one without keeps to, and when nothing is left to do, both have brought the
same bytes over. Unless the stream was lost or writes fail, they have ended the same way too. -/
theorem only_timing {s t : Pump} (hs : (machine true).Reaches Careful s)
    (ht : (machine false).Reachable t) :
    Kept s ∧ Kept t ∧ (s.socket.offered = t.socket.offered → s.socket.ending = t.socket.ending →
      s.told = t.told → Settled s → Settled t →
      s.socket.broken = false → t.socket.broken = false →
      s.socket.taken = t.socket.taken ∧ (¬ Lost s → ¬ Lost t →
        seen s = seen t ∧ seen t = expected t.socket.offered t.socket.ending t.told)) := by
  obtain ⟨hf, ha, hl⟩ := invariants hs
  obtain ⟨hf', ha', hl'⟩ := invariants (careful_of_plain ht)
  refine ⟨kept ha hl, kept ha' hl', fun hoff hend htold hset hset' hb hb' => ⟨?_, fun hn hn' => ?_⟩⟩
  · rw [taken_settled hf ha hset hb, taken_settled hf' ha' hset' hb', htold]
  · have he := seen_settled hf ha hl hset hb hn
    have he' := seen_settled hf' ha' hl' hset' hb' hn'
    refine ⟨?_, he'⟩
    rw [he, he', hoff, hend, htold]

/-- An app and a visitor that send a byte each and close. -/
def exchange : List Event :=
  [.sends [1], .ends .eof, .takes 8, .frame (.data [2]), .frame .close]

def shapedTurns : List Event :=
  [.read 1, .read 1, .nextMux, .wakeMux, .take, .outSend, .nextMux, .outSend,
    .received, .received, .nextSocket, .wakeSocket, .write 1, .nextSocket, .finish]

def plainTurns : List Event :=
  [.read 1, .take, .outSend, .read 1, .outSend, .received, .write 1, .received, .finish]

theorem exchange_same : ∃ s t : Pump, (machine true).Reaches Careful s ∧
    (machine false).Reachable t ∧ s.socket.taken = [2] ∧ seen s = seen t := by
  have hs : ((machine true).exec (start true) (exchange ++ shapedTurns)).any (fun s => decide
      (s.socket.offered = [1] ∧ s.socket.ending = some .eof ∧
        s.told = [.data [2], .close] ∧ Settled s ∧ s.socket.broken = false ∧
        ¬ Lost s ∧ s.socket.taken = [2])) = true := by decide +kernel
  have ht : ((machine false).exec (start false) (exchange ++ plainTurns)).any (fun s => decide
      (s.socket.offered = [1] ∧ s.socket.ending = some .eof ∧
        s.told = [.data [2], .close] ∧ Settled s ∧ s.socket.broken = false ∧
        ¬ Lost s)) = true := by decide +kernel
  obtain ⟨s, hexec, h⟩ := (Option.any_eq_true _ _).mp hs
  obtain ⟨t, hexec', h'⟩ := (Option.any_eq_true _ _).mp ht
  obtain ⟨hoff, hend, htold, hset, hb, hn, htaken⟩ := of_decide_eq_true h
  obtain ⟨hoff', hend', htold', hset', hb', hn'⟩ := of_decide_eq_true h'
  have hok : ∀ s e, (machine true).Reachable s → s.socket.ending ≠ some .error → Careful s e :=
    fun s e _ hne n queue w _ _ _ he => absurd he hne
  have hreach : (machine true).Reaches Careful s :=
    .exec_of (.init rfl) _ hok (by decide +kernel) hexec
  have hreach' : (machine false).Reachable t := .exec (.init rfl) _ hexec'
  obtain ⟨-, -, hall⟩ := only_timing hreach hreach'
  obtain ⟨-, hseen⟩ := hall (hoff.trans hoff'.symm) (hend.trans hend'.symm)
    (htold.trans htold'.symm) hset hset' hb hb'
  exact ⟨s, t, hreach, hreach', htaken, (hseen hn hn').1⟩

/-- A transfer that is cut off by the app is closed like a complete one. -/
theorem cut_is_closed : ¬ ∀ (active : Bool) (s : Pump), (machine active).Reachable s →
    s.socket.ending = some .error → .close ∉ s.cli.wire := by
  have h : ((machine true).exec (start true)
      [.sends [1], .ends .error, .read 1, .read 1, .nextMux, .wakeMux, .take, .outSend, .nextMux,
        .outSend]).any (fun s => decide
      (s.socket.ending = some .error ∧ Frame.close ∈ s.cli.wire)) = true := by decide +kernel
  obtain ⟨s, hs, h⟩ := (Option.any_eq_true _ _).mp h
  obtain ⟨he, hc⟩ := of_decide_eq_true h
  intro hall
  exact hall true s (.exec (.init rfl) _ hs) he hc

end Tunlit.Client.Shaping
