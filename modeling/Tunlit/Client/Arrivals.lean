import Tunlit.Client.Resets

/-! # What the app gets to see of a stream

Whatever the variant of the pump, the bytes that were received are the ones that the reader was
told, and those written to the socket are the first of them. The write half is shut down
behind all of them, or when writes fail. -/
namespace Tunlit.Client.Arrivals
open Tunlit.Lib.Runs Tunlit.Mux.Frames Tunlit.Mux.Cli Tunlit.Client.Pumping Tunlit.Client.Resets

/-! ## What the reader is told -/

/-- The bytes before the end of the stream. -/
def heard : List Incoming → Bytes
  | [] => []
  | .data d :: rest => d ++ heard rest
  | .datagram _ :: rest => heard rest
  | .close :: _ | .reset :: _ => []

/-- How the stream ends. -/
def endOf : List Incoming → Option Incoming
  | [] => none
  | .data _ :: rest | .datagram _ :: rest => endOf rest
  | .close :: _ => some .close
  | .reset :: _ => some .reset

section

variable (b : Bytes) (rest : List Incoming)

@[simp] theorem heard_nil : heard [] = [] := rfl
@[simp] theorem heard_data : heard (.data b :: rest) = b ++ heard rest := rfl
@[simp] theorem heard_datagram : heard (.datagram b :: rest) = heard rest := rfl
@[simp] theorem heard_close : heard (.close :: rest) = [] := rfl
@[simp] theorem heard_reset : heard (.reset :: rest) = [] := rfl

@[simp] theorem endOf_nil : endOf [] = none := rfl
@[simp] theorem endOf_data : endOf (.data b :: rest) = endOf rest := rfl
@[simp] theorem endOf_datagram : endOf (.datagram b :: rest) = endOf rest := rfl
@[simp] theorem endOf_close : endOf (.close :: rest) = some .close := rfl
@[simp] theorem endOf_reset : endOf (.reset :: rest) = some .reset := rfl

end

theorem endOf_append (l m : List Incoming) : endOf (l ++ m) = (endOf l).or (endOf m) := by
  induction l with
  | nil => rfl
  | cons item l ih => cases item <;> simp [ih]

theorem heard_append {l : List Incoming} (h : endOf l = none) (m : List Incoming) :
    heard (l ++ m) = heard l ++ heard m := by
  induction l with
  | nil => rfl
  | cons item l ih => cases item <;> simp_all

theorem heard_append_of_end {l : List Incoming} (h : endOf l ≠ none) (m : List Incoming) :
    heard (l ++ m) = heard l := by
  induction l with
  | nil => exact absurd rfl h
  | cons item l ih => cases item <;> simp_all

theorem endOf_ne_none_of_reset {l : List Incoming} (h : .reset ∈ l) : endOf l ≠ none := by
  induction l with
  | nil => cases h
  | cons item l ih => cases item <;> simp_all

theorem reset_of_endOf {l : List Incoming} (h : endOf l = some .reset) : .reset ∈ l := by
  induction l with
  | nil => cases h
  | cons item l ih => cases item <;> simp_all

/-! ## From the stream to the socket -/

/-- The task at `recv` has ended. -/
def ReaderEnded (back : Inward) : Prop :=
  back = .plain .ended ∨ ∃ queue w, back = .shaped .ended queue w

/-- What was received was written, or is on its way. -/
structure Arrives (s : Pump) : Prop where
  heard : ∃ consumed unread, s.told = consumed ++ unread ∧ (s.returned = false → unread = s.cli.rx) ∧
    s.cli.received = heard consumed ∧ (¬ ReaderEnded s.back → endOf consumed = none) ∧
    (ReaderEnded s.back → s.socket.broken = true ∨ endOf consumed ≠ none)
  onWay : s.socket.broken = true ∨ s.socket.taken ++ backlog s.back = s.cli.received
  taken : s.socket.taken <+: s.cli.received
  shut : s.socket.shut = true →
    s.socket.broken = true ∨ ReaderEnded s.back ∧ s.socket.taken = s.cli.received
  close : s.back = .plain .ended → s.socket.shut = true ∨ s.socket.broken = true ∨ .reset ∈ s.told
  closed : ReaderEnded s.back →
    s.socket.broken = true ∨ .reset ∈ s.told ∨ s.cli.closeReceived = true
  entry : s.cli.entry = false → s.returned = true ∨ .reset ∈ s.told
  returned : s.returned = true → s.out.Ended ∧ s.back.Ended ∧ s.cli.entry = false

/-- The reader's side of the stream is left alone. -/
structure Unread (c d : CliStream) : Prop where
  rx : d.rx = c.rx
  received : d.received = c.received
  entry : d.entry = c.entry
  closeReceived : d.closeReceived = c.closeReceived

namespace Unread

variable {c d : CliStream}

theorem trans {b : CliStream} (h : Unread c d) (h' : Unread d b) : Unread c b :=
  ⟨h'.rx.trans h.rx, h'.received.trans h.received, h'.entry.trans h.entry,
    h'.closeReceived.trans h.closeReceived⟩

theorem close (c : CliStream) : Unread c c.close := by
  unfold CliStream.close
  dsimp only
  split
  · exact ⟨rfl, rfl, rfl, rfl⟩
  · split <;> exact ⟨rfl, rfl, rfl, rfl⟩

theorem reset (c : CliStream) : Unread c c.reset := by
  unfold CliStream.reset
  split <;> exact ⟨rfl, rfl, rfl, rfl⟩

theorem recv (c : CliStream) : Unread c c.recv := by
  unfold CliStream.recv CliStream.ack
  split
  · split <;> exact ⟨rfl, rfl, rfl, rfl⟩
  · exact ⟨rfl, rfl, rfl, rfl⟩

theorem advances (h : Advances c d) : Unread c d := by
  rcases h with h | h
  · cases cliStep_of_step h <;> exact ⟨rfl, rfl, rfl, rfl⟩
  · cases cliStep_of_step h <;> exact ⟨rfl, rfl, rfl, rfl⟩

end Unread

/-- What the tasks towards the stream do not touch. -/
theorem outTurn_stream {s t : Pump} {e : Event} (h : OutTurn s e t) :
    Unread s.cli t.cli := by
  cases h with
  | eof | none => exact .close _
  | error => exact .reset _
  | failed r queue d hd => exact (Unread.advances hd).trans (.close d)
  | advance d hd | closed d hd | sending r queue d hd | closedShaped r queue d hd =>
    exact .advances hd
  | _ => exact ⟨rfl, rfl, rfl, rfl⟩

theorem outTurn_not_ended {s t : Pump} {e : Event} (h : OutTurn s e t) : ¬ s.out.Ended := by
  rintro (he | he) <;> cases h <;> simp_all

theorem backTurn_not_ended {s t : Pump} {e : Event} (h : BackTurn s e t) : ¬ s.back.Ended := by
  rintro (he | he)
  · cases h with
    | received d _ hd ht =>
      have hb : (s.got d).back = .plain .ended := he
      simp [Pump.receive, hb] at ht
    | _ => simp_all
  · cases h with
    | received d _ hd ht =>
      have hb : (s.got d).back = .shaped .ended [] .ended := he
      simp [Pump.receive, hb] at ht
    | _ => simp_all

namespace Arrives

variable {s t : Pump}

theorem out (h : Arrives s) {e : Event} (ho : OutTurn s e t) : Arrives t := by
  obtain ⟨hb, -, hret, htold, hk, -⟩ := outTurn_frame ho
  obtain ⟨hrx, hrec, hentry, hcr⟩ := outTurn_stream ho
  have hbroken : t.socket.broken = s.socket.broken := by rw [hk]
  have htaken : t.socket.taken = s.socket.taken := by rw [hk]
  have hshut : t.socket.shut = s.socket.shut := by rw [hk]
  constructor
  · rw [htold, hret, hrx, hrec, hb, hbroken]
    exact h.heard
  · rw [hbroken, htaken, hb, hrec]
    exact h.onWay
  · rw [htaken, hrec]
    exact h.taken
  · rw [hshut, hbroken, hb, htaken, hrec]
    exact h.shut
  · rw [hb, hshut, hbroken, htold]
    exact h.close
  · rw [hb, hbroken, htold, hcr]
    exact h.closed
  · rw [hentry, hret, htold]
    exact h.entry
  · rw [hret]
    intro hr
    exact absurd (h.returned hr).1 (outTurn_not_ended ho)

/-- The reader gets the first item that it has not seen. -/
theorem consumes (h : Arrives s) (hr : s.returned = false) (hb : ¬ ReaderEnded s.back)
    {d : CliStream} (hd : s.cli.received? = some d) :
    ∃ consumed, s.told = consumed ++ d.rx ∧ d.received = Arrivals.heard consumed ∧
      d.received = s.cli.received ++ Arrivals.heard [s.item] ∧ d.entry = s.cli.entry ∧
      endOf consumed = endOf [s.item] ∧ (s.item = .reset → .reset ∈ s.told) ∧
      (s.item = .close → d.closeReceived = true) := by
  obtain ⟨consumed, unread, htold, hun, hrec, hend, -⟩ := h.heard
  have hun := hun hr
  have hend := hend hb
  subst hun
  unfold CliStream.received? at hd
  dsimp only at hd
  have first : ∀ item rest, s.cli.rx = item :: rest → s.item = item ∧
      s.told = (consumed ++ [item]) ++ rest ∧
      Arrivals.heard (consumed ++ [item]) = s.cli.received ++ Arrivals.heard [item] ∧
      endOf (consumed ++ [item]) = endOf [item] := by
    intro item rest hx
    refine ⟨by simp [Pump.item, hx], by simp [htold, hx], ?_, ?_⟩
    · rw [heard_append hend, hrec]
    · rw [endOf_append, hend, Option.none_or]
  split at hd
  · next b rest hx =>
    cases hd
    obtain ⟨hi, ht, hh, he⟩ := first _ _ hx
    refine ⟨consumed ++ [.data b], ht, ?_, ?_, rfl, ?_, ?_, by rw [hi]; nofun⟩
    · rw [hh]
      simp
    · rw [hi]
      simp
    · rw [hi, he]
    · rw [hi]
      nofun
  · next rest hx =>
    cases hd
    obtain ⟨hi, ht, hh, he⟩ := first _ _ hx
    refine ⟨consumed ++ [.close], ht, ?_, ?_, rfl, ?_, ?_, fun _ => rfl⟩
    · rw [hh]
      simp
    · rw [hi]
      simp
    · rw [hi, he]
    · rw [hi]
      nofun
  · next rest hx =>
    cases hd
    obtain ⟨hi, ht, hh, he⟩ := first _ _ hx
    refine ⟨consumed ++ [.reset], ht, ?_, ?_, rfl, ?_, ?_, by rw [hi]; nofun⟩
    · rw [hh]
      simp
    · rw [hi]
      simp
    · rw [hi, he]
    · rw [ht]
      simp
  · next b rest hx =>
    cases hd
    obtain ⟨hi, ht, hh, he⟩ := first _ _ hx
    refine ⟨consumed ++ [.datagram b], ht, ?_, ?_, rfl, ?_, ?_, by rw [hi]; nofun⟩
    · rw [hh]
      simp
    · rw [hi]
      simp
    · rw [hi, he]
    · rw [hi]
      nofun
  · next hx =>
    obtain ⟨he, hd⟩ := Option.ite_none_left_eq_some.mp hd
    rcases h.entry (by simpa using he) with h' | h'
    · rw [hr] at h'
      cases h'
    · rw [htold, hx, List.append_nil] at h'
      exact absurd hend (endOf_ne_none_of_reset h')

/-- A turn behind `recv`, by what it makes of the item. -/
theorem of_received (h : Arrives s) (hr : s.returned = false) (hb : ¬ ReaderEnded s.back)
    {d : CliStream} (hd : s.cli.received? = some d) (hu : Unread d t.cli) (htold : t.told = s.told)
    (hret : t.returned = false) (htaken : t.socket.taken = s.socket.taken)
    (hbroken : t.socket.broken = s.socket.broken)
    (hway : s.socket.broken = true ∨ backlog t.back = backlog s.back ++ Arrivals.heard [s.item])
    (hgoes : ¬ ReaderEnded t.back → endOf [s.item] = none)
    (hends : ReaderEnded t.back → s.socket.broken = true ∨ endOf [s.item] ≠ none)
    (hshut : t.socket.shut = true → s.socket.shut = true ∨
      ReaderEnded t.back ∧ backlog s.back = [] ∧ Arrivals.heard [s.item] = [])
    (hclose : t.back = .plain .ended → t.socket.shut = true ∨ s.item = .reset) : Arrives t := by
  obtain ⟨consumed, hc, hh, hsum, he, hend, hreset, hclosed⟩ := h.consumes hr hb hd
  obtain ⟨hrx, hrec, hentry, hcr⟩ := hu
  have hon : t.socket.broken = true ∨ t.socket.taken ++ backlog t.back = t.cli.received := by
    rw [hbroken, htaken, hrec, hsum]
    rcases hway with hw | hw
    · exact .inl hw
    · refine h.onWay.imp_right fun ho => ?_
      rw [hw, ← ho, List.append_assoc]
  constructor
  · refine ⟨consumed, d.rx, htold.trans hc, fun _ => hrx.symm, hrec.trans hh, ?_, ?_⟩
    · rw [hend]
      exact hgoes
    · rw [hend, hbroken]
      exact hends
  · exact hon
  · rw [htaken, hrec, hsum]
    exact h.taken.trans (List.prefix_append _ _)
  · intro ht
    rw [hbroken, htaken, hrec, hsum]
    rcases hshut ht with hs | ⟨he, hl, hi⟩
    · rcases h.shut hs with hs | ⟨hs, -⟩
      · exact .inl hs
      · exact absurd hs hb
    · refine h.onWay.imp_right fun ho => ⟨he, ?_⟩
      rw [hi, List.append_nil, ← ho, hl, List.append_nil]
  · intro ht
    rcases hclose ht with hs | hi
    · exact .inl hs
    · rw [htold]
      exact .inr (.inr (hreset hi))
  · intro ht
    rw [hbroken, htold, hcr]
    refine (hends ht).imp_right fun hne => ?_
    cases hi : s.item with
    | data b => simp [hi] at hne
    | datagram b => simp [hi] at hne
    | close => exact .inr (hclosed hi)
    | reset => exact .inl (hreset hi)
  · rw [hentry, he, htold]
    intro hs
    exact .inr ((h.entry hs).resolve_left (by rw [hr]; nofun))
  · rw [hret]
    nofun

theorem not_returned (h : Arrives s) {e : Event} (hb : BackTurn s e t) : s.returned = false :=
  Bool.eq_false_iff.mpr fun hr => backTurn_not_ended hb (h.returned hr).2.1

theorem received (h : Arrives s) (hf : Fits s) {d : CliStream} (hd : s.cli.received? = some d)
    (ht : (s.got d).receive s.item = some t) : Arrives t := by
  have hr := h.not_returned (.received d t hd ht)
  unfold Pump.receive at ht
  split at ht
  · next hb =>
    have hb : s.back = .plain .receiving := hb
    have hn : ¬ ReaderEnded s.back := by simp [ReaderEnded, hb]
    cases hi : s.item with
    | data b =>
      rw [hi] at ht
      obtain rfl := Option.some.inj ht
      dsimp only
      unfold Pump.writePlain
      split
      · next he =>
        refine h.of_received hr hn hd (.recv d) rfl hr rfl rfl ?_ ?_ ?_ .inl (fun he => by cases he)
        · simp [hb, hi, backlog, he]
        · simp [hi]
        · simp [ReaderEnded]
      · refine h.of_received hr hn hd ⟨rfl, rfl, rfl, rfl⟩ rfl hr rfl rfl ?_ ?_ ?_ .inl (fun he => by cases he)
        · simp [hb, hi, backlog]
        · simp [hi]
        · simp [ReaderEnded]
    | datagram b =>
      rw [hi] at ht
      obtain rfl := Option.some.inj ht
      refine h.of_received hr hn hd (.recv d) rfl hr rfl rfl ?_ ?_ ?_ .inl ?_
      · simp [Pump.got, hi]
      · simp [hi]
      · exact fun he => absurd he hn
      · exact fun he => absurd (.inl he) hn
    | close =>
      rw [hi] at ht
      obtain rfl := Option.some.inj ht
      refine h.of_received hr hn hd ⟨rfl, rfl, rfl, rfl⟩ rfl hr rfl rfl ?_ ?_ ?_ ?_ ?_
      · simp [hb, hi, backlog]
      · simp [ReaderEnded]
      · simp [hi]
      · exact fun _ => .inr ⟨.inl rfl, by simp [hb, backlog], by simp [hi]⟩
      · exact fun _ => .inl rfl
    | reset =>
      rw [hi] at ht
      obtain rfl := Option.some.inj ht
      refine h.of_received hr hn hd ⟨rfl, rfl, rfl, rfl⟩ rfl hr rfl rfl ?_ ?_ ?_ .inl ?_
      · simp [hb, hi, backlog]
      · simp [ReaderEnded]
      · simp [hi]
      · exact fun _ => .inr hi
  · next queue w hb =>
    have hb : s.back = .shaped .receiving queue w := hb
    have hn : ¬ ReaderEnded s.back := by simp [ReaderEnded, hb]
    cases hi : s.item with
    | data b =>
      rw [hi] at ht
      obtain rfl := Option.some.inj ht
      dsimp only
      unfold Pump.passBack
      split
      · next hw =>
        have hbroken : s.socket.broken = true :=
          (h.shut ((hf.shut _ _ _ hb).1 hw)).resolve_right fun he => hn he.1
        refine h.of_received hr hn hd ⟨rfl, rfl, rfl, rfl⟩ rfl hr rfl rfl (.inl hbroken) ?_
          (fun _ => .inl hbroken) .inl (fun he => by cases he)
        simp [ReaderEnded]
      · split
        · refine h.of_received hr hn hd (.recv d) rfl hr rfl rfl ?_ ?_ ?_ .inl (fun he => by cases he)
          · simp [hb, hi, backlog, backlog.passing]
          · simp [hi]
          · simp [ReaderEnded]
        · refine h.of_received hr hn hd ⟨rfl, rfl, rfl, rfl⟩ rfl hr rfl rfl ?_ ?_ ?_ .inl (fun he => by cases he)
          · simp [hb, hi, backlog, backlog.passing]
          · simp [hi]
          · simp [ReaderEnded]
    | datagram b =>
      rw [hi] at ht
      obtain rfl := Option.some.inj ht
      refine h.of_received hr hn hd (.recv d) rfl hr rfl rfl ?_ ?_ ?_ .inl ?_
      · simp [Pump.got, hi]
      · simp [hi]
      · exact fun he => absurd he hn
      · exact fun he => absurd (.inl he) hn
    | close =>
      rw [hi] at ht
      obtain rfl := Option.some.inj ht
      refine h.of_received hr hn hd ⟨rfl, rfl, rfl, rfl⟩ rfl hr rfl rfl ?_ ?_ ?_ .inl (fun he => by cases he)
      · simp [hb, hi, backlog, backlog.passing]
      · simp [ReaderEnded]
      · simp [hi]
    | reset =>
      rw [hi] at ht
      obtain rfl := Option.some.inj ht
      refine h.of_received hr hn hd ⟨rfl, rfl, rfl, rfl⟩ rfl hr rfl rfl ?_ ?_ ?_ .inl (fun he => by cases he)
      · simp [hb, hi, backlog, backlog.passing]
      · simp [ReaderEnded]
      · simp [hi]
  · cases ht

/-- A turn that moves bytes on and receives nothing. -/
theorem of_turn (h : Arrives s) (hr : s.returned = false) (hu : Unread s.cli t.cli)
    (htold : t.told = s.told) (hret : t.returned = s.returned)
    (hbroken : t.socket.broken = s.socket.broken) (hkeep : ReaderEnded s.back → ReaderEnded t.back)
    (hnew : ReaderEnded t.back → ReaderEnded s.back ∨ s.socket.broken = true)
    (hway : s.socket.broken = true ∨
      t.socket.taken ++ backlog t.back = s.socket.taken ++ backlog s.back)
    (htaken : s.socket.broken = true → t.socket.taken = s.socket.taken)
    (hshut : t.socket.shut = true → s.socket.broken = true ∨
      ReaderEnded s.back ∧ t.socket.taken = s.socket.taken ∧
        (s.socket.shut = true ∨ backlog s.back = []))
    (hclose : t.back = .plain .ended → s.socket.broken = true) : Arrives t := by
  obtain ⟨hrx, hrec, hentry, hcr⟩ := hu
  have hon : t.socket.broken = true ∨ t.socket.taken ++ backlog t.back = t.cli.received := by
    rw [hbroken, hrec]
    rcases hway with hw | hw
    · exact .inl hw
    · exact h.onWay.imp_right hw.trans
  constructor
  · obtain ⟨consumed, unread, hc, hun, hh, hgoes, hends⟩ := h.heard
    refine ⟨consumed, unread, htold.trans hc, ?_, hrec.trans hh, fun hn => hgoes (hn ∘ hkeep), ?_⟩
    · rw [hret, hrx]
      exact hun
    · rw [hbroken]
      intro ht
      rcases hnew ht with hs | hs
      · exact hends hs
      · exact .inl hs
  · exact hon
  · rcases hon with hb | hon
    · rw [htaken (hbroken.symm.trans hb), hrec]
      exact h.taken
    · exact ⟨_, hon⟩
  · intro ht
    rw [hbroken, hrec]
    rcases hshut ht with hs | ⟨hs, hk, hs' | hl⟩
    · exact .inl hs
    · rw [hk]
      exact (h.shut hs').imp_right fun h' => ⟨hkeep hs, h'.2⟩
    · rw [hk]
      refine h.onWay.imp_right fun ho => ⟨hkeep hs, ?_⟩
      rw [← ho, hl, List.append_nil]
  · intro ht
    exact .inr (.inl (hbroken.trans (hclose ht)))
  · rw [hbroken, htold, hcr]
    intro ht
    rcases hnew ht with hs | hs
    · exact h.closed hs
    · exact .inl hs
  · rw [hentry, hret, htold]
    exact h.entry
  · rw [hret, hr]
    nofun

/-- A turn of a task that is not at `recv` is over for it with the socket. -/
theorem shut_old (h : Arrives s) (ht : s.socket.shut = true) (hr : ¬ ReaderEnded s.back) :
    s.socket.broken = true := (h.shut ht).resolve_right fun he => hr he.1

theorem back (h : Arrives s) (hf : Fits s) {e : Event} (hb : BackTurn s e t) : Arrives t := by
  have hr := h.not_returned hb
  cases hb with
  | received d _ hd ht => exact h.received hf hd ht
  | passBack chunk queue w hq hb =>
    have hn : ¬ ReaderEnded s.back := by simp [ReaderEnded, hb]
    have hold := fun ht => h.shut_old ht hn
    unfold Pump.passBack
    split
    · next hw =>
      have hbroken := hold ((hf.shut _ _ _ hb).1 hw)
      exact h.of_turn hr ⟨rfl, rfl, rfl, rfl⟩ rfl rfl rfl (absurd · hn) (fun _ => .inr hbroken)
        (.inl hbroken) (fun _ => rfl) (fun _ => .inl hbroken) (fun he => by cases he)
    · split
      · refine h.of_turn hr (.recv _) rfl rfl rfl (absurd · hn) ?_ ?_ (fun _ => rfl)
          (fun ht => .inl (hold ht)) (fun he => by cases he)
        · simp [ReaderEnded]
        · simp [hb, backlog, backlog.passing]
      · next hlt =>
        rename_i hw
        exact absurd (hq.resolve_left hw) hlt
  | next r chunk queue hb =>
    refine h.of_turn hr ⟨rfl, rfl, rfl, rfl⟩ rfl rfl rfl ?_ ?_ ?_ (fun _ => rfl) ?_ (fun he => by cases he)
    · simp [ReaderEnded, hb]
    · simp only [ReaderEnded, hb]
      simpa using .inl
    · simp [hb, backlog, backlog.writing]
    · intro ht
      rcases h.shut ht with hs | ⟨hs, -⟩
      · exact .inl hs
      · exact .inr ⟨hs, rfl, .inl ht⟩
  | none hb =>
    refine h.of_turn hr ⟨rfl, rfl, rfl, rfl⟩ rfl rfl rfl ?_ ?_ ?_ (fun _ => rfl) ?_ (fun he => by cases he)
    · simp [ReaderEnded, Pump.shutShaped]
    · simp [ReaderEnded, hb]
    · simp [hb, backlog, backlog.writing, Pump.shutShaped, Socket.shutdown]
    · intro _
      refine .inr ⟨.inr ⟨_, _, hb⟩, rfl, .inr ?_⟩
      simp [hb, backlog, backlog.writing, backlog.passing]
  | wake r chunk queue hb =>
    refine h.of_turn hr ⟨rfl, rfl, rfl, rfl⟩ rfl rfl rfl ?_ ?_ ?_ (fun _ => rfl) ?_ (fun he => by cases he)
    · simp [ReaderEnded, hb, Pump.writeShaped]
    · simp only [ReaderEnded, hb, Pump.writeShaped]
      simpa using .inl
    · by_cases hc : chunk = [] <;> simp [hb, backlog, backlog.writing, Pump.writeShaped, hc]
    · intro ht
      rcases h.shut ht with hs | ⟨hs, -⟩
      · exact .inl hs
      · exact .inr ⟨hs, rfl, .inl ht⟩
  | fails n left hk hb =>
    exact h.of_turn hr ⟨rfl, rfl, rfl, rfl⟩ rfl rfl rfl (fun _ => .inl rfl) (fun _ => .inr hk) (.inl hk)
      (fun _ => rfl) (fun _ => .inl hk) fun _ => hk
  | failsShaped n r queue left hk hb =>
    refine h.of_turn hr ⟨rfl, rfl, rfl, rfl⟩ rfl rfl rfl ?_ (fun _ => .inr hk) (.inl hk)
      (fun _ => rfl) (fun _ => .inl hk) (fun he => by cases he)
    simp [ReaderEnded, hb, Pump.shutShaped]
  | write n left rest k hk hw hb =>
    have hn : ¬ ReaderEnded s.back := by simp [ReaderEnded, hb]
    obtain ⟨hlen, hw⟩ := Option.ite_none_right_eq_some.mp hw
    cases hw
    unfold Pump.writePlain
    split
    · next hd =>
      refine h.of_turn hr (.recv _) rfl rfl rfl (absurd · hn) ?_ ?_ ?_
        (fun ht => .inl (h.shut_old ht hn)) (fun he => by cases he)
      · simp [ReaderEnded]
      · have := List.take_append_drop n left
        rw [hd, List.append_nil] at this
        simp [hb, backlog, this]
      · rw [hk]
        intro he
        cases he
    · refine h.of_turn hr ⟨rfl, rfl, rfl, rfl⟩ rfl rfl rfl (absurd · hn) ?_ ?_ ?_
        (fun ht => .inl (h.shut_old ht hn)) (fun he => by cases he)
      · simp [ReaderEnded]
      · simp [hb, backlog]
      · rw [hk]
        intro he
        cases he
  | writeShaped r queue n left rest k hk hw hb =>
    obtain ⟨hlen, hw⟩ := Option.ite_none_right_eq_some.mp hw
    cases hw
    have hway : s.socket.taken ++ left.take n ++ backlog (.shaped r queue
        (if left.drop n = [] then .waiting else .writing (left.drop n))) =
        s.socket.taken ++ backlog s.back := by
      have hl := List.take_append_drop n left
      split
      · next hd =>
        rw [hd, List.append_nil] at hl
        simp [hb, backlog, backlog.writing, hl]
      · rw [hb]
        simp only [backlog, backlog.writing]
        nth_rewrite 3 [← hl]
        simp only [List.append_assoc]
    refine h.of_turn hr ⟨rfl, rfl, rfl, rfl⟩ rfl rfl rfl ?_ ?_ (.inr hway) ?_ ?_ (fun he => by cases he)
    · simp [ReaderEnded, hb, Pump.writeShaped]
    · simp only [ReaderEnded, hb, Pump.writeShaped]
      simpa using .inl
    · rw [hk]
      intro he
      cases he
    · intro ht
      rcases h.shut ht with hs | ⟨-, hs⟩
      · exact .inl hs
      · rcases h.onWay with ho | ho
        · exact .inl ho
        · have ho := List.append_cancel_left ((ho.trans hs.symm).trans (List.append_nil _).symm)
          have hl := congrArg List.length ho
          simp only [hb, backlog, backlog.writing, List.length_append, List.length_nil] at hl
          omega

/-- The connection gives the reader more, or takes its entry away. -/
theorem stream (h : Arrives s) {d : CliStream} (hrec : d.received = s.cli.received)
    (hcr : d.closeReceived = s.cli.closeReceived)
    {more : List Incoming} (hrx : d.rx = s.cli.rx ++ more)
    (hend : s.cli.entry = false → more = [] ∧ d.entry = false)
    (hentry : d.entry = false → s.cli.entry = false ∨ .reset ∈ more) : Arrives (s.tell d) := by
  have hmore : d.rx.drop s.cli.rx.length = more := by rw [hrx, List.drop_left]
  constructor
  · obtain ⟨consumed, unread, hc, hun, hh, hrest⟩ := h.heard
    refine ⟨consumed, unread ++ more, ?_, fun hr => ?_, hrec.trans hh, hrest⟩
    · rw [Pump.tell, hmore, hc, List.append_assoc]
    · rw [hun hr]
      exact hrx.symm
  · exact hrec ▸ h.onWay
  · exact hrec ▸ h.taken
  · exact hrec ▸ h.shut
  · exact fun hb => (h.close hb).imp_right (.imp_right (List.mem_append_left _))
  · exact fun hb => (h.closed hb).imp_right (.imp (List.mem_append_left _) hcr.trans)
  · intro he
    rcases hentry he with hs | hs
    · exact (h.entry hs).imp_right (List.mem_append_left _)
    · exact .inr (List.mem_append_right _ (hmore ▸ hs))
  · intro hr
    obtain ⟨ho, hb, hs⟩ := h.returned hr
    exact ⟨ho, hb, (hend hs).2⟩

theorem outside (h : Arrives s) (ho : Outside s t) : Arrives t := by
  cases ho with
  | frame frame =>
    unfold CliStream.onFrame
    split
    · next he =>
      exact h.stream (d := s.cli) rfl rfl (List.append_nil _).symm (fun he => ⟨rfl, he⟩) .inl
    · next he =>
      have he : s.cli.entry = true := by simpa using he
      have hn : s.cli.entry ≠ false := by simp [he]
      cases frame with
      | reset =>
        exact h.stream (d := { s.cli with dead := true, rx := s.cli.rx ++ [.reset], entry := false })
          rfl rfl rfl (absurd · hn) fun _ => .inr (by simp)
      | windowUpdate amount =>
        exact h.stream (d := { s.cli with available := s.cli.available + amount }) rfl rfl
          (List.append_nil _).symm (absurd · hn) .inl
      | data b =>
        exact h.stream (d := { s.cli with rx := s.cli.rx ++ [.data b] }) rfl rfl rfl (absurd · hn) .inl
      | datagram b =>
        exact h.stream (d := { s.cli with rx := s.cli.rx ++ [.datagram b] }) rfl rfl rfl (absurd · hn)
          .inl
      | close =>
        exact h.stream (d := { s.cli with rx := s.cli.rx ++ [.close] }) rfl rfl rfl (absurd · hn) .inl
  | shutdown hc =>
    unfold CliStream.shutdown
    split
    · next he =>
      exact h.stream (d := { s.cli with entry := false, dead := true, rx := s.cli.rx ++ [.reset] })
        rfl rfl rfl (fun hn => by rw [hn] at he; cases he) fun _ => .inr (by simp)
    · exact h.stream (d := s.cli) rfl rfl (List.append_nil _).symm (fun he => ⟨rfl, he⟩) .inl
  | spawned i d hd =>
    unfold CliStream.runSpawned at hd
    split at hd
    · cases hd
    · cases hd
      exact { h with }
  | breaks =>
    obtain ⟨consumed, unread, hc, hun, hh, hgoes, hends⟩ := h.heard
    exact ⟨⟨consumed, unread, hc, hun, hh, hgoes, fun _ => .inl rfl⟩, .inl rfl, h.taken,
      fun _ => .inl rfl, fun _ => .inr (.inl rfl), fun _ => .inl rfl, h.entry, h.returned⟩
  | _ => exact { h with }

theorem finish (h : Arrives s) (ho : s.out.Ended) (hb : s.back.Ended) :
    Arrives { s with cli := s.cli.drop, returned := true } := by
  have hdrop : s.cli.drop.received = s.cli.received ∧ s.cli.drop.entry = false ∧
      s.cli.drop.closeReceived = s.cli.closeReceived := by
    unfold CliStream.drop
    dsimp only
    split <;> exact ⟨rfl, rfl, rfl⟩
  obtain ⟨hrec, hentry, hcr⟩ := hdrop
  constructor
  · obtain ⟨consumed, unread, hc, hun, hh, hrest⟩ := h.heard
    exact ⟨consumed, unread, hc, nofun, hrec.trans hh, hrest⟩
  · exact hrec ▸ h.onWay
  · exact hrec ▸ h.taken
  · exact hrec ▸ h.shut
  · exact h.close
  · exact fun hb => (h.closed hb).imp_right (.imp_right hcr.trans)
  · exact fun _ => .inl rfl
  · exact fun _ => ⟨ho, hb, hentry⟩

theorem step (h : Arrives s) (hf : Fits s) {e : Event} (hst : Pumping.step s e = some t) :
    Arrives t := by
  rcases step_cases hst with ho | hb | ho | ⟨ho, hb, -, rfl⟩
  · exact h.out ho
  · exact h.back hf hb
  · exact h.outside ho
  · exact h.finish ho hb

end Arrives

theorem arrives_start (active : Bool) : Arrives (start active) := by
  cases active with
  | true =>
    exact ⟨⟨[], [], rfl, fun _ => rfl, rfl, fun _ => rfl, fun h => by simp [ReaderEnded, start] at h⟩,
      .inr rfl, List.prefix_rfl, (fun he => by cases he), (fun he => by cases he), by simp [ReaderEnded, start], (fun he => by cases he), (fun he => by cases he)⟩
  | false =>
    exact ⟨⟨[], [], rfl, fun _ => rfl, rfl, fun _ => rfl, fun h => by simp [ReaderEnded, start] at h⟩,
      .inr rfl, List.prefix_rfl, (fun he => by cases he), (fun he => by cases he), by simp [ReaderEnded, start], (fun he => by cases he), (fun he => by cases he)⟩

end Tunlit.Client.Arrivals
