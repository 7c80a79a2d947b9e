import Mathlib.Logic.Relation
import Mathlib.Data.List.Basic

/-! # A byte stream under credit-based flow control

One direction of a connection, in the abstract. A writer hands bytes in; they are
charged to its credit in pieces, put on a FIFO wire, arrive at the receiver and
are handed to its reader; the receiver owes an acknowledgement for what arrived,
and an acknowledgement becomes credit when it gets back. The end of the stream is
an item on the same wire. `cut` records that a side has given the stream up: from
then on nothing more is put on the wire, and what is dropped is counted in `lost`.

`Inv` says what every such pipe keeps: the credit is conserved, and what was handed
to the reader is a prefix of what the writer handed in, complete at the end mark. -/
namespace Tunlit.Lib.CreditPipe

variable {β : Type*}

inductive Item (β : Type*) where
  | data (bytes : List β)
  | fin
deriving DecidableEq

def Item.bytes : Item β → List β
  | .data d => d
  | .fin => []

def bytes (items : List (Item β)) : List β := items.flatMap Item.bytes

@[simp] theorem bytes_nil : bytes ([] : List (Item β)) = [] := rfl
@[simp] theorem bytes_data (d : List β) (l : List (Item β)) :
    bytes (.data d :: l) = d ++ bytes l := rfl
@[simp] theorem bytes_fin (l : List (Item β)) : bytes (.fin :: l) = bytes l := rfl
@[simp] theorem bytes_singleton (i : Item β) : bytes [i] = i.bytes := by simp [bytes]
@[simp] theorem bytes_append (l m : List (Item β)) : bytes (l ++ m) = bytes l ++ bytes m := by
  simp [bytes]

/-- No byte follows an end mark. -/
def Tidy : List (Item β) → Prop
  | [] => True
  | .data _ :: l => Tidy l
  | .fin :: l => bytes l = [] ∧ Tidy l

@[simp] theorem tidy_nil : Tidy ([] : List (Item β)) := trivial
@[simp] theorem tidy_data (d : List β) (l : List (Item β)) : Tidy (.data d :: l) ↔ Tidy l := .rfl
@[simp] theorem tidy_fin (l : List (Item β)) :
    Tidy (.fin :: l) ↔ bytes l = [] ∧ Tidy l := .rfl

theorem Tidy.tail {i : Item β} {l : List (Item β)} (h : Tidy (i :: l)) : Tidy l := by
  cases i with
  | data d => exact h
  | fin => exact h.2

theorem Tidy.left {l m : List (Item β)} (h : Tidy (l ++ m)) : Tidy l := by
  induction l with
  | nil => trivial
  | cons i l ih =>
    cases i with
    | data d => exact ih h
    | fin =>
      rw [List.cons_append, tidy_fin, bytes_append, List.append_eq_nil_iff] at h
      exact ⟨h.1.1, ih h.2⟩

/-- An item may be added behind a tidy list when it carries no byte or no end mark
stands before it. -/
theorem Tidy.concat {l : List (Item β)} {i : Item β} (h : Tidy l)
    (hi : Item.fin ∈ l → i.bytes = []) : Tidy (l ++ [i]) := by
  induction l with
  | nil => cases i <;> simp
  | cons j l ih =>
    cases j with
    | data d => exact ih h fun hm => hi (by simp [hm])
    | fin =>
      rw [List.cons_append, tidy_fin, bytes_append, h.1, bytes_singleton, hi (by simp)]
      exact ⟨rfl, ih h.2 fun _ => hi (by simp)⟩

/-- An empty data item may be taken out. -/
theorem Tidy.drop_empty {l m : List (Item β)} (h : Tidy (l ++ .data [] :: m)) :
    Tidy (l ++ m) := by
  induction l with
  | nil => exact h
  | cons i l ih =>
    cases i with
    | data d => exact ih h
    | fin => exact ⟨by simpa using h.1, ih h.2⟩

/-- An end mark may be taken out. -/
theorem Tidy.drop_fin {l m : List (Item β)} (h : Tidy (l ++ .fin :: m)) : Tidy (l ++ m) := by
  induction l with
  | nil => exact h.2
  | cons i l ih =>
    cases i with
    | data d => exact ih h
    | fin => exact ⟨by simpa using h.1, ih h.2⟩

/-- What stands behind an end mark carries no byte. -/
theorem Tidy.bytes_right {l m : List (Item β)} (h : Tidy (l ++ m)) (hf : Item.fin ∈ l) :
    bytes m = [] := by
  induction l with
  | nil => cases hf
  | cons i l ih =>
    cases i with
    | data d => exact ih h (by simpa using hf)
    | fin =>
      rw [List.cons_append, tidy_fin, bytes_append, List.append_eq_nil_iff] at h
      exact h.1.2

@[ext]
structure Pipe (β : Type*) where
  accepted : List β
  queued : List β
  held : List β
  wire : List (Item β)
  inbox : List (Item β)
  delivered : List β
  closing : Bool
  ended : Bool
  cut : Bool
  credit : Int
  owed : Nat
  acks : Nat
  lost : Nat

/-- Accepted by the writer's side up to now, at or before the receiver's reader. -/
def Pipe.visible (p : Pipe β) : List β := p.delivered ++ bytes p.inbox ++ bytes p.wire

inductive Step : Pipe β → Pipe β → Prop
  | accept (p : Pipe β) (bs : List β) (h : p.closing = false) :
      Step p { p with accepted := p.accepted ++ bs, queued := p.queued ++ bs }
  | close (p : Pipe β) : Step p { p with closing := true }
  | take (p : Pipe β) (c q : List β) (hq : p.queued = c ++ q) (hh : p.held = [])
      (hc : (c.length : Int) ≤ p.credit) :
      Step p { p with queued := q, held := c, credit := p.credit - c.length }
  | put (p : Pipe β) (h : p.cut = false) :
      Step p { p with held := [], wire := p.wire ++ [.data p.held] }
  | putFin (p : Pipe β) (h : p.cut = false) (hc : p.closing = true) (hq : p.queued = [])
      (hh : p.held = []) : Step p { p with wire := p.wire ++ [.fin] }
  | arrive (p : Pipe β) (d : List β) (w : List (Item β)) (h : p.wire = .data d :: w) :
      Step p { p with wire := w, inbox := p.inbox ++ [.data d], owed := p.owed + d.length }
  | arriveFin (p : Pipe β) (w : List (Item β)) (h : p.wire = .fin :: w) :
      Step p { p with wire := w, inbox := p.inbox ++ [.fin] }
  | hand (p : Pipe β) (d r : List β) (i : List (Item β)) (h : p.inbox = .data (d ++ r) :: i) :
      Step p { p with inbox := .data r :: i, delivered := p.delivered ++ d }
  | skip (p : Pipe β) (i j : List (Item β)) (h : p.inbox = i ++ .data [] :: j) :
      Step p { p with inbox := i ++ j }
  | mergeFin (p : Pipe β) (i : List (Item β)) (h : p.inbox = i ++ [.fin])
      (hf : Item.fin ∈ i ∨ p.ended = true) : Step p { p with inbox := i }
  | handFin (p : Pipe β) (i : List (Item β)) (h : p.inbox = .fin :: i) :
      Step p { p with inbox := i, ended := true }
  | ack (p : Pipe β) (n : Nat) (h : n ≤ p.owed) :
      Step p { p with owed := p.owed - n, acks := p.acks + n }
  | grant (p : Pipe β) (n : Nat) (h : n ≤ p.acks) :
      Step p { p with acks := p.acks - n, credit := p.credit + n }
  | dropAck (p : Pipe β) (n : Nat) (h : n ≤ p.acks) :
      Step p { p with acks := p.acks - n, lost := p.lost + n }
  | forfeit (p : Pipe β) (n : Nat) (h : n ≤ p.owed) :
      Step p { p with owed := p.owed - n, lost := p.lost + n }
  | giveUp (p : Pipe β) : Step p { p with cut := true }
  | discard (p : Pipe β) (h : p.cut = true) : Step p { p with queued := [] }
  | lose (p : Pipe β) (h : p.cut = true) :
      Step p { p with held := [], lost := p.lost + p.held.length }
  | dropWire (p : Pipe β) (h : p.cut = true) :
      Step p { p with wire := [], lost := p.lost + (bytes p.wire).length }
  | dropInbox (p : Pipe β) (h : p.cut = true) (hw : p.wire = []) : Step p { p with inbox := [] }

abbrev Steps : Pipe β → Pipe β → Prop := Relation.ReflTransGen Step

theorem Step.then {p q r s : Pipe β} (h : Step p q) (he : r = q) (hs : Steps r s) : Steps p s :=
  .head (he ▸ h) hs

theorem Step.last {p q r : Pipe β} (h : Step p q) (he : r = q) : Steps p r := .single (he ▸ h)

/-- A side may be given up, or given up already. -/
theorem Steps.giveUp {p : Pipe β} {b : Bool} (h : p.cut = true → b = true) :
    Steps p { p with cut := b } := by
  cases b with
  | true => exact .single (.giveUp p)
  | false =>
    have hc : p.cut = false := by simpa using h
    rw [← hc]

structure Inv (window : Nat) (p : Pipe β) : Prop where
  conserved : p.credit + (bytes p.wire).length + p.held.length + p.owed + p.acks + p.lost = window
  credit_nonneg : 0 ≤ p.credit
  visible_initial : p.visible <+: p.accepted
  whole : p.cut = false → p.accepted = p.visible ++ p.held ++ p.queued
  fin : Item.fin ∈ p.inbox ++ p.wire ∨ p.ended = true →
    p.closing = true ∧ p.accepted = p.visible ∧ p.held = [] ∧ p.queued = []
  tidy : Tidy (p.inbox ++ p.wire)
  drained : p.ended = true → bytes (p.inbox ++ p.wire) = []

theorem Inv.step {window : Nat} {p q : Pipe β} (h : Inv window p) (hs : Step p q) :
    Inv window q := by
  obtain ⟨hcons, hcr, hpre, hwhole, hfin, htidy, hover⟩ := h
  cases hs with
  | accept bs hc =>
    refine ⟨hcons, hcr, hpre.trans (List.prefix_append _ _), ?_, ?_, htidy, hover⟩
    · intro hcut
      simp only [Pipe.visible] at hwhole ⊢
      simp [hwhole hcut]
    · intro hf
      have := (hfin hf).1
      simp_all
  | close => exact ⟨hcons, hcr, hpre, hwhole, fun hf => ⟨rfl, (hfin hf).2⟩, htidy, hover⟩
  | take c q hq hh hc =>
    refine ⟨?_, ?_, hpre, ?_, ?_, htidy, hover⟩
    · simp only [hh, List.length_nil] at hcons ⊢
      omega
    · simp only; omega
    · intro hcut
      rw [hwhole hcut, hh, hq]
      simp [Pipe.visible]
    · intro hf
      obtain ⟨h1, h2, -, h4⟩ := hfin hf
      rw [hq, List.append_eq_nil_iff] at h4
      exact ⟨h1, h2, h4.1, h4.2⟩
  | put hcut =>
    have hw := hwhole hcut
    refine ⟨?_, hcr, ?_, ?_, ?_, ?_, ?_⟩
    · simp only [bytes_append, bytes_singleton, Item.bytes, List.length_append, List.length_nil]
      omega
    · rw [hw]
      simp [Pipe.visible, Item.bytes]
    · intro _
      rw [hw]
      simp [Pipe.visible, Item.bytes]
    · intro hf
      obtain ⟨h1, h2, h3, h4⟩ := hfin (by simpa using hf)
      refine ⟨h1, ?_, rfl, h4⟩
      rw [h2]
      simp [Pipe.visible, h3, Item.bytes]
    · rw [← List.append_assoc]
      exact htidy.concat fun hf => (hfin (.inl hf)).2.2.1
    · intro he
      have h3 := (hfin (.inr he)).2.2.1
      have := hover he
      simp only [bytes_append, bytes_singleton, Item.bytes, h3, List.append_nil] at this ⊢
      exact this
  | putFin hcut hc hq hh =>
    have hw := hwhole hcut
    refine ⟨by simpa [Item.bytes] using hcons, hcr, by simpa [Pipe.visible, Item.bytes] using hpre,
      ?_, ?_, ?_, by simpa [Item.bytes] using hover⟩
    · simpa [Pipe.visible, Item.bytes] using hwhole
    · intro _
      refine ⟨hc, ?_, hh, hq⟩
      rw [hw, hh, hq]
      simp [Pipe.visible, Item.bytes]
    · rw [← List.append_assoc]
      exact htidy.concat fun _ => rfl
  | arrive d w hw =>
    simp only [Pipe.visible, hw] at hcons hpre hwhole hfin htidy hover
    refine ⟨?_, hcr, by simpa [Pipe.visible, Item.bytes] using hpre,
      by simpa [Pipe.visible, Item.bytes] using hwhole,
      by simpa [Pipe.visible, Item.bytes] using hfin, by simpa using htidy,
      by simpa [Item.bytes] using hover⟩
    simp only [bytes_data, List.length_append] at hcons
    simp only
    omega
  | arriveFin w hw =>
    simp only [Pipe.visible, hw] at hcons hpre hwhole hfin htidy hover
    exact ⟨by simpa using hcons, hcr, by simpa [Pipe.visible, Item.bytes] using hpre,
      by simpa [Pipe.visible, Item.bytes] using hwhole,
      by simpa [Pipe.visible, Item.bytes] using hfin, by simpa using htidy,
      by simpa [Item.bytes] using hover⟩
  | hand d r i hi =>
    simp only [Pipe.visible, hi] at hpre hwhole hfin htidy hover
    refine ⟨hcons, hcr, by simpa [Pipe.visible] using hpre, by simpa [Pipe.visible] using hwhole,
      by simpa [Pipe.visible] using hfin, htidy, ?_⟩
    intro he
    have := hover he
    simp_all
  | skip i j hi =>
    simp only [Pipe.visible, hi] at hpre hwhole hfin htidy hover
    exact ⟨hcons, hcr, by simpa [Pipe.visible] using hpre, by simpa [Pipe.visible] using hwhole,
      by simpa [Pipe.visible] using hfin,
      by simpa using Tidy.drop_empty (by simpa using htidy), by simpa using hover⟩
  | mergeFin i hi hf =>
    simp only [Pipe.visible, hi] at hpre hwhole hfin htidy hover
    refine ⟨hcons, hcr, by simpa [Pipe.visible, Item.bytes] using hpre,
      by simpa [Pipe.visible, Item.bytes] using hwhole, fun _ => ?_,
      Tidy.drop_fin (by simpa using htidy), by simpa [Item.bytes] using hover⟩
    simpa [Pipe.visible, Item.bytes] using hfin (.inl (by simp))
  | handFin i hi =>
    simp only [Pipe.visible, hi] at hpre hwhole hfin htidy hover
    exact ⟨hcons, hcr, by simpa [Pipe.visible] using hpre, by simpa [Pipe.visible] using hwhole,
      fun _ => by simpa [Pipe.visible] using hfin, htidy.tail, fun _ => htidy.1⟩
  | ack n hn => exact ⟨by simp only; omega, hcr, hpre, hwhole, hfin, htidy, hover⟩
  | grant n hn => exact ⟨by simp only; omega, by simp only; omega, hpre, hwhole, hfin, htidy, hover⟩
  | dropAck n hn => exact ⟨by simp only; omega, hcr, hpre, hwhole, hfin, htidy, hover⟩
  | forfeit n hn => exact ⟨by simp only; omega, hcr, hpre, hwhole, hfin, htidy, hover⟩
  | giveUp => exact ⟨hcons, hcr, hpre, nofun, hfin, htidy, hover⟩
  | discard hcut =>
    refine ⟨hcons, hcr, hpre, ?_, fun hf => ?_, htidy, hover⟩
    · simp [hcut]
    · obtain ⟨h1, h2, h3, -⟩ := hfin hf
      exact ⟨h1, h2, h3, rfl⟩
  | lose hcut =>
    refine ⟨by simp only [List.length_nil]; omega, hcr, hpre, by simp [hcut], fun hf => ?_, htidy,
      hover⟩
    obtain ⟨h1, h2, -, h4⟩ := hfin hf
    exact ⟨h1, h2, rfl, h4⟩
  | dropWire hcut =>
    refine ⟨by simp only [bytes_nil, List.length_nil]; omega, hcr, ?_, by simp [hcut], ?_,
      by simpa using htidy.left, ?_⟩
    · exact List.IsPrefix.trans (by simp [Pipe.visible]) hpre
    · -- an end mark that stays visible was not behind a byte of the wire
      intro hf
      have hw : bytes p.wire = [] := by
        rcases hf with hf | he
        · exact htidy.bytes_right (by simpa using hf)
        · have := hover he
          rw [bytes_append, List.append_eq_nil_iff] at this
          exact this.2
      obtain ⟨h1, h2, h3⟩ := hfin (by
        rcases hf with hf | he
        · exact .inl (List.mem_append_left _ (by simpa using hf))
        · exact .inr he)
      exact ⟨h1, by simpa [Pipe.visible, hw] using h2, h3⟩
    · intro he
      have := hover he
      simp_all
  | dropInbox hcut hw =>
    refine ⟨hcons, hcr, ?_, by simp [hcut], ?_, by simp [hw], by simp [hw]⟩
    · refine List.IsPrefix.trans ?_ hpre
      simp only [Pipe.visible, bytes_nil, hw, List.append_nil]
      exact List.prefix_append _ _
    · intro hf
      have he : p.ended = true := by simpa [hw] using hf
      have hb := hover he
      obtain ⟨h1, h2, h3⟩ := hfin (.inr he)
      refine ⟨h1, ?_, h3⟩
      simp only [hw, List.append_nil] at hb
      simpa [Pipe.visible, hw, hb] using h2

/-- A pipe that has not been used. -/
def fresh (window : Nat) : Pipe β :=
  ⟨[], [], [], [], [], [], false, false, false, window, 0, 0, 0⟩

theorem inv_fresh (window : Nat) : Inv window (fresh window : Pipe β) := by
  constructor <;> simp [fresh, Pipe.visible]

section Consequences

variable {window : Nat} {p q : Pipe β}

/-- When nothing was lost, is on its way or is held, only what the receiver owes is
missing from the window. -/
theorem Inv.credit_idle (h : Inv window p) (hw : bytes p.wire = []) (hh : p.held = [])
    (ha : p.acks = 0) (hl : p.lost = 0) : p.credit = window - p.owed := by
  have := h.conserved
  simp only [hw, hh, ha, hl, List.length_nil] at this
  omega

theorem Inv.delivered_initial (h : Inv window p) : p.delivered <+: p.accepted :=
  List.IsPrefix.trans ⟨bytes p.inbox ++ bytes p.wire, by simp [Pipe.visible]⟩ h.visible_initial

/-- Once the end is reported, the reader has everything the writer handed in. -/
theorem Inv.delivered_all (h : Inv window p) (he : p.ended = true) :
    p.delivered = p.accepted := by
  have ho := h.drained he
  simp only [bytes_append, List.append_eq_nil_iff] at ho
  rw [(h.fin (.inr he)).2.1]
  simp [Pipe.visible, ho.1, ho.2]

/-- After the end is reported the reader is handed nothing more. -/
theorem Inv.step_ended (h : Inv window p) (he : p.ended = true) (hs : Step p q) :
    q.delivered = p.delivered ∧ q.ended = true := by
  cases hs with
  | hand d r i hi =>
    have ho := h.drained he
    simp only [hi, List.cons_append, bytes_data, List.append_eq_nil_iff] at ho
    exact ⟨by simp [ho.1.1], he⟩
  | handFin => exact ⟨rfl, rfl⟩
  | _ => exact ⟨rfl, he⟩

theorem Inv.steps (h : Inv window p) (hs : Steps p q) : Inv window q := by
  induction hs with
  | refl => exact h
  | tail _ hab ih => exact ih.step hab

theorem Inv.steps_ended (h : Inv window p) (he : p.ended = true) (hs : Steps p q) :
    q.delivered = p.delivered ∧ q.ended = true := by
  induction hs with
  | refl => exact ⟨rfl, he⟩
  | tail hpa hab ih =>
    obtain ⟨hd, he'⟩ := (h.steps hpa).step_ended ih.2 hab
    exact ⟨hd.trans ih.1, he'⟩

end Consequences

end Tunlit.Lib.CreditPipe
