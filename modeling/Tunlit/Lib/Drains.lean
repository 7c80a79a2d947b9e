import Mathlib.Data.List.Basic

/-! # Reading items from a buffer that fills up

A reader takes an item from the front of a buffer, or finds that the buffer does not hold
a whole one yet. What it takes does not depend on what comes in later, so the pieces in
which the input arrives make no difference. -/
namespace Tunlit.Lib.Drains

variable {β σ ο : Type*}

structure Reader (β σ ο : Type*) where
  /-- what is delivered, the next state and the rest of the buffer -/
  read : σ → List β → Option (List ο × σ × List β)
  shorter : ∀ {s buffer out s' rest}, read s buffer = some (out, s', rest) →
    rest.length < buffer.length
  stable : ∀ {s buffer out s' rest} (more : List β), read s buffer = some (out, s', rest) →
    read s (buffer ++ more) = some (out, s', rest ++ more)

namespace Reader

variable (R : Reader β σ ο)

/-- Reads while there is an item, but no more often than `fuel`. -/
def drainUpTo : Nat → σ → List β → List ο × σ × List β
  | 0, s, buffer => ([], s, buffer)
  | fuel + 1, s, buffer =>
    match R.read s buffer with
    | none => ([], s, buffer)
    | some (out, s', rest) =>
      let (more, last) := drainUpTo fuel s' rest
      (out ++ more, last)

/-- Reads until there is no item any more: every item shortens the buffer. -/
def drain (s : σ) (buffer : List β) : List ο × σ × List β := R.drainUpTo buffer.length s buffer

variable {R} {s s' : σ} {buffer rest : List β} {out : List ο}

theorem drainUpTo_of_le {n m : Nat} (hn : buffer.length ≤ n) (hm : buffer.length ≤ m) :
    R.drainUpTo n s buffer = R.drainUpTo m s buffer := by
  induction n generalizing m s buffer with
  | zero =>
    have hb : buffer = [] := List.length_eq_zero_iff.mp (Nat.le_zero.mp hn)
    cases m with
    | zero => rfl
    | succ m =>
      rw [drainUpTo, drainUpTo]
      cases hr : R.read s buffer with
      | none => rfl
      | some r => exact absurd (R.shorter hr) (by simp [hb])
  | succ n ih =>
    cases m with
    | zero =>
      have hb : buffer = [] := List.length_eq_zero_iff.mp (Nat.le_zero.mp hm)
      rw [drainUpTo, drainUpTo]
      cases hr : R.read s buffer with
      | none => rfl
      | some r => exact absurd (R.shorter hr) (by simp [hb])
    | succ m =>
      rw [drainUpTo, drainUpTo]
      cases hr : R.read s buffer with
      | none => rfl
      | some r =>
        obtain ⟨out, s', rest⟩ := r
        have hlt := R.shorter hr
        have hrest : R.drainUpTo n s' rest = R.drainUpTo m s' rest := ih (by omega) (by omega)
        simp only [hrest]

theorem drain_of_none (h : R.read s buffer = none) : R.drain s buffer = ([], s, buffer) := by
  unfold drain
  cases buffer.length with
  | zero => rfl
  | succ n => rw [drainUpTo, h]

theorem drain_of_some (h : R.read s buffer = some (out, s', rest)) :
    R.drain s buffer = (out ++ (R.drain s' rest).1, (R.drain s' rest).2) := by
  have hlt := R.shorter h
  obtain ⟨n, hn⟩ : ∃ n, buffer.length = n + 1 := ⟨buffer.length - 1, by omega⟩
  rw [drain, hn, drainUpTo, h]
  have he : R.drainUpTo n s' rest = R.drain s' rest := drainUpTo_of_le (by omega) (Nat.le_refl _)
  simp only [he]

/-- The induction over the items of a buffer. -/
theorem drain_induction {motive : σ → List β → Prop}
    (rests : ∀ s buffer, R.read s buffer = none → motive s buffer)
    (reads : ∀ s buffer out s' rest, R.read s buffer = some (out, s', rest) → motive s' rest →
      motive s buffer) (s : σ) (buffer : List β) : motive s buffer := by
  induction hn : buffer.length using Nat.strongRecOn generalizing s buffer with
  | ind n ih =>
    cases hr : R.read s buffer with
    | none => exact rests s buffer hr
    | some r =>
      obtain ⟨out, s', rest⟩ := r
      exact reads s buffer out s' rest hr (ih rest.length (hn ▸ R.shorter hr) s' rest rfl)

/-- No item is left. -/
theorem read_drain (s : σ) (buffer : List β) :
    R.read (R.drain s buffer).2.1 (R.drain s buffer).2.2 = none := by
  induction s, buffer using R.drain_induction with
  | rests s buffer hr => rwa [drain_of_none hr]
  | reads s buffer out s' rest hr ih => rwa [drain_of_some hr]

/-- What comes in later is read from where the reader stopped. -/
theorem drain_append (s : σ) (buffer more : List β) :
    R.drain s (buffer ++ more) =
      ((R.drain s buffer).1 ++ (R.drain (R.drain s buffer).2.1
        ((R.drain s buffer).2.2 ++ more)).1,
      (R.drain (R.drain s buffer).2.1 ((R.drain s buffer).2.2 ++ more)).2) := by
  induction s, buffer using R.drain_induction with
  | rests s buffer hr => simp only [drain_of_none hr, List.nil_append]
  | reads s buffer out s' rest hr ih =>
    rw [drain_of_some (R.stable more hr), drain_of_some hr, ih, List.append_assoc]

variable (R) in
/-- One piece of input after the other, each read as far as it goes. -/
def feed (s : σ) (buffer : List β) : List (List β) → List ο × σ × List β
  | [] => ([], s, buffer)
  | piece :: pieces =>
    let (out, s', rest) := R.drain s (buffer ++ piece)
    let (more, last) := feed s' rest pieces
    (out ++ more, last)

/-- Cutting the input into pieces makes no difference. -/
theorem feed_eq_drain (h : R.read s buffer = none) (pieces : List (List β)) :
    R.feed s buffer pieces = R.drain s (buffer ++ pieces.flatten) := by
  induction pieces generalizing s buffer with
  | nil => rw [feed, List.flatten_nil, List.append_nil, drain_of_none h]
  | cons piece pieces ih =>
    rw [feed, List.flatten_cons, ← List.append_assoc, drain_append s (buffer ++ piece)]
    simp only [ih (read_drain s (buffer ++ piece))]

end Reader

end Tunlit.Lib.Drains
