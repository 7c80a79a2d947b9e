import Mathlib.Data.List.Basic

/-! # Flat patterns

A pattern is a row of items, each one letter of a class or any number of them. Whether two patterns
have a word in common is decided on the patterns, given a test whether two classes meet. -/
namespace Tunlit.Lib.Patterns

variable {γ α : Type*}

inductive Item (γ : Type*)
  | one (c : γ)
  | many (c : γ)
deriving DecidableEq

def Item.isMany : Item γ → Bool
  | .one _ => false
  | .many _ => true

section

variable (has : γ → α → Prop)

/-- A word a pattern stands for. -/
inductive Reads : List (Item γ) → List α → Prop
  | done : Reads [] []
  | one {c : γ} {p : List (Item γ)} {a : α} {w : List α} (ha : has c a) (h : Reads p w) :
      Reads (.one c :: p) (a :: w)
  | stop {c : γ} {p : List (Item γ)} {w : List α} (h : Reads p w) : Reads (.many c :: p) w
  | more {c : γ} {p : List (Item γ)} {a : α} {w : List α} (ha : has c a)
      (h : Reads (.many c :: p) w) : Reads (.many c :: p) (a :: w)

variable {has}

theorem Reads.append {p q : List (Item γ)} {v w : List α} (hp : Reads has p v)
    (hq : Reads has q w) : Reads has (p ++ q) (v ++ w) := by
  induction hp with
  | done => exact hq
  | one ha _ ih => exact .one ha ih
  | stop _ ih => exact .stop ih
  | more ha _ ih => exact .more ha ih

theorem Reads.many {c : γ} {w : List α} (h : ∀ a ∈ w, has c a) : Reads has [.many c] w := by
  induction w with
  | nil => exact .stop .done
  | cons a w ih =>
    obtain ⟨ha, hw⟩ := List.forall_mem_cons.mp h
    exact .more ha (ih hw)

/-- A row of single letters. -/
theorem Reads.ones {f : α → γ} {w : List α} (h : ∀ a ∈ w, has (f a) a) :
    Reads has (w.map fun a => .one (f a)) w := by
  induction w with
  | nil => exact .done
  | cons a w ih =>
    obtain ⟨ha, hw⟩ := List.forall_mem_cons.mp h
    exact .one ha (ih hw)

theorem Reads.isMany_of_nil {p : List (Item γ)} (h : Reads has p []) :
    p.all Item.isMany = true := by
  induction p with
  | nil => rfl
  | cons item p ih =>
    cases h with
    | stop h => exact ih h

end

/-! ## Common words -/

variable (meet : γ → γ → Bool)

/-- `clash` of a pattern that begins with one letter, from `clash` of its rest. -/
def clashOne (c : γ) (rest : List (Item γ) → Bool) : List (Item γ) → Bool
  | [] => false
  | .one d :: q => meet c d && rest q
  | .many d :: q => clashOne c rest q || meet c d && rest (.many d :: q)

def clashMany (c : γ) (rest : List (Item γ) → Bool) : List (Item γ) → Bool
  | [] => rest []
  | .one d :: q => rest (.one d :: q) || meet c d && clashMany c rest q
  | .many d :: q => rest (.many d :: q) || clashMany c rest q

/-- Whether two patterns have a word in common. -/
def clash : List (Item γ) → List (Item γ) → Bool
  | [] => fun q => q.all Item.isMany
  | .one c :: p => clashOne meet c (clash p)
  | .many c :: p => clashMany meet c (clash p)

variable {meet} {has : γ → α → Prop}

theorem clashMany_of_stop {c : γ} {rest : List (Item γ) → Bool} {q : List (Item γ)}
    (h : rest q = true) : clashMany meet c rest q = true := by
  rcases q with - | ⟨d | d, q⟩ <;> simp [clashMany, h]

variable (hmeet : ∀ c d a, has c a → has d a → meet c d = true)
include hmeet

theorem clashOne_of_reads {c : γ} {rest : List (Item γ) → Bool} {a : α} {v : List α}
    (ha : has c a) (hrest : ∀ q, Reads has q v → rest q = true) :
    ∀ q, Reads has q (a :: v) → clashOne meet c rest q = true
  | [], h => by cases h
  | .one d :: q, h => by
    cases h with
    | one hd h =>
      rw [clashOne, hmeet c d a ha hd, hrest q h]
      rfl
  | .many d :: q, h => by
    rw [clashOne]
    cases h with
    | stop h => rw [clashOne_of_reads ha hrest q h, Bool.true_or]
    | more hd h => rw [hmeet c d a ha hd, hrest _ h, Bool.true_and, Bool.or_true]

theorem clashMany_of_reads {c : γ} {p : List (Item γ)} {rest : List (Item γ) → Bool}
    (hrest : ∀ q w, Reads has p w → Reads has q w → rest q = true) {q : List (Item γ)}
    {w : List α} (hp : Reads has (.many c :: p) w) (hq : Reads has q w) :
    clashMany meet c rest q = true := by
  -- The word gets shorter where both patterns stay, the second pattern where it moves on.
  induction hq with
  | done =>
    cases hp with
    | stop hp => exact hrest [] [] hp .done
  | @one d q a w hd hq ih =>
    cases hp with
    | stop hp => exact clashMany_of_stop (hrest _ _ hp (.one hd hq))
    | more ha hp =>
      rw [clashMany, hmeet c d a ha hd, ih hp, Bool.true_and, Bool.or_true]
  | @stop d q w hq ih => rw [clashMany, ih hp, Bool.or_true]
  | @more d q a w hd hq ih =>
    cases hp with
    | stop hp => exact clashMany_of_stop (hrest _ _ hp (.more hd hq))
    | more ha hp => exact ih hp

theorem clash_of_reads : ∀ {p q : List (Item γ)} {w : List α}, Reads has p w → Reads has q w →
    clash meet p q = true
  | [], _, _, .done, hq => hq.isMany_of_nil
  | .one _ :: _, q, _, .one ha hp, hq =>
    clashOne_of_reads hmeet ha (fun _ h => clash_of_reads hp h) q hq
  | .many _ :: _, _, _, hp, hq =>
    clashMany_of_reads hmeet (fun _ _ hp hq => clash_of_reads hp hq) hp hq

end Tunlit.Lib.Patterns
