import Mathlib.Algebra.BigOperators.Intervals
import Mathlib.Algebra.Order.BigOperators.Group.Finset
import Mathlib.Algebra.Order.Field.Basic
import Mathlib.Order.Interval.Finset.Nat
import Mathlib.Tactic.Linarith
import Mathlib.Tactic.NormNum

/-! # When a shape lets a chunk go

`Shape::lose` and `Shape::release` of `shape.rs`, with times and lengths in an ordered field in
place of the clock's nanoseconds. The chunks of a queue share one `last`. -/
namespace Tunlit.Client.Shapes

variable {K : Type} [Field K] [LinearOrder K]

/-- `Shape::parse` refuses a negative duration and a bandwidth below one byte a second. -/
structure Shape (K : Type) [Field K] [LinearOrder K] where
  latency : K
  jitter : K
  bandwidth : Option ℕ
  loss : K
  latency_nonneg : 0 ≤ latency
  jitter_nonneg : 0 ≤ jitter
  bandwidth_pos : ∀ bytes ∈ bandwidth, 0 < bytes

/-- What `fastrand::f64` gives. -/
structure Draw (K : Type) [Field K] [LinearOrder K] where
  value : K
  nonneg : 0 ≤ value
  lt_one : value < 1

/-- A chunk of a queue: when it came and its length, and the draws that `release` makes for it. -/
structure Chunk (K : Type) [Field K] [LinearOrder K] where
  arrived : K
  len : ℕ
  jitter : Draw K
  loss : Draw K

def minStall : K := 1 / 5

def Shape.lose (shape : Shape K) (draw : Draw K) : Bool := 0 < shape.loss && draw.value < shape.loss

/-- The time of a chunk, which is the next `last`. -/
def Shape.release (shape : Shape K) (chunk : Chunk K) (stall : Bool) (last : K) : K :=
  let jitter := chunk.jitter.value * shape.jitter
  let due := chunk.arrived + shape.latency + jitter
  let due := if stall && shape.lose chunk.loss then due + max (shape.latency * 3) minStall else due
  let due := max due last
  match shape.bandwidth with
  | none => due
  | some bytes => due + chunk.len / bytes

section

variable (shape : Shape K) (stall : Bool) (chunks : ℕ → Chunk K) (start : K)

/-- `last` of the queue before its `n`-th chunk; `start` is when the queue was made. -/
def lastBefore : ℕ → K
  | 0 => start
  | n + 1 => shape.release (chunks n) stall (lastBefore n)

def released (n : ℕ) : K := shape.release (chunks n) stall (lastBefore shape stall chunks start n)

end

/-! ## One chunk -/

section

variable [IsStrictOrderedRing K] (shape : Shape K) (chunk : Chunk K) (stall : Bool) (last : K)

theorem minStall_pos : (0 : K) < minStall := by
  unfold minStall
  positivity

theorem jitter_draw_nonneg : 0 ≤ chunk.jitter.value * shape.jitter :=
  mul_nonneg chunk.jitter.nonneg shape.jitter_nonneg

theorem jitter_draw_le : chunk.jitter.value * shape.jitter ≤ shape.jitter :=
  mul_le_of_le_one_left shape.jitter_nonneg chunk.jitter.lt_one.le

/-- The time before the bandwidth counts. -/
def Shape.due : K :=
  max (chunk.arrived + shape.latency + chunk.jitter.value * shape.jitter +
    if stall && shape.lose chunk.loss then max (shape.latency * 3) minStall else 0) last

omit [IsStrictOrderedRing K] in
theorem release_eq : shape.release chunk stall last =
    shape.due chunk stall last + (shape.bandwidth.elim 0 fun bytes => (chunk.len : K) / bytes) := by
  unfold Shape.release Shape.due
  cases shape.bandwidth <;> split <;> simp

theorem cost_nonneg :
    0 ≤ (shape.bandwidth.elim 0 fun bytes => (chunk.len : K) / bytes) := by
  cases shape.bandwidth with
  | none => exact le_refl 0
  | some bytes => exact div_nonneg (Nat.cast_nonneg _) (Nat.cast_nonneg _)

theorem due_le_release : shape.due chunk stall last ≤ shape.release chunk stall last := by
  rw [release_eq]
  exact le_add_of_nonneg_right (cost_nonneg shape chunk)

theorem last_le_release : last ≤ shape.release chunk stall last :=
  (le_max_right _ _).trans (due_le_release shape chunk stall last)

theorem latency_le_release : chunk.arrived + shape.latency ≤ shape.release chunk stall last := by
  have hstall : (0 : K) ≤ if stall && shape.lose chunk.loss then
      max (shape.latency * 3) minStall else 0 := by
    split
    · exact minStall_pos.le.trans (le_max_right _ _)
    · exact le_refl 0
  refine le_trans ?_ ((le_max_left _ _).trans (due_le_release shape chunk stall last))
  linarith [jitter_draw_nonneg shape chunk]

/-- The maximum with `last` stands before the bandwidth is counted, so a chunk costs its time
whether it had to wait or not. -/
theorem len_le_release {bytes : ℕ} (h : bytes ∈ shape.bandwidth) :
    (chunk.len : K) ≤ bytes * (shape.release chunk stall last - last) := by
  have hb : (0 : K) < bytes := by exact_mod_cast shape.bandwidth_pos bytes h
  have hcost : last + chunk.len / bytes ≤ shape.release chunk stall last := by
    rw [release_eq, Option.mem_def.mp h, Option.elim_some]
    exact add_le_add_left (le_max_right _ _) _
  rw [← div_le_iff₀' hb]
  linarith

theorem release_le_of_plain (hbandwidth : shape.bandwidth = none) (hloss : shape.loss = 0) :
    shape.release chunk stall last ≤ max (chunk.arrived + shape.latency + shape.jitter) last := by
  have hkept : shape.lose chunk.loss = false := by simp [Shape.lose, hloss]
  rw [release_eq, hbandwidth, Option.elim_none, add_zero, Shape.due, hkept, Bool.and_false,
    if_neg Bool.false_ne_true, add_zero]
  exact max_le_max_right _ (add_le_add_right (jitter_draw_le shape chunk) _)

end

/-! ## A whole queue -/

/-- Weights that each gap makes up for, over any stretch of a sequence. -/
theorem sum_Ioc_le {w t : ℕ → K} [IsStrictOrderedRing K] (h : ∀ n, w (n + 1) ≤ t (n + 1) - t n)
    {i j : ℕ} (hij : i ≤ j) : ∑ k ∈ Finset.Ioc i j, w k ≤ t j - t i := by
  induction j, hij using Nat.le_induction with
  | base => simp
  | succ j hij ih =>
    rw [Finset.sum_Ioc_succ_top hij]
    linarith [h j]

variable [IsStrictOrderedRing K]

/-- Order is kept, nothing comes before its latency, no run of chunks is faster than the bandwidth,
and where neither bandwidth nor loss is set nothing waits longer than it has to. -/
theorem released_paced (shape : Shape K) (stall : Bool) (chunks : ℕ → Chunk K) (start : K) :
    Monotone (released shape stall chunks start) ∧
      (∀ n, (chunks n).arrived + shape.latency ≤ released shape stall chunks start n) ∧
      (∀ bytes ∈ shape.bandwidth, ∀ i j, i ≤ j → ∑ k ∈ Finset.Ioc i j, ((chunks k).len : K) ≤
        bytes * (released shape stall chunks start j - released shape stall chunks start i)) ∧
      (shape.bandwidth = none → shape.loss = 0 → ∀ n, released shape stall chunks start n ≤
        max ((chunks n).arrived + shape.latency + shape.jitter)
          (lastBefore shape stall chunks start n)) := by
  refine ⟨monotone_nat_of_le_succ fun n => last_le_release _ _ _ _,
    fun n => latency_le_release _ _ _ _, fun bytes hb i j hij => ?_,
    fun hbandwidth hloss n => release_le_of_plain _ _ _ _ hbandwidth hloss⟩
  rw [mul_sub]
  refine sum_Ioc_le (t := fun n => bytes * released shape stall chunks start n) (fun n => ?_) hij
  show ((chunks (n + 1)).len : K) ≤ _ - _
  rw [← mul_sub]
  exact len_le_release shape _ stall _ hb

def slow : Shape ℚ where
  latency := 1 / 5
  jitter := 1 / 20
  bandwidth := some 64000
  loss := 1 / 50
  latency_nonneg := by norm_num
  jitter_nonneg := by norm_num
  bandwidth_pos := by simp

def steady (n : ℕ) : Chunk ℚ where
  arrived := n / 100
  len := 1400
  jitter := ⟨1 / 2, by norm_num, by norm_num⟩
  loss := ⟨1 / 100, by norm_num, by norm_num⟩

theorem released_paced_steady : Monotone (released slow true steady 0) :=
  (released_paced slow true steady 0).1

end Tunlit.Client.Shapes
