import Tunlit.Rust.Floats

/-! # Durations and instants

A `Duration` and an `Instant` as nanoseconds. What is out of their range panics, which is `none`
here. The last instant of the clock is `limit`. -/
namespace Tunlit.Rust.Durations
open Tunlit.Js.Text (roundHalfEven)
open Tunlit.Rust.Floats

structure Duration where
  nanos : ℕ
  bounded : nanos < 2 ^ 64 * 10 ^ 9

abbrev Instant (limit : ℕ) := { nanos : ℕ // nanos ≤ limit }

def nearestNanos (x : Double) : ℕ := (roundHalfEven (x.value * 10 ^ 9)).toNat

/-- `as_secs_f64` of so many nanoseconds. -/
def nanosAsSecs (nanos : ℕ) : F64 :=
  (F64.round (nanos / 10 ^ 9 : ℕ)).add
    ((F64.round (nanos % 10 ^ 9 : ℕ)).div (F64.round (10 ^ 9 : ℕ)))

namespace Duration

def ofNanos (nanos : ℕ) : Option Duration :=
  if h : nanos < 2 ^ 64 * 10 ^ 9 then some ⟨nanos, h⟩ else none

def zero : Duration := ⟨0, by norm_num⟩

/-- `Duration::from_secs_f64` -/
def fromSecsF64 : F64 → Option Duration
  | .nan | .inf _ => none
  | .finite x => if 0 ≤ x.value ∧ x.value < 2 ^ 64 then ofNanos (nearestNanos x) else none

def asSecsF64 (d : Duration) : F64 := nanosAsSecs d.nanos

def mul (d : Duration) (n : ℕ) : Option Duration := ofNanos (d.nanos * n)

end Duration

def Instant.add {limit : ℕ} (t : Instant limit) (d : Duration) : Option (Instant limit) :=
  if h : t.val + d.nanos ≤ limit then some ⟨t.val + d.nanos, h⟩ else none

theorem Instant.add_of_le {limit : ℕ} {t : Instant limit} {d : Duration}
    (h : t.val + d.nanos ≤ limit) : t.add d = some ⟨t.val + d.nanos, h⟩ := dif_pos h

theorem Instant.add_of_lt {limit : ℕ} {t : Instant limit} {d : Duration}
    (h : limit < t.val + d.nanos) : t.add d = none := dif_neg (not_le.mpr h)

/-! ## The range of a duration -/

theorem representable_zero : Representable 0 := ⟨0, 0, by norm_num, by norm_num, by norm_num⟩

theorem representable_nat {n : ℕ} (h : n ≤ 2 ^ 53) : Representable n :=
  ⟨n, 0, by rw [abs_of_nonneg (by positivity)]; exact_mod_cast h, by norm_num, by simp⟩

theorem representable_mul_pow {n k : ℕ} (h : n ≤ 2 ^ 53) : Representable (n * 2 ^ k : ℕ) :=
  ⟨n, k, by rw [abs_of_nonneg (by positivity)]; exact_mod_cast h, by omega, by
    push_cast
    rw [zpow_natCast]⟩

theorem nearestNanos_le {x : Double} {n : ℕ} (h : x.value ≤ n) : nearestNanos x ≤ n * 10 ^ 9 := by
  have hscaled : x.value * 10 ^ 9 ≤ ((n * 10 ^ 9 : ℕ) : ℤ) := by
    push_cast
    exact mul_le_mul_of_nonneg_right h (by norm_num)
  have := roundHalfEven_le hscaled
  unfold nearestNanos
  omega

/-- The seconds of a duration that was made from an `f64` stay below the last `f64` before
`2 ^ 64`. -/
theorem fromSecsF64_of_lt {x : Double} (h0 : 0 ≤ x.value) (h : x.value < 2 ^ 64) :
    ∃ d, Duration.fromSecsF64 (.finite x) = some d ∧ d.nanos = nearestNanos x ∧
      d.nanos ≤ (2 ^ 64 - 2 ^ 11) * 10 ^ 9 := by
  have hle : x.value ≤ ((2 ^ 64 - 2 ^ 11 : ℕ) : ℚ) := by
    have := x.representable.le_of_lt (k := 64) (by exact_mod_cast h)
    norm_num at this ⊢
    exact this
  have hnanos := nearestNanos_le hle
  have hbounded : nearestNanos x < 2 ^ 64 * 10 ^ 9 := by omega
  exact ⟨⟨nearestNanos x, hbounded⟩, by
    rw [Duration.fromSecsF64, if_pos ⟨h0, h⟩, Duration.ofNanos, dif_pos hbounded], rfl, hnanos⟩

theorem nanosAsSecs_le {nanos : ℕ} (h : nanos ≤ (2 ^ 64 - 2 ^ 11) * 10 ^ 9) :
    ∃ x, nanosAsSecs nanos = .finite x ∧ 0 ≤ x.value ∧ x.value ≤ 2 ^ 64 := by
  obtain ⟨secs, hsecs, hsecs0, hsecs1⟩ := F64.round_between (q := (nanos / 10 ^ 9 : ℕ)) representable_zero
    (representable_mul_pow (n := 2 ^ 53 - 1) (k := 11) (by norm_num)) (le_refl _)
    ⟨Nat.cast_nonneg _, by exact_mod_cast (by omega)⟩ (by norm_num)
  obtain ⟨part, hpart, hpart0, hpart1⟩ := F64.round_between (q := (nanos % 10 ^ 9 : ℕ)) representable_zero
    (representable_nat (n := 10 ^ 9) (by norm_num)) (le_refl _)
    ⟨Nat.cast_nonneg _, by exact_mod_cast (by omega)⟩ (by norm_num)
  obtain ⟨unit, hunit, hunit0, hunit1⟩ := F64.round_between (q := (10 ^ 9 : ℕ))
    (representable_nat (n := 10 ^ 9) (by norm_num)) (representable_nat (n := 10 ^ 9) (by norm_num))
    (by norm_num) ⟨le_refl _, le_refl _⟩ (by norm_num)
  have hunit' : unit.value = 10 ^ 9 := by exact_mod_cast le_antisymm hunit1 hunit0
  obtain ⟨tail, htail, htail0, htail1⟩ := F64.round_between (q := part.value / unit.value) representable_zero
    (representable_nat (n := 1) (by norm_num)) (le_refl _)
    ⟨by rw [hunit']; positivity, by
      rw [hunit', Nat.cast_one, div_le_one (by norm_num)]
      exact_mod_cast hpart1⟩ (by norm_num)
  obtain ⟨x, hx, hx0, hx1⟩ := F64.round_between (q := secs.value + tail.value) representable_zero
    (representable_mul_pow (n := 2 ^ 53) (k := 11) (by norm_num)) (le_refl _)
    ⟨by positivity, by
      norm_num at hsecs1 htail1 ⊢
      linarith⟩ (by norm_num)
  refine ⟨x, ?_, hx0, ?_⟩
  · rw [nanosAsSecs, hsecs, hpart, hunit, F64.div, if_neg (by rw [hunit']; norm_num), htail,
      F64.add, hx]
  · norm_num at hx1 ⊢
    exact hx1

end Tunlit.Rust.Durations
