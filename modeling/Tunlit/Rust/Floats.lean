import Mathlib.Algebra.Order.Field.Power
import Mathlib.Data.Rat.Floor
import Mathlib.Tactic.Linarith
import Mathlib.Tactic.NormNum
import Mathlib.Tactic.Positivity
import Mathlib.Tactic.Ring
import Tunlit.Js.Text

/-! # Numbers of type f64

A finite `f64` as the rational that it stands for, where both zeros are one. What an operation
gives is the exact result, rounded to the next `f64`, ties to even. -/
namespace Tunlit.Rust.Floats
open Tunlit.Js.Text

/-- What 53 bits hold at some power of two. -/
def Representable (q : ℚ) : Prop := ∃ n e : ℤ, |n| ≤ 2 ^ 53 ∧ -1074 ≤ e ∧ q = n * 2 ^ e

structure Double where
  value : ℚ
  representable : Representable value
  bounded : |value| < 2 ^ 1024

inductive F64
  | nan
  | inf (negative : Bool)
  | finite (x : Double)

/-! ## Rounding -/

theorem roundHalfEven_le {q : ℚ} {n : ℤ} (h : q ≤ n) : roundHalfEven q ≤ n := by
  have hlow : (q.floor : ℚ) ≤ q := Int.floor_le q
  unfold roundHalfEven
  by_cases heq : q = n
  · simp [heq]
  · have hlt : q.floor < n := by
      exact_mod_cast lt_of_le_of_lt hlow (lt_of_le_of_ne h heq)
    dsimp only
    split
    · exact hlt.le
    · exact hlt

theorem le_roundHalfEven {q : ℚ} {n : ℤ} (h : (n : ℚ) ≤ q) : n ≤ roundHalfEven q := by
  have hlow : n ≤ q.floor := Int.le_floor.mpr h
  unfold roundHalfEven
  dsimp only
  split
  · exact hlow
  · exact hlow.trans (by omega)

theorem floorLog_spec {n d : ℕ} (hn : n ≠ 0) (hd : d ≠ 0) :
    (2 : ℚ) ^ floorLog n d ≤ n / d ∧ (n / d : ℚ) < 2 ^ (floorLog n d + 1) := by
  have hd' : (0 : ℚ) < d := by exact_mod_cast Nat.pos_of_ne_zero hd
  have hn1 : (2 : ℚ) ^ (n.log2 : ℤ) ≤ n := by exact_mod_cast Nat.log2_self_le hn
  have hn2 : (n : ℚ) < 2 ^ ((n.log2 : ℤ) + 1) := by exact_mod_cast Nat.lt_log2_self
  have hd1 : (2 : ℚ) ^ (d.log2 : ℤ) ≤ d := by exact_mod_cast Nat.log2_self_le hd
  have hd2 : (d : ℚ) < 2 ^ ((d.log2 : ℤ) + 1) := by exact_mod_cast Nat.lt_log2_self
  have hupper : (n / d : ℚ) < 2 ^ ((n.log2 : ℤ) - d.log2 + 1) := by
    rw [div_lt_iff₀ hd']
    calc (n : ℚ) < 2 ^ ((n.log2 : ℤ) + 1) := hn2
      _ = 2 ^ ((n.log2 : ℤ) - d.log2 + 1) * 2 ^ (d.log2 : ℤ) := by
        rw [← zpow_add₀ two_ne_zero]
        congr 1
        ring
      _ ≤ 2 ^ ((n.log2 : ℤ) - d.log2 + 1) * d := by gcongr
  have hlower : (2 : ℚ) ^ ((n.log2 : ℤ) - d.log2 - 1) ≤ n / d := by
    rw [le_div_iff₀ hd']
    calc (2 : ℚ) ^ ((n.log2 : ℤ) - d.log2 - 1) * d
        ≤ 2 ^ ((n.log2 : ℤ) - d.log2 - 1) * 2 ^ ((d.log2 : ℤ) + 1) := by gcongr
      _ = 2 ^ (n.log2 : ℤ) := by
        rw [← zpow_add₀ two_ne_zero]
        congr 1
        ring
      _ ≤ n := hn1
  unfold floorLog
  dsimp only
  split
  · next h => exact ⟨h, hupper⟩
  · next h => exact ⟨hlower, by simpa using h⟩

/-- A number other than zero is rounded to a multiple of a power of two: the one that leaves it
53 bits, unless it is too small for this. -/
theorem toDouble_eq {q : ℚ} (hq : q ≠ 0) : ∃ e : ℤ, -1074 ≤ e ∧ |q| < 2 ^ (e + 53) ∧
    (e = -1074 ∨ 2 ^ (e + 52) ≤ |q|) ∧ toDouble q = roundHalfEven (q / 2 ^ e) * 2 ^ e := by
  have habs : |q| = q.num.natAbs / q.den := by
    rw [Rat.abs_def, Rat.divInt_eq_div, Int.cast_natCast, Int.cast_natCast]
  obtain ⟨hlow, hhigh⟩ := floorLog_spec (Int.natAbs_ne_zero.mpr (Rat.num_ne_zero.mpr hq)) q.den_nz
  rw [← habs] at hlow hhigh
  refine ⟨max (-1074) (floorLog q.num.natAbs q.den - 52), le_max_left _ _, ?_, ?_, ?_⟩
  · exact hhigh.trans_le (zpow_le_zpow_right₀ one_le_two (by omega))
  · rcases le_total (floorLog q.num.natAbs q.den - 52) (-1074) with h | h
    · exact .inl (max_eq_left h)
    · rw [max_eq_right h, sub_add_cancel]
      exact .inr hlow
  · rw [toDouble, if_neg hq]

theorem toDouble_representable (q : ℚ) : Representable (toDouble q) := by
  by_cases hq : q = 0
  · exact ⟨0, 0, by simp, by norm_num, by simp [toDouble, hq]⟩
  obtain ⟨e, he, hlt, -, heq⟩ := toDouble_eq hq
  have hpos : (0 : ℚ) < 2 ^ e := by positivity
  have hquot : |q / 2 ^ e| ≤ ((2 ^ 53 : ℤ) : ℚ) := by
    rw [abs_div, abs_of_pos hpos, div_le_iff₀ hpos]
    rw [zpow_add₀ two_ne_zero, mul_comm] at hlt
    exact_mod_cast hlt.le
  obtain ⟨hlow, hhigh⟩ := abs_le.mp hquot
  refine ⟨roundHalfEven (q / 2 ^ e), e, abs_le.mpr ⟨?_, roundHalfEven_le hhigh⟩, he, heq⟩
  exact le_roundHalfEven (by exact_mod_cast hlow)

/-- The multiples of a power of two that are at a number, or at the power of two below it. -/
theorem exists_mul_zpow {n e f : ℤ} (h : f ≤ e) : ((n * 2 ^ (e - f).toNat : ℤ) : ℚ) * 2 ^ f =
    n * 2 ^ e := by
  rw [Int.cast_mul, Int.cast_pow, Int.cast_ofNat, mul_assoc, ← zpow_natCast, ← zpow_add₀ two_ne_zero,
    Int.toNat_of_nonneg (by omega), sub_add_cancel]

theorem zpow_add_52 (e : ℤ) : (2 : ℚ) ^ (e + 52) = ((2 ^ 52 : ℤ) : ℚ) * 2 ^ e := by
  rw [add_comm, zpow_add₀ two_ne_zero]
  norm_num

/-- Smaller steps do not reach beyond the power of two that larger ones begin at. -/
theorem mul_zpow_le {n e f : ℤ} (hn : |n| ≤ 2 ^ 53) (h : f < e) : (n : ℚ) * 2 ^ f ≤ 2 ^ (e + 52) := by
  calc (n : ℚ) * 2 ^ f ≤ 2 ^ (53 : ℤ) * 2 ^ f := by
        gcongr
        exact_mod_cast (le_abs_self n).trans hn
    _ = 2 ^ (53 + f) := (zpow_add₀ two_ne_zero _ _).symm
    _ ≤ 2 ^ (e + 52) := zpow_le_zpow_right₀ one_le_two (by omega)

theorem toDouble_le {q m : ℚ} (hm : Representable m) (h0 : 0 ≤ q) (h : q ≤ m) :
    toDouble q ≤ m := by
  rcases h0.eq_or_lt with rfl | hpos
  · simpa [toDouble] using h
  obtain ⟨e, he, hlt, hcase, heq⟩ := toDouble_eq hpos.ne'
  obtain ⟨n, f, hn, hf, rfl⟩ := hm
  have hunit : (0 : ℚ) < 2 ^ e := by positivity
  have round_le : ∀ k : ℤ, q ≤ k * 2 ^ e → toDouble q ≤ k * 2 ^ e := by
    intro k hk
    rw [heq]
    gcongr
    exact_mod_cast roundHalfEven_le ((div_le_iff₀ hunit).mpr hk)
  rcases le_or_gt e f with hef | hfe
  · rw [← exists_mul_zpow hef] at h ⊢
    exact round_le _ h
  · -- the bound and the number are both the power of two where the number's steps begin
    have hlow : (2 : ℚ) ^ (e + 52) ≤ q := by
      rw [abs_of_pos hpos] at hcase
      exact hcase.resolve_left (by omega)
    have hbound := mul_zpow_le hn hfe
    have hround := round_le _ ((h.trans hbound).trans_eq (zpow_add_52 e))
    rw [← zpow_add_52] at hround
    linarith

theorem le_toDouble {q m : ℚ} (hm : Representable m) (h0 : 0 ≤ m) (h : m ≤ q) :
    m ≤ toDouble q := by
  rcases (h0.trans h).eq_or_lt with rfl | hpos
  · simpa [toDouble] using h
  obtain ⟨e, he, hlt, hcase, heq⟩ := toDouble_eq hpos.ne'
  obtain ⟨n, f, hn, hf, rfl⟩ := hm
  have hunit : (0 : ℚ) < 2 ^ e := by positivity
  have le_round : ∀ k : ℤ, k * 2 ^ e ≤ q → k * 2 ^ e ≤ toDouble q := by
    intro k hk
    rw [heq]
    gcongr
    exact_mod_cast le_roundHalfEven ((le_div_iff₀ hunit).mpr hk)
  rcases le_or_gt e f with hef | hfe
  · rw [← exists_mul_zpow hef] at h ⊢
    exact le_round _ h
  · have hlow : (2 : ℚ) ^ (e + 52) ≤ q := by
      rw [abs_of_pos hpos] at hcase
      exact hcase.resolve_left (by omega)
    have hbound := mul_zpow_le hn hfe
    have hround := le_round _ ((zpow_add_52 e).symm.trans_le hlow)
    rw [← zpow_add_52] at hround
    exact hbound.trans hround

/-- Below a power of two there is a largest number that 53 bits hold. -/
theorem Representable.le_of_lt {q : ℚ} {k : ℤ} (h : Representable q) (hlt : q < 2 ^ k) :
    q ≤ 2 ^ k - 2 ^ (k - 53) := by
  obtain ⟨n, e, hn, -, rfl⟩ := h
  rcases le_or_gt (k - 53) e with hke | hek
  · rw [← exists_mul_zpow hke] at hlt ⊢
    have hpow : (2 : ℚ) ^ k = ((2 ^ 53 : ℤ) : ℚ) * 2 ^ (k - 53) := by
      rw [zpow_sub₀ two_ne_zero]
      norm_num
      field_simp
    have hunit : (0 : ℚ) < 2 ^ (k - 53) := by positivity
    rw [hpow] at hlt ⊢
    have hint : n * 2 ^ (e - (k - 53)).toNat + 1 ≤ 2 ^ 53 := by
      exact_mod_cast lt_of_mul_lt_mul_right hlt hunit.le
    have hcast : ((n * 2 ^ (e - (k - 53)).toNat : ℤ) : ℚ) + 1 ≤ ((2 ^ 53 : ℤ) : ℚ) := by
      exact_mod_cast hint
    nlinarith
  · have hbound := mul_zpow_le hn hek
    have hhalf : (2 : ℚ) ^ (k - 53 + 52) = 2 ^ k / 2 := by
      rw [show k - 53 + 52 = k - 1 by ring, zpow_sub_one₀ two_ne_zero, div_eq_mul_inv]
    have hsmall : (2 : ℚ) ^ (k - 53) ≤ 2 ^ (k - 1) := zpow_le_zpow_right₀ one_le_two (by omega)
    rw [zpow_sub_one₀ two_ne_zero] at hsmall
    linarith

/-! ## The operations -/

namespace F64

def round (q : ℚ) : F64 :=
  if h : |toDouble q| < 2 ^ 1024 then .finite ⟨toDouble q, toDouble_representable q, h⟩
  else .inf (q < 0)

/-- A number written in digits, or one of the words. -/
def unsigned (text : List Char) : Option F64 :=
  match String.ofList (text.map Char.toLower) with
  | "inf" | "infinity" => some (.inf false)
  | "nan" => some .nan
  | _ => (decimalLiteral text).map round

def neg : F64 → F64
  | .nan => .nan
  | .inf negative => .inf !negative
  | .finite x => round (-x.value)

/-- `text.parse::<f64>()` -/
def parse (text : List Char) : Option F64 :=
  match text with
  | '-' :: rest => (unsigned rest).map neg
  | '+' :: rest => unsigned rest
  | _ => unsigned text

def lt : F64 → F64 → Bool
  | .nan, _ | _, .nan => false
  | .inf a, .inf b => a && !b
  | .inf a, .finite _ => a
  | .finite _, .inf b => !b
  | .finite x, .finite y => x.value < y.value

def le : F64 → F64 → Bool
  | .nan, _ | _, .nan => false
  | .inf a, .inf b => a || !b
  | .inf a, .finite _ => a
  | .finite _, .inf b => !b
  | .finite x, .finite y => x.value ≤ y.value

def add : F64 → F64 → F64
  | .nan, _ | _, .nan => .nan
  | .inf a, .inf b => if a = b then .inf a else .nan
  | .inf a, .finite _ | .finite _, .inf a => .inf a
  | .finite x, .finite y => round (x.value + y.value)

def mul : F64 → F64 → F64
  | .nan, _ | _, .nan => .nan
  | .inf a, .inf b => .inf (a != b)
  | .inf a, .finite x | .finite x, .inf a =>
    if x.value = 0 then .nan else .inf (a != decide (x.value < 0))
  | .finite x, .finite y => round (x.value * y.value)

def div : F64 → F64 → F64
  | .nan, _ | _, .nan | .inf _, .inf _ => .nan
  | .inf a, .finite x => .inf (a != decide (x.value < 0))
  | .finite _, .inf _ => round 0
  | .finite x, .finite y =>
    if y.value = 0 then if x.value = 0 then .nan else .inf (x.value < 0)
    else round (x.value / y.value)

/-- `x.round()`, away from zero in the middle -/
def nearest : F64 → F64
  | .nan => .nan
  | .inf a => .inf a
  | .finite x => round (if x.value < 0 then -⌊1 / 2 - x.value⌋ else ⌊x.value + 1 / 2⌋)

/-- `x as u64` -/
def toU64 : F64 → ℕ
  | .nan | .inf true => 0
  | .inf false => 2 ^ 64 - 1
  | .finite x => min ⌊x.value⌋.toNat (2 ^ 64 - 1)

/-- What lies between two numbers that need no rounding stays there when it is rounded. -/
theorem round_between {low high q : ℚ} (hlow : Representable low) (hhigh : Representable high)
    (h0 : 0 ≤ low) (hq : low ≤ q ∧ q ≤ high) (hmax : high ≤ 2 ^ 64) :
    ∃ x, round q = .finite x ∧ low ≤ x.value ∧ x.value ≤ high := by
  have h1 := le_toDouble hlow h0 hq.1
  have h2 := toDouble_le hhigh (h0.trans hq.1) hq.2
  have hbounded : |toDouble q| < 2 ^ 1024 := by
    rw [abs_of_nonneg (h0.trans h1)]
    exact (h2.trans hmax).trans_lt (pow_lt_pow_right₀ one_lt_two (by omega))
  exact ⟨⟨toDouble q, toDouble_representable q, hbounded⟩, dif_pos hbounded, h1, h2⟩

end F64

end Tunlit.Rust.Floats
