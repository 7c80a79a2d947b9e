import Mathlib.Data.List.TakeWhile
import Mathlib.Tactic.NormNum
import Tunlit.Js.Text

/-! # Numbers that are spelled with digits

What `Number` makes of a run of decimal digits. -/
namespace Tunlit.Js.Numerals
open Tunlit.Js.Text

theorem trimList_of_plain {l : List Char} (h : ∀ c ∈ l, isSpace c = false) : trimList l = l := by
  have hdrop : ∀ {m : List Char}, (∀ c ∈ m, isSpace c = false) → m.dropWhile isSpace = m := by
    intro m hm
    cases m with
    | nil => rfl
    | cons c m => rw [List.dropWhile_cons_of_neg (by simp [hm c (List.mem_cons_self ..)])]
  rw [trimList, hdrop h, hdrop (by simpa using h), List.reverse_reverse]

theorem isSpace_of_isDigit {c : Char} (h : isDigit c = true) : isSpace c = false := by
  have key : ∀ n < 128, isDigit (Char.ofNat n) = true → isSpace (Char.ofNat n) = false := by
    decide
  have hlt : c.toNat < 128 := by
    simp only [isDigit, Bool.and_eq_true, decide_eq_true_eq] at h
    exact Nat.lt_of_le_of_lt (UInt32.le_iff_toNat_le.mp h.2) (by decide)
  have hc : Char.ofNat c.toNat = c := Char.ofNat_toNat c
  simpa [hc] using key c.toNat hlt (by rwa [hc])

theorem decimalLiteral_digits {digits : List Char} (hne : digits ≠ [])
    (hall : ∀ c ∈ digits, isDigit c = true) :
    decimalLiteral digits = some (toDouble (digitsValue 10 digits)) := by
  have htake : digits.takeWhile isDigit = digits := List.takeWhile_eq_self_iff.mpr hall
  have hdrop : digits.dropWhile isDigit = [] := List.dropWhile_eq_nil_iff.mpr hall
  rw [decimalLiteral, htake, hdrop]
  simp [hne, exponentPart]

/-- Small numbers are doubles. -/
theorem toDouble_of_lt : ∀ n < (256 : Nat), toDouble (n : ℚ) = n := by decide +kernel

theorem number_digits {digits : List Char} (hne : digits ≠ [])
    (hall : ∀ c ∈ digits, isDigit c = true) :
    number digits = some (toDouble (digitsValue 10 digits)) := by
  have htrim := trimList_of_plain fun c hc => isSpace_of_isDigit (hall c hc)
  rw [number, htrim]
  split
  · exact absurd rfl hne
  · exact absurd (hall 'x' (by simp)) (by decide)
  · exact absurd (hall 'X' (by simp)) (by decide)
  · exact absurd (hall 'o' (by simp)) (by decide)
  · exact absurd (hall 'O' (by simp)) (by decide)
  · exact absurd (hall 'b' (by simp)) (by decide)
  · exact absurd (hall 'B' (by simp)) (by decide)
  · exact absurd (hall '-' (by simp)) (by decide)
  · exact absurd (hall '+' (by simp)) (by decide)
  · exact decimalLiteral_digits hne hall

/-- The number that some digits stand for is read as this number. -/
theorem integer_digits {digits : List Char} (hne : digits ≠ [])
    (hall : ∀ c ∈ digits, isDigit c = true) (hlt : digitsValue 10 digits < 256) :
    (number digits).bind integer = some (digitsValue 10 digits : Int) := by
  rw [number_digits hne hall, Option.bind_some, toDouble_of_lt _ hlt]
  simp [integer]

end Tunlit.Js.Numerals
