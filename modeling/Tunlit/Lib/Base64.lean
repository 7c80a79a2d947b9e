import Mathlib.Data.List.Basic

/-! # Base64

Bytes as characters of six bits, with padding, and back. The reader takes both alphabets, passes
over every other character and drops the bits that do not fill a byte. -/
namespace Tunlit.Lib.Base64

def digit (n : ℕ) : Char :=
  if n < 26 then Char.ofNat (n + 65)
  else if n < 52 then Char.ofNat (n + 71)
  else if n < 62 then Char.ofNat (n - 4)
  else if n = 62 then '+'
  else '/'

def value (c : Char) : Option ℕ :=
  if 'A' ≤ c ∧ c ≤ 'Z' then some (c.toNat - 65)
  else if 'a' ≤ c ∧ c ≤ 'z' then some (c.toNat - 71)
  else if '0' ≤ c ∧ c ≤ '9' then some (c.toNat + 4)
  else if c = '+' ∨ c = '-' then some 62
  else if c = '/' ∨ c = '_' then some 63
  else none

/-- The sextets of some bytes, the last one filled up with zeros. -/
def sextets : List UInt8 → List ℕ
  | [] => []
  | [a] => [a.toNat / 4, a.toNat % 4 * 16]
  | [a, b] => [a.toNat / 4, a.toNat % 4 * 16 + b.toNat / 16, b.toNat % 16 * 4]
  | a :: b :: c :: rest =>
    a.toNat / 4 :: (a.toNat % 4 * 16 + b.toNat / 16) :: (b.toNat % 16 * 4 + c.toNat / 64) ::
      c.toNat % 64 :: sextets rest

def bytes : List ℕ → List UInt8
  | p :: q :: r :: s :: rest =>
    .ofNat (p * 4 + q / 16) :: .ofNat (q * 16 + r / 4) :: .ofNat (r * 64 + s) :: bytes rest
  | [p, q, r] => [.ofNat (p * 4 + q / 16), .ofNat (q * 16 + r / 4)]
  | [p, q] => [.ofNat (p * 4 + q / 16)]
  | _ => []

def padding (length : ℕ) : List Char := List.replicate ((3 - length % 3) % 3) '='

def encode (data : List UInt8) : List Char := (sextets data).map digit ++ padding data.length

def decode (text : List Char) : List UInt8 := bytes (text.filterMap value)

/-! ## The round trip -/

theorem value_digit : ∀ n < 64, value (digit n) = some n := by decide

theorem sextets_lt (data : List UInt8) : ∀ n ∈ sextets data, n < 64 := by
  induction data using sextets.induct with
  | case1 => simp [sextets]
  | case2 a =>
    have := a.toNat_lt
    simp only [sextets, List.forall_mem_cons, List.not_mem_nil, false_implies, implies_true, and_true]
    omega
  | case3 a b =>
    have := a.toNat_lt
    have := b.toNat_lt
    simp only [sextets, List.forall_mem_cons, List.not_mem_nil, false_implies, implies_true, and_true]
    omega
  | case4 a b c rest ih =>
    have := a.toNat_lt
    have := b.toNat_lt
    have := c.toNat_lt
    simp only [sextets, List.forall_mem_cons]
    exact ⟨by omega, by omega, by omega, by omega, ih⟩

theorem ofNat_eq {n : ℕ} {b : UInt8} (h : n % 256 = b.toNat) : UInt8.ofNat n = b :=
  UInt8.toNat_inj.mp (by simpa using h)

theorem bytes_sextets (data : List UInt8) : bytes (sextets data) = data := by
  induction data using sextets.induct with
  | case1 => rfl
  | case2 a =>
    have := a.toNat_lt
    simp only [sextets, bytes, List.cons.injEq, and_true]
    exact ofNat_eq (by omega)
  | case3 a b =>
    have := a.toNat_lt
    have := b.toNat_lt
    simp only [sextets, bytes, List.cons.injEq, and_true]
    exact ⟨ofNat_eq (by omega), ofNat_eq (by omega)⟩
  | case4 a b c rest ih =>
    have := a.toNat_lt
    have := b.toNat_lt
    have := c.toNat_lt
    simp only [sextets, bytes, List.cons.injEq]
    exact ⟨ofNat_eq (by omega), ofNat_eq (by omega), ofNat_eq (by omega), ih⟩

theorem filterMap_digit {l : List ℕ} (h : ∀ n ∈ l, n < 64) : (l.map digit).filterMap value = l := by
  induction l with
  | nil => rfl
  | cons n l ih =>
    obtain ⟨hn, hl⟩ := List.forall_mem_cons.mp h
    rw [List.map_cons, List.filterMap_cons_some (value_digit n hn), ih hl]

theorem decode_encode (data : List UInt8) : decode (encode data) = data := by
  have hpad : (padding data.length).filterMap value = [] := by
    rw [padding, List.filterMap_replicate]
    rfl
  rw [decode, encode, List.filterMap_append, hpad, List.append_nil,
    filterMap_digit (sextets_lt data), bytes_sextets]

end Tunlit.Lib.Base64
