import Mathlib.Algebra.Order.Ring.Nat

/-! # Numbers as bytes, the highest first -/
namespace Tunlit.Lib.BigEndian

/-- The lowest `k` bytes of a number, the lowest first. -/
def littleEndian : Nat → Nat → List UInt8
  | 0, _ => []
  | k + 1, n => UInt8.ofNat n :: littleEndian k (n / 256)

def readLittleEndian : List UInt8 → Nat
  | [] => 0
  | b :: bytes => b.toNat + 256 * readLittleEndian bytes

def bigEndian (k n : Nat) : List UInt8 := (littleEndian k n).reverse

def readBigEndian (bytes : List UInt8) : Nat := readLittleEndian bytes.reverse

theorem length_littleEndian (k n : Nat) : (littleEndian k n).length = k := by
  induction k generalizing n with
  | zero => rfl
  | succ k ih => rw [littleEndian, List.length_cons, ih]

@[simp] theorem length_bigEndian (k n : Nat) : (bigEndian k n).length = k := by
  rw [bigEndian, List.length_reverse, length_littleEndian]

theorem readLittleEndian_littleEndian {k n : Nat} (h : n < 256 ^ k) :
    readLittleEndian (littleEndian k n) = n := by
  induction k generalizing n with
  | zero => simp [littleEndian, readLittleEndian]; omega
  | succ k ih =>
    have hd : n / 256 < 256 ^ k := by
      rw [Nat.div_lt_iff_lt_mul (by decide)]
      rwa [Nat.pow_succ] at h
    rw [littleEndian, readLittleEndian, ih hd, UInt8.toNat_ofNat']
    omega

theorem littleEndian_readLittleEndian (bytes : List UInt8) :
    littleEndian bytes.length (readLittleEndian bytes) = bytes := by
  induction bytes with
  | nil => rfl
  | cons b bytes ih =>
    have hb := b.toNat_lt
    have hlow : UInt8.ofNat (b.toNat + 256 * readLittleEndian bytes) = b := by
      rw [← UInt8.toNat_inj, UInt8.toNat_ofNat']
      omega
    have hhigh : (b.toNat + 256 * readLittleEndian bytes) / 256 = readLittleEndian bytes := by
      omega
    rw [List.length_cons, readLittleEndian, littleEndian, hlow, hhigh, ih]

theorem readLittleEndian_lt (bytes : List UInt8) : readLittleEndian bytes < 256 ^ bytes.length := by
  induction bytes with
  | nil => exact Nat.one_pos
  | cons b bytes ih =>
    have hb := b.toNat_lt
    rw [readLittleEndian, List.length_cons, Nat.pow_succ]
    omega

theorem readBigEndian_bigEndian {k n : Nat} (h : n < 256 ^ k) :
    readBigEndian (bigEndian k n) = n := by
  rw [readBigEndian, bigEndian, List.reverse_reverse, readLittleEndian_littleEndian h]

theorem bigEndian_readBigEndian {bytes : List UInt8} {k : Nat} (h : bytes.length = k) :
    bigEndian k (readBigEndian bytes) = bytes := by
  subst h
  rw [bigEndian, readBigEndian, ← List.length_reverse, littleEndian_readLittleEndian,
    List.reverse_reverse]

theorem readBigEndian_lt {bytes : List UInt8} {k : Nat} (h : bytes.length = k) :
    readBigEndian bytes < 256 ^ k := by
  subst h
  rw [readBigEndian, ← List.length_reverse]
  exact readLittleEndian_lt _

end Tunlit.Lib.BigEndian
