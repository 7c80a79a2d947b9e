import Tunlit.Lib.Utf8

/-! # Percent-encoding

Texts in which a byte may stand as `%` and two hexadecimal digits, after the URL Standard. -/
namespace Tunlit.Lib.Percent
open Tunlit.Lib.Utf8

def isDigit (c : Char) : Bool := '0' ≤ c && c ≤ '9'
def isUpperHex (c : Char) : Bool := isDigit c || ('A' ≤ c && c ≤ 'F')
def isAlnum (c : Char) : Bool := isDigit c || ('a' ≤ c && c ≤ 'z') || ('A' ≤ c && c ≤ 'Z')

def hexDigit (n : Nat) : Char := if n < 10 then Char.ofNat (n + 0x30) else Char.ofNat (n + 0x37)

def hexValue (c : Char) : Option Nat :=
  if isDigit c then some (c.toNat - 0x30)
  else if 'A' ≤ c && c ≤ 'F' then some (c.toNat - 0x37)
  else if 'a' ≤ c && c ≤ 'f' then some (c.toNat - 0x57)
  else none

/-- The byte that `%` and two digits stand for. -/
def escaped (a b : Char) : Option UInt8 :=
  match hexValue a, hexValue b with
  | some x, some y => some (UInt8.ofNat (x * 16 + y))
  | _, _ => none

def decode : List Char → List UInt8
  | '%' :: a :: b :: text =>
    match escaped a b with
    | some byte => byte :: decode text
    | none => 0x25 :: decode (a :: b :: text)
  | c :: text => String.utf8EncodeChar c ++ decode text
  | [] => []

def escape (b : UInt8) : List Char := ['%', hexDigit (b.toNat / 16), hexDigit (b.toNat % 16)]

/-- A byte, escaped where it is of the set. -/
def encodeByte (set : Char → Bool) (b : UInt8) : List Char :=
  if set (Char.ofNat b.toNat) then escape b else [Char.ofNat b.toNat]

def encode (set : Char → Bool) (text : List Char) : List Char :=
  (Utf8.encode text).flatMap (encodeByte set)

/-! ## Reading back -/

theorem escaped_digits (b : UInt8) :
    escaped (hexDigit (b.toNat / 16)) (hexDigit (b.toNat % 16)) = some b := by
  have key : ∀ n < 256, escaped (hexDigit (n / 16)) (hexDigit (n % 16)) = some (UInt8.ofNat n) := by
    decide +kernel
  have h := key b.toNat b.toNat_lt
  simpa using h

theorem decode_escape (b : UInt8) (text : List Char) :
    decode (escape b ++ text) = b :: decode text := by
  simp only [escape, List.cons_append, List.nil_append, decode, escaped_digits]

theorem decode_cons {c : Char} (h : c ≠ '%') (text : List Char) :
    decode (c :: text) = String.utf8EncodeChar c ++ decode text := by
  rw [decode]
  intro a b rest hc
  exact absurd hc h

/-- The bytes of the characters that are no escapes. -/
theorem encodeChar_byte {b : UInt8} (h : b.toNat < 0x80) :
    String.utf8EncodeChar (Char.ofNat b.toNat) = [b] := by
  have key : ∀ n < 128, String.utf8EncodeChar (Char.ofNat n) = [UInt8.ofNat n] := by
    decide
  simpa using key b.toNat h

end Tunlit.Lib.Percent
