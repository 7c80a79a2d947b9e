import Tunlit.Js.Text

/-! # Names, share codes and targets

`utils/ids.js`, and `parseTarget` of `lib/registry.js`. A random value is one of the form
that `randomFrom` gives it. -/
namespace Tunlit.Registry.Names
open Tunlit.Js.Text

/-! ## Names -/

def RESERVED : List String := ["tunlit"]

def isNameChar (c : Char) : Bool := isLower c || isDigit c || c = '-'

/-- `NAME_REGEX`. -/
def isName (name : String) : Bool :=
  3 ≤ name.toList.length && name.toList.length ≤ 32 && name.toList.all isNameChar

def isReserved (name : String) : Bool := RESERVED.contains name
def isValidName (name : String) : Bool := isName name && !isReserved name

/-- What `randomId(6)` returns. -/
abbrev RandomId := { id : String // id.toList.length = 6 ∧ id.toList.all fun c => isLower c || isDigit c }

theorem RandomId.isName (id : RandomId) : isName id.1 := by
  obtain ⟨id, hlen, hall⟩ := id
  have hall : id.toList.all isNameChar := by
    rw [List.all_eq_true] at hall ⊢
    intro c hc
    rw [isNameChar, hall c hc, Bool.true_or]
  simp [Names.isName, hlen, hall]

theorem lowerChar_nameChar {c : Char} (h : isNameChar c = true) : lowerChar c = [c] := by
  have key : ∀ n < 128, isNameChar (Char.ofNat n) = true →
      lowerChar (Char.ofNat n) = [Char.ofNat n] := by
    decide
  have hlt : c.toNat < 128 := by
    simp only [isNameChar, isLower, isDigit, Bool.or_eq_true, Bool.and_eq_true,
      decide_eq_true_eq] at h
    rcases h with (⟨-, h⟩ | ⟨-, h⟩) | rfl
    · exact Nat.lt_of_le_of_lt (UInt32.le_iff_toNat_le.mp h) (by decide)
    · exact Nat.lt_of_le_of_lt (UInt32.le_iff_toNat_le.mp h) (by decide)
    · decide
  have hc : Char.ofNat c.toNat = c := Char.ofNat_toNat c
  simpa [hc] using key c.toNat hlt (by rwa [hc])

theorem toLowerCase_name {name : String} (h : isName name = true) : toLowerCase name = name := by
  have hsmall : ∀ c ∈ name.toList, lowerChar c = [c] := by
    intro c hc
    simp only [isName, Bool.and_eq_true, List.all_eq_true] at h
    exact lowerChar_nameChar (h.2 c hc)
  rw [toLowerCase, List.flatMap_congr hsmall, List.flatMap_singleton', String.ofList_toList]

/-! ## Share codes -/

def SECRET_LENGTH : Nat := 26

/-- What `randomSecret` returns, and what is cut off a share code. -/
abbrev Secret := { s : List Char // s.length = SECRET_LENGTH ∧ s.all isAlnum }

structure ShareCode where
  id : String
  secret : Secret
deriving DecidableEq

def splitShareCode (code : Option String) : Option ShareCode :=
  code.bind fun code =>
    let chars := code.toList
    let id := chars.take (chars.length - SECRET_LENGTH)
    let secret := chars.drop (chars.length - SECRET_LENGTH)
    if h : secret.length = SECRET_LENGTH ∧ secret.all isAlnum then
      if id ≠ [] && id.all isNameChar then some ⟨.ofList id, secret, h⟩ else none
    else none

structure Target where
  host : String
  port : Nat
deriving DecidableEq, Repr

def Target.authority (target : Target) : String := target.host ++ ":" ++ toString target.port

/-- `\[[^\]]+\]|[^:]+` -/
def isHost (host : List Char) : Bool :=
  (host ≠ [] && ':' ∉ host) ||
    (3 ≤ host.length && host.head? = some '[' && host.getLast? = some ']' &&
      ']' ∉ host.tail.dropLast)

def parseTarget (raw : Option String) : Option Target :=
  raw.bind fun raw =>
    let value := trimList raw.toList
    let value := if value ≠ [] && value.all isDigit then "127.0.0.1:".toList ++ value else value
    let digits := (value.reverse.takeWhile (· ≠ ':')).reverse
    let host := value.take (value.length - digits.length - 1)
    let port := digitsValue 10 digits
    if digits.length < value.length && isHost host && digits ≠ [] && digits.length ≤ 5 &&
        digits.all isDigit && 1 ≤ port && port ≤ 65535 then
      some ⟨.ofList host, port⟩
    else none

example : parseTarget (some " 8080 ") = some ⟨"127.0.0.1", 8080⟩ := by decide
example : parseTarget (some "[::1]:80") = some ⟨"[::1]", 80⟩ := by decide
example : parseTarget (some "a:b:80") = none := by decide

end Tunlit.Registry.Names
