import Mathlib.Data.Rat.Floor

/-! # Text and numbers of JavaScript

The string functions the server uses, on lists of characters, and `Number` on a string.
Case mappings are those of the characters that have an ASCII letter in their lower or
upper case; a text with any other letter is refused wherever the server changes case. -/
namespace Tunlit.Js.Text

/-! ## Characters -/

def isSpace (c : Char) : Bool :=
  c.toNat ∈ [0x09, 0x0a, 0x0b, 0x0c, 0x0d, 0x20, 0xa0, 0x1680, 0x2028, 0x2029, 0x202f, 0x205f,
    0x3000, 0xfeff] || (0x2000 ≤ c.toNat && c.toNat ≤ 0x200a)

def isLineTerminator (c : Char) : Bool := c.toNat ∈ [0x0a, 0x0d, 0x2028, 0x2029]

def isDigit (c : Char) : Bool := '0' ≤ c && c ≤ '9'
def isLower (c : Char) : Bool := 'a' ≤ c && c ≤ 'z'
def isUpper (c : Char) : Bool := 'A' ≤ c && c ≤ 'Z'
def isAlnum (c : Char) : Bool := isDigit c || isLower c || isUpper c

def lowerChar (c : Char) : List Char :=
  if isUpper c then [Char.ofNat (c.toNat + 32)]
  else if c.toNat = 0x212a then ['k']
  else if c.toNat = 0x130 then ['i', Char.ofNat 0x307]
  else [c]

def upperChar (c : Char) : List Char :=
  if isLower c then [Char.ofNat (c.toNat - 32)]
  else match c.toNat with
    | 0xdf => ['S', 'S']
    | 0x131 => ['I']
    | 0x17f => ['S']
    | 0xfb00 => ['F', 'F']
    | 0xfb01 => ['F', 'I']
    | 0xfb02 => ['F', 'L']
    | 0xfb03 => ['F', 'F', 'I']
    | 0xfb04 => ['F', 'F', 'L']
    | 0xfb05 | 0xfb06 => ['S', 'T']
    | _ => [c]

/-! ## Strings -/

def trimList (l : List Char) : List Char := ((l.dropWhile isSpace).reverse.dropWhile isSpace).reverse

def trim (s : String) : String := .ofList (trimList s.toList)
def toLowerCase (s : String) : String := .ofList (s.toList.flatMap lowerChar)
def toUpperCase (s : String) : String := .ofList (s.toList.flatMap upperChar)

/-- `split` at a separator of one character. -/
def split (sep : Char) : List Char → List (List Char)
  | [] => [[]]
  | c :: l =>
    if c = sep then [] :: split sep l
    else match split sep l with
      | [] => [[c]]
      | part :: parts => (c :: part) :: parts

/-- The two parts of `split` at the first `::`, if there is one, the second up to the next. -/
def splitDouble : List Char → List Char × Option (List Char)
  | ':' :: ':' :: l => ([], some (splitDouble l).1)
  | c :: l => (c :: (splitDouble l).1, (splitDouble l).2)
  | [] => ([], none)

def digitValue (c : Char) : Nat :=
  if isDigit c then c.toNat - '0'.toNat
  else if isLower c then c.toNat - 'a'.toNat + 10
  else if isUpper c then c.toNat - 'A'.toNat + 10
  else 36

/-- The number some digits of a base stand for. -/
def digitsValue (base : Nat) (digits : List Char) : Nat :=
  digits.foldl (fun n c => n * base + digitValue c) 0

/-! ## Numbers -/

/-- `parseInt(text, 16)`, without what is behind the last digit; none for NaN. -/
def parseIntHex (text : List Char) : Option Int :=
  let text := text.dropWhile isSpace
  let (sign, text) : Int × List Char := match text with
    | '-' :: rest => (-1, rest)
    | '+' :: rest => (1, rest)
    | _ => (1, text)
  let text := match text with
    | '0' :: 'x' :: rest | '0' :: 'X' :: rest => rest
    | _ => text
  let digits := text.takeWhile fun c => digitValue c < 16
  if digits = [] then none else some (sign * digitsValue 16 digits)

def roundHalfEven (q : ℚ) : Int :=
  let low := q.floor
  let rest := q - low
  if rest < 1 / 2 ∨ rest = 1 / 2 ∧ low % 2 = 0 then low else low + 1

/-- The largest `k` with `2 ^ k ≤ n / d`, for positive `n` and `d`. -/
def floorLog (n d : Nat) : Int :=
  let k : Int := (n.log2 : Int) - d.log2
  if (2 : ℚ) ^ k ≤ (n : ℚ) / d then k else k - 1

/-- The double next to a rational, ties to even; the range above is not bounded. -/
def toDouble (q : ℚ) : ℚ :=
  if q = 0 then 0 else
  let e := max (-1074) (floorLog q.num.natAbs q.den - 52)
  roundHalfEven (q / 2 ^ e) * 2 ^ e

def radixLiteral (base : Nat) (digits : List Char) : Option ℚ :=
  if digits ≠ [] && digits.all (digitValue · < base) then some (toDouble (digitsValue base digits))
  else none

def exponentPart : List Char → Option Int
  | [] => some 0
  | e :: rest =>
    if e ≠ 'e' ∧ e ≠ 'E' then none else
    let (sign, digits) : Int × List Char := match rest with
      | '-' :: digits => (-1, digits)
      | '+' :: digits => (1, digits)
      | _ => (1, rest)
    if digits ≠ [] && digits.all isDigit then some (sign * digitsValue 10 digits) else none

def decimalLiteral (text : List Char) : Option ℚ :=
  let whole := text.takeWhile isDigit
  let rest := text.dropWhile isDigit
  let (fraction, rest) := match rest with
    | '.' :: rest => (rest.takeWhile isDigit, rest.dropWhile isDigit)
    | _ => ([], rest)
  if whole = [] && fraction = [] then none else
  (exponentPart rest).map fun (e : Int) =>
    toDouble (digitsValue 10 (whole ++ fraction) * (10 : ℚ) ^ (e - (fraction.length : Int)))

/-- `Number` on a string; none for NaN and for an infinity that is spelled out. -/
def number (text : List Char) : Option ℚ :=
  match trimList text with
  | [] => some 0
  | '0' :: 'x' :: digits | '0' :: 'X' :: digits => radixLiteral 16 digits
  | '0' :: 'o' :: digits | '0' :: 'O' :: digits => radixLiteral 8 digits
  | '0' :: 'b' :: digits | '0' :: 'B' :: digits => radixLiteral 2 digits
  | '-' :: rest => (decimalLiteral rest).map (- ·)
  | '+' :: rest => decimalLiteral rest
  | text => decimalLiteral text

/-- `Number.isInteger` of the value, and the integer. -/
def integer (q : ℚ) : Option Int := if q.den = 1 then some q.num else none

end Tunlit.Js.Text
