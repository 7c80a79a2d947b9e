import Mathlib.Tactic.IntervalCases
import Tunlit.Js.Text

/-! # Addresses and address rules

`toBytes`, `parseRule` and `matchesRule` of `lib/access.js`: an address is four or
sixteen bytes, a rule the bytes of an address and the number of leading bits that count. -/
namespace Tunlit.Access.Address
open Tunlit.Js.Text

abbrev Bytes := List UInt8

/-- The address without its zone, from the first `%` with the rest of the line behind it. -/
def stripScope : List Char → List Char
  | [] => []
  | c :: rest => if c = '%' && !rest.any isLineTerminator then [] else c :: stripScope rest

def stripBrackets (value : List Char) : List Char :=
  let value := if value.head? = some '[' then value.tail else value
  if value.getLast? = some ']' then value.dropLast else value

/-- Four runs of digits between dots, as numbers. -/
def dotted (text : List Char) : Option (List Nat) :=
  let parts := split '.' text
  if parts.length = 4 && parts.all fun part => part ≠ [] && part.all isDigit then
    some (parts.map (digitsValue 10))
  else none

/-- What is behind `::ffff:`, if that is an address of four parts. -/
def mapped (value : List Char) : Option (List Char) :=
  if (value.take 7).flatMap lowerChar = "::ffff:".toList && (dotted (value.drop 7)).isSome then
    some (value.drop 7)
  else none

def expand (part : List Char) : List (List Char) := (split ':' part).filter (· ≠ [])

def groupBytes (group : List Char) : Option Bytes :=
  (parseIntHex group).bind fun n =>
    if 0 ≤ n ∧ n ≤ 0xffff then some [.ofNat (n.toNat / 256), .ofNat (n.toNat % 256)] else none

def toBytes (address : List Char) : Option Bytes :=
  let value := stripBrackets (stripScope address)
  match dotted ((mapped value).getD value) with
  | some parts => if parts.all (· ≤ 255) then some (parts.map UInt8.ofNat) else none
  | none =>
    if ':' ∉ value then none else
    let (head, tail) := splitDouble value
    let left := expand head
    let right := expand (tail.getD [])
    let missing : Int := 8 - left.length - right.length
    if missing < 0 || 0 < missing && tail = none then none else
    let groups := left ++ List.replicate missing.toNat ['0'] ++ right
    (groups.mapM groupBytes).map List.flatten

structure Rule where
  bytes : Bytes
  bits : Nat
  within : bits ≤ bytes.length * 8
deriving DecidableEq

/-- The number of bits behind the slash; all of them when there is none. -/
def ruleBits (bytes : Bytes) : Option (List Char) → Option Int
  | none => some (bytes.length * 8)
  | some text => (number text).bind integer

def parseRule (rule : String) : Option Rule :=
  let text := trimList rule.toList
  if text = [] then none else
  let parts := split '/' text
  (toBytes (parts.headD [])).bind fun bytes =>
    (ruleBits bytes parts[1]?).bind fun bits =>
      if h : 0 ≤ bits ∧ bits ≤ (bytes.length * 8 : Nat) then
        some ⟨bytes, bits.toNat, by omega⟩
      else none

def maskOf (remainder : Nat) : UInt8 := .ofNat (0xff <<< (8 - remainder))

def Rule.accepts (rule : Rule) (bytes : Bytes) : Bool :=
  let whole := rule.bits / 8
  let remainder := rule.bits % 8
  bytes.length = rule.bytes.length &&
    bytes.take whole = rule.bytes.take whole &&
    (remainder = 0 ||
      bytes.getD whole 0 &&& maskOf remainder = rule.bytes.getD whole 0 &&& maskOf remainder)

def matchesRule (address : String) (rule : Rule) : Bool :=
  match toBytes address.toList with
  | some bytes => rule.accepts bytes
  | none => false

def isAllowed (address : String) (rules : List String) : Bool :=
  rules.isEmpty || (rules.filterMap parseRule).any (matchesRule address)

/-! ## What a rule means -/

/-- The bits of an address, the highest of the first byte first. -/
def bitAt (bytes : Bytes) (i : Nat) : Bool := (bytes.getD (i / 8) 0).toNat.testBit (7 - i % 8)

/-- The address is as long as the rule's and agrees with it in the leading bits that count. -/
def Rule.Covers (rule : Rule) (bytes : Bytes) : Prop :=
  bytes.length = rule.bytes.length ∧ ∀ i < rule.bits, bitAt bytes i = bitAt rule.bytes i

theorem testBit_maskOf {r : Nat} (hr : r ≤ 8) (i : Nat) :
    (maskOf r).toNat.testBit i = (decide (i < 8) && decide (8 - r ≤ i)) := by
  by_cases hi : i < 8
  · interval_cases r <;> interval_cases i <;> rfl
  · simp only [hi, decide_false, Bool.false_and]
    refine Nat.testBit_lt_two_pow (Nat.lt_of_lt_of_le (UInt8.toNat_lt _) ?_)
    exact Nat.pow_le_pow_right (by decide) (Nat.not_lt.mp hi)

theorem masked_eq_iff {r : Nat} (hr : r ≤ 8) (a b : UInt8) :
    a &&& maskOf r = b &&& maskOf r ↔
      ∀ j < r, a.toNat.testBit (7 - j) = b.toNat.testBit (7 - j) := by
  rw [← UInt8.toNat_inj, UInt8.toNat_and, UInt8.toNat_and]
  constructor
  · intro h j hj
    have := congrArg (Nat.testBit · (7 - j)) h
    simp only [Nat.testBit_and, testBit_maskOf hr] at this
    have hd : (decide (7 - j < 8) && decide (8 - r ≤ 7 - j)) = true := by
      simp only [Bool.and_eq_true, decide_eq_true_eq]
      omega
    simpa only [hd, Bool.and_true] using this
  · intro h
    refine Nat.eq_of_testBit_eq fun i => ?_
    simp only [Nat.testBit_and, testBit_maskOf hr]
    by_cases hd : i < 8 ∧ 8 - r ≤ i
    · have := h (7 - i) (by omega)
      rw [show 7 - (7 - i) = i by omega] at this
      rw [this]
    · have hf : (decide (i < 8) && decide (8 - r ≤ i)) = false := by
        rw [← Bool.decide_and, decide_eq_false_iff_not]
        exact hd
      simp only [hf, Bool.and_false]

theorem byte_eq_iff (a b : UInt8) :
    a = b ↔ ∀ j < 8, a.toNat.testBit (7 - j) = b.toNat.testBit (7 - j) := by
  have hm : ∀ c : UInt8, c &&& maskOf 8 = c := by
    intro c
    rw [← UInt8.toNat_inj, UInt8.toNat_and]
    refine Nat.eq_of_testBit_eq fun i => ?_
    rw [Nat.testBit_and, testBit_maskOf (Nat.le_refl 8)]
    by_cases hi : i < 8
    · simp [hi]
    · rw [Nat.testBit_lt_two_pow]
      · simp
      · refine Nat.lt_of_lt_of_le (UInt8.toNat_lt c) ?_
        exact Nat.pow_le_pow_right (by decide) (Nat.not_lt.mp hi)
  rw [← masked_eq_iff (Nat.le_refl 8), hm, hm]

theorem take_eq_iff {a b : Bytes} (hlen : a.length = b.length) (n : Nat) :
    a.take n = b.take n ↔ ∀ i < n, a.getD i 0 = b.getD i 0 := by
  constructor
  · intro h i hi
    have := congrArg (·.getD i 0) h
    simpa [List.getD_eq_getElem?_getD, List.getElem?_take, hi] using this
  · intro h
    refine List.ext_getElem (by simp [hlen]) fun i ha hb => ?_
    simp only [List.length_take, Nat.lt_min] at ha hb
    have := h i ha.1
    simpa [List.getD_eq_getElem?_getD, List.getElem?_eq_getElem, ha.2, hb.2] using this

/-- The whole bytes and the masked byte behind them are the leading bits that count. -/
theorem accepts_iff (rule : Rule) (bytes : Bytes) : rule.accepts bytes ↔ rule.Covers bytes := by
  simp only [Rule.accepts, Rule.Covers, Bool.and_eq_true, Bool.or_eq_true, decide_eq_true_eq]
  have hr : rule.bits % 8 ≤ 8 := Nat.le_of_lt (Nat.mod_lt _ (by decide))
  constructor
  · rintro ⟨⟨hlen, hw⟩, hm⟩
    refine ⟨hlen, fun i hi => ?_⟩
    rw [take_eq_iff hlen] at hw
    by_cases hq : i / 8 < rule.bits / 8
    · rw [bitAt, bitAt, hw _ hq]
    · have he : i / 8 = rule.bits / 8 := by omega
      rw [masked_eq_iff hr] at hm
      rw [bitAt, bitAt, he]
      exact hm.resolve_left (by omega) (i % 8) (by omega)
  · rintro ⟨hlen, hb⟩
    refine ⟨⟨hlen, ?_⟩, ?_⟩
    · rw [take_eq_iff hlen]
      intro k hk
      rw [byte_eq_iff]
      intro j hj
      have := hb (8 * k + j) (by omega)
      rwa [bitAt, bitAt, show (8 * k + j) / 8 = k by omega, show (8 * k + j) % 8 = j by omega]
        at this
    · refine .inr ((masked_eq_iff hr _ _).mpr fun j hj => ?_)
      have := hb (8 * (rule.bits / 8) + j) (by omega)
      rwa [bitAt, bitAt, show (8 * (rule.bits / 8) + j) / 8 = rule.bits / 8 by omega,
        show (8 * (rule.bits / 8) + j) % 8 = j by omega] at this

/-- An address is in a text that spells a rule when the rule covers it. -/
def Matches (address rule : String) : Prop :=
  ∃ r bytes, parseRule rule = some r ∧ toBytes address.toList = some bytes ∧ r.Covers bytes

theorem matchesRule_iff {address : String} {rule : Rule} :
    matchesRule address rule ↔ ∃ bytes, toBytes address.toList = some bytes ∧ rule.Covers bytes := by
  unfold matchesRule
  cases toBytes address.toList with
  | none => simp only [Bool.false_eq_true, reduceCtorEq, false_and, exists_false]
  | some bytes => simp only [accepts_iff, Option.some.injEq, exists_eq_left']

theorem isAllowed_iff {address : String} {rules : List String} :
    isAllowed address rules ↔ rules = [] ∨ ∃ rule ∈ rules, Matches address rule := by
  simp only [isAllowed, Bool.or_eq_true, List.isEmpty_iff, List.any_eq_true, List.mem_filterMap,
    matchesRule_iff]
  refine or_congr_right ⟨?_, ?_⟩
  · rintro ⟨r, ⟨rule, hm, hp⟩, bytes, hb, hc⟩
    exact ⟨rule, hm, r, bytes, hp, hb, hc⟩
  · rintro ⟨rule, hm, r, bytes, hp, hb, hc⟩
    exact ⟨r, ⟨rule, hm, hp⟩, bytes, hb, hc⟩

example : isAllowed "10.1.2.3" ["10.0.0.0/8"] = true := by decide +kernel

/-! ## How long an address is -/

theorem dotted_length {text : List Char} {parts : List Nat} (h : dotted text = some parts) :
    parts.length = 4 := by
  simp only [dotted, Option.ite_none_right_eq_some, Bool.and_eq_true, decide_eq_true_eq,
    Option.some.injEq] at h
  rw [← h.2, List.length_map, h.1.1]

theorem groupBytes_length {group : List Char} {bytes : Bytes} (h : groupBytes group = some bytes) :
    bytes.length = 2 := by
  obtain ⟨n, -, hn⟩ := Option.bind_eq_some_iff.mp h
  split at hn
  · rw [← Option.some.inj hn, List.length_cons, List.length_singleton]
  · cases hn

theorem flatten_groups_length {groups : List (List Char)} {made : List Bytes}
    (h : groups.mapM groupBytes = some made) : made.flatten.length = 2 * groups.length := by
  induction groups generalizing made with
  | nil =>
    cases h
    rfl
  | cons group groups ih =>
    rw [List.mapM_cons] at h
    obtain ⟨bytes, hb, h⟩ := Option.bind_eq_some_iff.mp h
    obtain ⟨rest, hrest, h⟩ := Option.bind_eq_some_iff.mp h
    cases h
    rw [List.flatten_cons, List.length_append, groupBytes_length hb, ih hrest, List.length_cons]
    omega

/-- Four bytes from the dotted form, eight groups of two from the other. -/
theorem toBytes_length {address : List Char} {bytes : Bytes} (h : toBytes address = some bytes) :
    bytes.length = 4 ∨ bytes.length = 16 := by
  unfold toBytes at h
  dsimp only at h
  split at h
  case h_1 parts hparts =>
    split at h
    · rw [← Option.some.inj h, List.length_map, dotted_length hparts]
      exact .inl rfl
    · cases h
  case h_2 =>
    split at h
    · cases h
    · split at h
      · cases h
      · rename_i hmissing
        obtain ⟨made, hmade, rfl⟩ := Option.map_eq_some_iff.mp h
        rw [flatten_groups_length hmade]
        simp only [List.length_append, List.length_replicate]
        simp only [Bool.or_eq_true, decide_eq_true_eq, not_or] at hmissing
        omega

theorem parseRule_length {text : String} {rule : Rule} (h : parseRule text = some rule) :
    rule.bytes.length = 4 ∨ rule.bytes.length = 16 := by
  simp only [parseRule, Option.ite_none_left_eq_some] at h
  obtain ⟨bytes, hbytes, h⟩ := Option.bind_eq_some_iff.mp h.2
  obtain ⟨bits, -, h⟩ := Option.bind_eq_some_iff.mp h
  split at h
  · rw [← Option.some.inj h]
    exact toBytes_length hbytes
  · cases h

/-- Fewer of the same leading bits ask less. -/
theorem Rule.Covers.widen {rule wider : Rule} {bytes : Bytes} (hbytes : wider.bytes = rule.bytes)
    (hbits : wider.bits ≤ rule.bits) (h : rule.Covers bytes) : wider.Covers bytes := by
  rw [Rule.Covers, hbytes]
  exact ⟨h.1, fun i hi => h.2 i (Nat.lt_of_lt_of_le hi hbits)⟩

/-- A rule is of four or sixteen bytes and matches the addresses of its length that share its
leading bits, so that a shorter prefix of the same bytes matches at least as many. -/
theorem matchesRule_leading {text address : String} {rule : Rule} {bytes : Bytes}
    (hrule : parseRule text = some rule) (hbytes : toBytes address.toList = some bytes) :
    (rule.bytes.length = 4 ∨ rule.bytes.length = 16) ∧ rule.bits ≤ 8 * rule.bytes.length ∧
      (matchesRule address rule ↔
        bytes.length = rule.bytes.length ∧ ∀ i < rule.bits, bitAt bytes i = bitAt rule.bytes i) ∧
      ∀ wider : Rule, wider.bytes = rule.bytes → wider.bits ≤ rule.bits →
        ∀ other, matchesRule other rule → matchesRule other wider := by
  refine ⟨parseRule_length hrule, ?_, ?_, ?_⟩
  · have := rule.within
    omega
  · rw [matchesRule_iff, hbytes]
    simp only [Option.some.injEq, exists_eq_left', Rule.Covers]
  · intro wider hsame hfewer other hother
    rw [matchesRule_iff] at hother ⊢
    obtain ⟨found, hfound, hcovers⟩ := hother
    exact ⟨found, hfound, hcovers.widen hsame hfewer⟩

def private8 : Rule := ⟨[10, 0, 0, 0], 8, by decide⟩

theorem private8_leading : matchesRule "10.1.2.3" private8 ↔
    [10, 1, 2, 3].length = 4 ∧ ∀ i < 8, bitAt [10, 1, 2, 3] i = bitAt [10, 0, 0, 0] i :=
  (@matchesRule_leading "10.0.0.0/8" "10.1.2.3" private8 [10, 1, 2, 3] (by decide +kernel)
    (by decide)).2.2.1

end Tunlit.Access.Address
