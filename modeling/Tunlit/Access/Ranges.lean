import Mathlib.Data.List.Sort
import Tunlit.Js.Numerals
import Tunlit.Js.Splitting
import Tunlit.Lib.Bisection

/-! # Block lists

`ipv4` and `RangeSet` of `lib/intel.js`: the ranges of a list, sorted by where they start,
and a search among them that is right for ranges of which none is inside of another one. -/
namespace Tunlit.Access.Ranges
open Tunlit.Js.Text Tunlit.Js.Numerals Tunlit.Js.Splitting Tunlit.Lib.Bisection

abbrev Text := List Char

/-! ## The source -/

def octetOf (part : Text) : Option Nat :=
  ((number part).bind integer).bind fun octet =>
    if octet < 0 ∨ 255 < octet then none else some octet.toNat

def ipv4 (text : Text) : Option Nat :=
  let parts := split '.' text
  if parts.length ≠ 4 then none
  else
    (parts.mapM octetOf).map fun octets =>
      octets.foldl (fun value octet => value * 256 + octet) 0

structure Range where
  first : Nat
  last : Nat
deriving DecidableEq, Repr

def Range.Contains (range : Range) (value : Nat) : Prop := range.first ≤ value ∧ value ≤ range.last

instance (range : Range) (value : Nat) : Decidable (range.Contains value) :=
  inferInstanceAs (Decidable (_ ∧ _))

/-- The addresses that have the leading bits of this one. -/
def rangeFrom (start bits : Nat) : Range :=
  let size := 2 ^ (32 - bits)
  let first := start / size * size
  ⟨first, first + size - 1⟩

/-- A line of the constructor's loop. -/
def rangeOf (line : Text) : Option Range :=
  let text := trimList line
  if text = [] ∨ text.head? = some '#' then none
  else
    let parts := split '/' text
    (ipv4 (parts.headD [])).bind fun start =>
      ((number ((parts[1]?).getD "32".toList)).bind integer).bind fun bits =>
        if bits < 0 ∨ 32 < bits then none else some (rangeFrom start bits.toNat)

/-- The ranges of a `RangeSet`. -/
def rangeSet (lines : List Text) : List Range :=
  (lines.filterMap rangeOf).mergeSort fun a b => a.first ≤ b.first

/-- What the loop of `has` does at a position. -/
def turn (ranges : List Range) (value i : Nat) : Ordering :=
  match ranges[i]? with
  | none => .lt
  | some range =>
    if value < range.first then .lt else if range.last < value then .gt else .eq

def has (ranges : List Range) (ip : Text) : Bool :=
  match ipv4 ip with
  | none => false
  | some value => bisect (turn ranges value) (ranges.length + 1) 0 ranges.length

/-! ## What a list says -/

/-- A decimal number up to a limit. -/
def decimal (limit : Nat) (digits : Text) : Option Nat :=
  if digits ≠ [] && digits.all isDigit && digitsValue 10 digits ≤ limit then
    some (digitsValue 10 digits)
  else none

/-- Four decimal numbers up to 255. -/
def addressOf (text : Text) : Option Nat :=
  match (split '.' text).map (decimal 255) with
  | [some a, some b, some c, some d] => some (((a * 256 + b) * 256 + c) * 256 + d)
  | _ => none

/-- An address, and how many bits of it count: all, or the number behind one slash. -/
def netOf (line : Text) : Option (Nat × Nat) :=
  match split '/' (trimList line) with
  | [address] => (addressOf address).map fun value => (value, 32)
  | [address, bits] =>
    (addressOf address).bind fun value => (decimal 32 bits).map fun n => (value, n)
  | _ => none

/-- A line of the list is an address or a network with this address in it. -/
def Listed (lines : List Text) (value : Nat) : Prop :=
  ∃ line ∈ lines, ∃ net, netOf line = some net ∧
    value / 2 ^ (32 - net.2) = net.1 / 2 ^ (32 - net.2)

/-! ## Where the search looks -/

/-- The number of ranges that start at an address or in front of it. -/
def starting (ranges : List Range) (value : Nat) : Nat :=
  ranges.countP fun range => range.first ≤ value

/-- The ranges at the positions that a search among so many ranges looks at, on its way to
behind the last one that starts at the address or in front of it. -/
def lookedAt (ranges : List Range) (value : Nat) : List Range :=
  (probes (starting ranges value) (ranges.length + 1) 0 ranges.length).filterMap (ranges[·]?)

/-- The list is laid out so that the address is found: if it is listed then one of the ranges
that are looked at contains it, and no such range does because of a malformed line alone. -/
structure Found (lines : List Text) (value : Nat) : Prop where
  reached : Listed lines value → ∃ range ∈ lookedAt (rangeSet lines) value, range.Contains value
  strict : ∀ range ∈ lookedAt (rangeSet lines) value, range.Contains value → Listed lines value

/-! ## The search -/

def Sorted (ranges : List Range) : Prop := ranges.Pairwise fun a b => a.first ≤ b.first

theorem sorted_rangeSet (lines : List Text) : Sorted (rangeSet lines) := by
  have htrans : ∀ a b c : Range, decide (a.first ≤ b.first) = true →
      decide (b.first ≤ c.first) = true → decide (a.first ≤ c.first) = true := by
    intro a b c hab hbc
    exact decide_eq_true (Nat.le_trans (of_decide_eq_true hab) (of_decide_eq_true hbc))
  have htotal : ∀ a b : Range,
      (decide (a.first ≤ b.first) || decide (b.first ≤ a.first)) = true := by
    intro a b
    simpa using Nat.le_total a.first b.first
  exact (List.pairwise_mergeSort htrans htotal (lines.filterMap rangeOf)).imp of_decide_eq_true

theorem mem_rangeSet {lines : List Text} {range : Range} :
    range ∈ rangeSet lines ↔ ∃ line ∈ lines, rangeOf line = some range := by
  rw [rangeSet, List.mem_mergeSort, List.mem_filterMap]

/-- The ranges that start at an address or in front of it come first. -/
theorem first_le_iff {ranges : List Range} (h : Sorted ranges) {i : Nat} {range : Range}
    (hi : ranges[i]? = some range) (value : Nat) :
    range.first ≤ value ↔ i < starting ranges value := by
  induction ranges generalizing i with
  | nil => cases hi
  | cons head ranges ih =>
    obtain ⟨hhead, htail⟩ := List.pairwise_cons.mp h
    rw [starting, List.countP_cons]
    by_cases hv : head.first ≤ value
    · rw [if_pos (decide_eq_true hv)]
      cases i with
      | zero =>
        cases hi
        exact iff_of_true hv (Nat.succ_pos _)
      | succ i => exact (ih htail hi).trans Nat.succ_lt_succ_iff.symm
    · have hnone : ranges.countP (fun range => range.first ≤ value) = 0 := by
        rw [List.countP_eq_zero]
        intro other hm ho
        exact hv (Nat.le_trans (hhead other hm) (of_decide_eq_true ho))
      have hafter : ¬range.first ≤ value := by
        intro hr
        cases i with
        | zero =>
          cases hi
          exact hv hr
        | succ i => exact hv (Nat.le_trans (hhead range (List.mem_of_getElem? hi)) hr)
      rw [if_neg (by simpa using hv), hnone]
      exact iff_of_false hafter (Nat.not_lt_zero _)

theorem turn_eq_iff {ranges : List Range} {value i : Nat} :
    turn ranges value i = .eq ↔ ∃ range, ranges[i]? = some range ∧ range.Contains value := by
  unfold turn
  cases ranges[i]? with
  | none => simp
  | some range =>
    simp only [Option.some.injEq, exists_eq_left', Range.Contains]
    split
    · next h => exact iff_of_false (by decide) fun hc => absurd hc.1 (Nat.not_le.mpr h)
    · next h =>
      split
      · next h' => exact iff_of_false (by decide) fun hc => absurd hc.2 (Nat.not_le.mpr h')
      · next h' => exact iff_of_true rfl ⟨Nat.not_lt.mp h, Nat.not_lt.mp h'⟩

/-- The search finds a range among those that it looks at. -/
theorem bisect_iff_lookedAt {ranges : List Range} (h : Sorted ranges) (value : Nat) :
    bisect (turn ranges value) (ranges.length + 1) 0 ranges.length = true ↔
      ∃ range ∈ lookedAt ranges value, range.Contains value := by
  have hbelow : ∀ i < starting ranges value, turn ranges value i ≠ .lt := by
    intro i hi
    have hlength : i < ranges.length := Nat.lt_of_lt_of_le hi List.countP_le_length
    have hget := List.getElem?_eq_getElem hlength
    have hfirst := (first_le_iff h hget value).mpr hi
    rw [turn, hget]
    dsimp only
    rw [if_neg (Nat.not_lt.mpr hfirst)]
    split <;> exact Ordering.noConfusion
  have habove : ∀ i < ranges.length, starting ranges value ≤ i → turn ranges value i = .lt := by
    intro i hlength hi
    have hget := List.getElem?_eq_getElem hlength
    have hfirst := fun hle => Nat.not_lt.mpr hi ((first_le_iff h hget value).mp hle)
    rw [turn, hget]
    exact if_pos (Nat.not_le.mp hfirst)
  rw [bisect_iff hbelow habove]
  simp only [turn_eq_iff, lookedAt, List.mem_filterMap]
  constructor
  · intro hex
    obtain ⟨i, hi, range, hget, hc⟩ := hex
    exact ⟨range, ⟨i, hi, hget⟩, hc⟩
  · intro hex
    obtain ⟨range, ⟨i, hi, hget⟩, hc⟩ := hex
    exact ⟨i, hi, range, hget, hc⟩

/-! ## Lines that are well formed -/

theorem decimal_eq_some {limit n : Nat} {digits : Text} (h : decimal limit digits = some n) :
    digits ≠ [] ∧ (∀ c ∈ digits, isDigit c = true) ∧ digitsValue 10 digits = n ∧ n ≤ limit := by
  obtain ⟨hc, hn⟩ := Option.ite_none_right_eq_some.mp h
  simp only [Bool.and_eq_true, decide_eq_true_eq, List.all_eq_true] at hc
  obtain ⟨⟨hne, hall⟩, hle⟩ := hc
  have hvalue := Option.some.inj hn
  exact ⟨hne, hall, hvalue, hvalue ▸ hle⟩

theorem number_of_decimal {limit n : Nat} {digits : Text} (hlimit : limit < 256)
    (h : decimal limit digits = some n) : (number digits).bind integer = some (n : Int) := by
  obtain ⟨hne, hall, hvalue, hle⟩ := decimal_eq_some h
  rw [← hvalue] at hle ⊢
  exact integer_digits hne hall (by omega)

theorem octetOf_of_decimal {n : Nat} {part : Text} (h : decimal 255 part = some n) :
    octetOf part = some n := by
  have hle := (decimal_eq_some h).2.2.2
  rw [octetOf, number_of_decimal (by decide) h, Option.bind_some, if_neg (by omega)]
  simp

/-- Four parts, each a number. -/
theorem addressOf_eq_some {text : Text} {value : Nat} (h : addressOf text = some value) :
    ∃ p q r s a b c d, split '.' text = [p, q, r, s] ∧ decimal 255 p = some a ∧
      decimal 255 q = some b ∧ decimal 255 r = some c ∧ decimal 255 s = some d ∧
      value = ((a * 256 + b) * 256 + c) * 256 + d := by
  unfold addressOf at h
  split at h
  · next a b c d hs =>
    obtain ⟨p, l, hp, ha, hl⟩ := List.map_eq_cons_iff.mp hs
    obtain ⟨q, l', rfl, hb, hl'⟩ := List.map_eq_cons_iff.mp hl
    obtain ⟨r, l'', rfl, hc, hl''⟩ := List.map_eq_cons_iff.mp hl'
    obtain ⟨s, l''', rfl, hd, hnil⟩ := List.map_eq_cons_iff.mp hl''
    obtain rfl := List.map_eq_nil_iff.mp hnil
    exact ⟨p, q, r, s, a, b, c, d, hp, ha, hb, hc, hd, (Option.some.inj h).symm⟩
  · cases h

theorem ipv4_of_addressOf {text : Text} {value : Nat} (h : addressOf text = some value) :
    ipv4 text = some value := by
  obtain ⟨p, q, r, s, a, b, c, d, hs, ha, hb, hc, hd, rfl⟩ := addressOf_eq_some h
  simp [ipv4, hs, octetOf_of_decimal ha, octetOf_of_decimal hb, octetOf_of_decimal hc,
    octetOf_of_decimal hd]

/-- An address begins with a digit. -/
theorem head_of_addressOf {text : Text} {value : Nat} (h : addressOf text = some value) :
    ∃ c rest, text = c :: rest ∧ isDigit c = true := by
  obtain ⟨p, q, r, s, a, b, c, d, hs, ha, -⟩ := addressOf_eq_some h
  obtain ⟨hne, hall, -⟩ := decimal_eq_some ha
  have hp := split_headD '.' text
  rw [hs, List.headD_cons] at hp
  cases text with
  | nil => exact absurd hp hne
  | cons c rest =>
    refine ⟨c, rest, rfl, hall c ?_⟩
    by_cases hc : c = '.'
    · rw [hc, List.takeWhile_cons_of_neg (by simp)] at hp
      exact absurd hp hne
    · rw [hp, List.takeWhile_cons_of_pos (by simpa using hc)]
      exact List.mem_cons_self

/-- A line that is well formed is read as its network. -/
theorem rangeOf_of_netOf {line : Text} {net : Nat × Nat} (h : netOf line = some net) :
    rangeOf line = some (rangeFrom net.1 net.2) ∧ net.2 ≤ 32 := by
  have key : ∀ {address value rest}, split '/' (trimList line) = address :: rest →
      addressOf address = some value →
      ¬(trimList line = [] ∨ (trimList line).head? = some '#') := by
    intro address value rest hs ha
    obtain ⟨c, tail, rfl, hc⟩ := head_of_addressOf ha
    have hp := split_headD '/' (trimList line)
    rw [hs, List.headD_cons] at hp
    cases ht : trimList line with
    | nil =>
      rw [ht] at hp
      cases hp
    | cons d text =>
      have hd : d ≠ '#' := by
        intro hd
        rw [ht, hd, List.takeWhile_cons_of_pos (by decide)] at hp
        rw [(List.cons.inj hp).1] at hc
        exact absurd hc (by decide)
      simp [hd]
  unfold netOf at h
  split at h
  · next address hs =>
    obtain ⟨value, ha, rfl⟩ := Option.map_eq_some_iff.mp h
    have hbits : (number "32".toList).bind integer = some 32 := by decide +kernel
    refine ⟨?_, Nat.le_refl _⟩
    rw [rangeOf, if_neg (key hs ha), hs]
    show ((ipv4 address).bind fun start => ((number "32".toList).bind integer).bind fun bits =>
      if bits < 0 ∨ 32 < bits then none else some (rangeFrom start bits.toNat)) = _
    rw [ipv4_of_addressOf ha, Option.bind_some, hbits]
    rfl
  · next address bits hs =>
    obtain ⟨value, ha, hn⟩ := Option.bind_eq_some_iff.mp h
    obtain ⟨n, hb, rfl⟩ := Option.map_eq_some_iff.mp hn
    have hle := (decimal_eq_some hb).2.2.2
    refine ⟨?_, hle⟩
    rw [rangeOf, if_neg (key hs ha), hs]
    simp [ipv4_of_addressOf ha, number_of_decimal (by decide) hb, Nat.not_lt.mpr hle]
  · cases h

theorem contains_rangeFrom (start bits value : Nat) :
    (rangeFrom start bits).Contains value ↔ value / 2 ^ (32 - bits) = start / 2 ^ (32 - bits) := by
  have hpos : 0 < 2 ^ (32 - bits) := Nat.two_pow_pos _
  unfold Range.Contains rangeFrom
  dsimp only
  rw [Nat.div_eq_iff hpos]

/-! ## Lists -/

theorem mem_of_mem_lookedAt {ranges : List Range} {value : Nat} {range : Range}
    (h : range ∈ lookedAt ranges value) : range ∈ ranges := by
  obtain ⟨i, -, hi⟩ := List.mem_filterMap.mp h
  exact List.mem_of_getElem? hi

theorem has_iff_lookedAt {lines : List Text} {ip : Text} {value : Nat}
    (hip : addressOf ip = some value) :
    has (rangeSet lines) ip = true ↔
      ∃ range ∈ lookedAt (rangeSet lines) value, range.Contains value := by
  rw [has, ipv4_of_addressOf hip]
  exact bisect_iff_lookedAt (sorted_rangeSet lines) value

/-- A listed address is in a range. -/
theorem contains_of_listed {lines : List Text} {value : Nat} (h : Listed lines value) :
    ∃ range ∈ rangeSet lines, range.Contains value := by
  obtain ⟨line, hline, net, hnet, heq⟩ := h
  have hrange := (rangeOf_of_netOf hnet).1
  exact ⟨_, mem_rangeSet.mpr ⟨line, hline, hrange⟩, (contains_rangeFrom net.1 net.2 value).mpr heq⟩

/-- The ranges are the same or have no address in common. -/
def Disjoint (ranges : List Range) : Prop :=
  ∀ a ∈ ranges, ∀ b ∈ ranges, ∀ value, a.Contains value → b.Contains value → a = b

theorem first_le_last {lines : List Text} {range : Range} (h : range ∈ rangeSet lines) :
    range.first ≤ range.last := by
  obtain ⟨line, -, hline⟩ := mem_rangeSet.mp h
  have hrange : ∃ start bits, range = rangeFrom start bits := by
    unfold rangeOf at hline
    dsimp only at hline
    split at hline
    · cases hline
    · obtain ⟨start, -, hline⟩ := Option.bind_eq_some_iff.mp hline
      obtain ⟨bits, -, hline⟩ := Option.bind_eq_some_iff.mp hline
      split at hline
      · cases hline
      · exact ⟨start, bits.toNat, (Option.some.inj hline).symm⟩
  obtain ⟨start, bits, rfl⟩ := hrange
  have hpos : 0 < 2 ^ (32 - bits) := Nat.two_pow_pos _
  unfold rangeFrom
  dsimp only
  omega

/-- Among such ranges the last one that starts in front of an address decides. -/
theorem lookedAt_of_disjoint {lines : List Text} {value : Nat} (hd : Disjoint (rangeSet lines))
    (hc : ∃ range ∈ rangeSet lines, range.Contains value) :
    ∃ range ∈ lookedAt (rangeSet lines) value, range.Contains value := by
  have h := sorted_rangeSet lines
  have hwidth : ∀ range ∈ rangeSet lines, range.first ≤ range.last := fun _ => first_le_last
  generalize rangeSet lines = ranges at h hd hc hwidth
  obtain ⟨range, hmem, hrange⟩ := hc
  obtain ⟨i, hi, hget⟩ := List.mem_iff_getElem.mp hmem
  have hstarting : i < starting ranges value :=
    (first_le_iff h (by rw [List.getElem?_eq_getElem hi, hget]) value).mp hrange.1
  have hle : starting ranges value ≤ ranges.length := List.countP_le_length
  have hlast : starting ranges value - 1 < ranges.length := by omega
  have hprobe : starting ranges value - 1 ∈
      probes (starting ranges value) (ranges.length + 1) 0 ranges.length :=
    pred_mem_probes (by omega) (by omega) hle
  have hlook : ranges[starting ranges value - 1] ∈ lookedAt ranges value :=
    List.mem_filterMap.mpr ⟨_, hprobe, List.getElem?_eq_getElem hlast⟩
  refine ⟨_, hlook, ?_⟩
  -- it starts inside the range that contains the address, so it is this range
  have hlastmem := List.getElem_mem hlast
  have hstart : ranges[starting ranges value - 1].first ≤ value :=
    (first_le_iff h (List.getElem?_eq_getElem hlast) value).mpr (by omega)
  have horder : range.first ≤ ranges[starting ranges value - 1].first := by
    rcases Nat.lt_or_ge i (starting ranges value - 1) with hlt | hge
    · exact hget ▸ List.pairwise_iff_getElem.mp h i _ hi hlast hlt
    · obtain rfl : i = starting ranges value - 1 := by omega
      exact Nat.le_of_eq (by rw [hget])
  have hsame := hd range hmem _ hlastmem _ ⟨horder, Nat.le_trans hstart hrange.2⟩
    ⟨Nat.le_refl _, hwidth _ hlastmem⟩
  exact hsame ▸ hrange

/-- Ranges that do not overlap are matched as they stand. -/
theorem has_of_disjoint {lines : List Text} {ip : Text} {value : Nat}
    (hip : addressOf ip = some value) (hd : Disjoint (rangeSet lines)) :
    has (rangeSet lines) ip = true ↔ ∃ range ∈ rangeSet lines, range.Contains value := by
  rw [has_iff_lookedAt hip]
  constructor
  · intro hex
    obtain ⟨range, hrange, hc⟩ := hex
    exact ⟨range, mem_of_mem_lookedAt hrange, hc⟩
  · exact lookedAt_of_disjoint hd

end Tunlit.Access.Ranges
