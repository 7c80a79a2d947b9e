import Mathlib.Data.List.DropRight
import Tunlit.Lib.Utf8

/-! # Texts of Rust

The functions of `str` that the command line uses, on a text as its characters. Offsets count
bytes of UTF-8; a slice whose end is inside a character panics, which is `none` here. -/
namespace Tunlit.Rust.Text
open Tunlit.Lib.Utf8

/-- `char::is_whitespace`. -/
def isWhitespace (c : Char) : Bool :=
  c.toNat ∈ [0x09, 0x0a, 0x0b, 0x0c, 0x0d, 0x20, 0x85, 0xa0, 0x1680, 0x2028, 0x2029, 0x202f,
    0x205f, 0x3000] || (0x2000 ≤ c.toNat && c.toNat ≤ 0x200a)

def trim (text : List Char) : List Char := (text.dropWhile isWhitespace).rdropWhile isWhitespace

def trimEndMatches (c : Char) (text : List Char) : List Char := text.rdropWhile (· = c)

/-- `split_once`, at the first occurrence. -/
def splitOnce (sep : Char) : List Char → Option (List Char × List Char)
  | [] => none
  | c :: text => if c = sep then some ([], text) else (splitOnce sep text).map (.map (c :: ·) id)

def stripPrefix (front text : List Char) : Option (List Char) :=
  if front.isPrefixOf text then some (text.drop front.length) else none

def stripSuffix (back text : List Char) : Option (List Char) :=
  if back.isSuffixOf text then some (text.take (text.length - back.length)) else none

/-- `split_once` at a text of several characters. -/
def splitOnceAt (sep : List Char) : List Char → Option (List Char × List Char)
  | [] => (stripPrefix sep []).map fun rest => ([], rest)
  | c :: text =>
    match stripPrefix sep (c :: text) with
    | some rest => some ([], rest)
    | none => (splitOnceAt sep text).map (.map (c :: ·) id)

/-- `trim_start_matches` of a text, as often as it stands there. -/
def trimStartMatches (front text : List Char) : List Char :=
  match stripPrefix front text with
  | none => text
  | some rest => if rest.length < text.length then trimStartMatches front rest else text
termination_by text.length

/-- `trim_matches` -/
def trimMatches (c : Char) (text : List Char) : List Char :=
  trimEndMatches c (text.dropWhile (· = c))

/-! ## Offsets in bytes -/

def len (text : List Char) : Nat := (encode text).length

def splitAt : List Char → Nat → Option (List Char × List Char)
  | text, 0 => some ([], text)
  | [], _ + 1 => none
  | c :: text, n + 1 =>
    if c.utf8Size ≤ n + 1 then (splitAt text (n + 1 - c.utf8Size)).map (.map (c :: ·) id) else none

/-- `&text[start..]` -/
def sliceFrom (text : List Char) (start : Nat) : Option (List Char) := (splitAt text start).map Prod.snd

/-- `&text[start..stop]` -/
def slice (text : List Char) (start stop : Nat) : Option (List Char) :=
  (sliceFrom text start).bind fun rest => (splitAt rest (stop - start)).map Prod.fst

/-- `text.as_bytes().get(i)` -/
def byteAt (text : List Char) (i : Nat) : Option UInt8 := (encode text)[i]?

/-! ## Trimming and splitting -/

theorem stripPrefix_append (front text : List Char) :
    stripPrefix front (front ++ text) = some text := by
  have h : front.isPrefixOf (front ++ text) = true :=
    List.isPrefixOf_iff_prefix.mpr (List.prefix_append front text)
  rw [stripPrefix, if_pos h, List.drop_left]

theorem stripPrefix_eq_none {front text : List Char} (h : ¬ front <+: text) :
    stripPrefix front text = none :=
  if_neg fun hp => h (List.isPrefixOf_iff_prefix.mp hp)

theorem splitOnce_append {sep : Char} {front : List Char} (h : sep ∉ front) (back : List Char) :
    splitOnce sep (front ++ sep :: back) = some (front, back) := by
  induction front with
  | nil => rw [List.nil_append, splitOnce, if_pos rfl]
  | cons c front ih =>
    obtain ⟨hc, hfront⟩ := List.ne_and_not_mem_of_not_mem_cons h
    rw [List.cons_append, splitOnce, if_neg hc.symm, ih hfront]
    rfl

theorem splitOnce_of_notMem {sep : Char} {text : List Char} (h : sep ∉ text) :
    splitOnce sep text = none := by
  induction text with
  | nil => rfl
  | cons c text ih =>
    obtain ⟨hc, htext⟩ := List.ne_and_not_mem_of_not_mem_cons h
    rw [splitOnce, if_neg hc.symm, ih htext, Option.map_none]

theorem splitOnceAt_self {sep : List Char} (h : sep ≠ []) (back : List Char) :
    splitOnceAt sep (sep ++ back) = some ([], back) := by
  obtain ⟨c, rest, rfl⟩ := List.exists_cons_of_ne_nil h
  have hstrip := stripPrefix_append (c :: rest) back
  rw [List.cons_append] at hstrip ⊢
  rw [splitOnceAt, hstrip]

theorem splitOnceAt_cons {sep text : List Char} {c : Char} (h : stripPrefix sep (c :: text) = none) :
    splitOnceAt sep (c :: text) = (splitOnceAt sep text).map (.map (c :: ·) id) := by
  rw [splitOnceAt, h]

/-- What does not begin like the separator is passed over. -/
theorem splitOnceAt_append {sep : List Char} {d : Char} {front : List Char} (h : d ∉ front)
    (back : List Char) : splitOnceAt (d :: sep) (front ++ back) =
      (splitOnceAt (d :: sep) back).map (.map (front ++ ·) id) := by
  induction front with
  | nil =>
    rw [List.nil_append]
    cases splitOnceAt (d :: sep) back <;> rfl
  | cons c front ih =>
    obtain ⟨hc, hfront⟩ := List.ne_and_not_mem_of_not_mem_cons h
    rw [List.cons_append, splitOnceAt_cons, ih hfront, Option.map_map]
    · rfl
    · exact stripPrefix_eq_none fun hp => hc (List.cons_prefix_cons.mp hp).1

/-- A text whose ends are no blanks is as it was. -/
theorem trim_eq {text : List Char} (hfirst : ∀ c ∈ text.head?, isWhitespace c = false)
    (hlast : ∀ c ∈ text.getLast?, isWhitespace c = false) : trim text = text := by
  have hstart : text.dropWhile isWhitespace = text := by
    cases text with
    | nil => rfl
    | cons c text =>
      rw [List.dropWhile_cons_of_neg]
      rw [hfirst c rfl]
      exact Bool.false_ne_true
  rw [trim, hstart, List.rdropWhile_eq_self_iff]
  intro hne
  rw [hlast _ (List.getLast?_eq_some_getLast hne)]
  exact Bool.false_ne_true

theorem trim_of_forall {text : List Char} (h : ∀ c ∈ text, isWhitespace c = false) :
    trim text = text :=
  trim_eq (fun c hc => h c (List.mem_of_head? hc)) fun c hc => h c (List.mem_of_getLast? hc)

theorem trimEndMatches_eq {c : Char} {text : List Char} (h : text.getLast? ≠ some c) :
    trimEndMatches c text = text := by
  rw [trimEndMatches, List.rdropWhile_eq_self_iff]
  intro hne he
  rw [List.getLast?_eq_some_getLast hne] at h
  exact h (congrArg some (of_decide_eq_true he))

theorem trimMatches_eq {c : Char} {text : List Char} (h : c ∉ text) : trimMatches c text = text := by
  have hstart : text.dropWhile (· = c) = text := by
    cases text with
    | nil => rfl
    | cons d text =>
      rw [List.dropWhile_cons_of_neg]
      intro he
      exact h (of_decide_eq_true he ▸ List.mem_cons_self)
  rw [trimMatches, hstart]
  exact trimEndMatches_eq fun hl => h (List.mem_of_getLast? hl)

@[simp] theorem len_nil : len [] = 0 := rfl

@[simp] theorem len_cons (c : Char) (text : List Char) : len (c :: text) = c.utf8Size + len text := by
  rw [len, encode_cons, List.length_append, String.length_utf8EncodeChar, len]

@[simp] theorem len_append (a b : List Char) : len (a ++ b) = len a + len b := by
  rw [len, encode_append, List.length_append, len, len]

theorem len_eq_zero {text : List Char} : len text = 0 ↔ text = [] := by
  cases text with
  | nil => simp only [len_nil]
  | cons c text =>
    have := Char.utf8Size_pos c
    simp only [len_cons, reduceCtorEq, iff_false]
    omega

theorem splitAt_append (a b : List Char) : splitAt (a ++ b) (len a) = some (a, b) := by
  induction a with
  | nil =>
    rw [List.nil_append, len_nil, splitAt]
  | cons c a ih =>
    have hc := Char.utf8Size_pos c
    obtain ⟨n, hn⟩ : ∃ n, len (c :: a) = n + 1 := ⟨len (c :: a) - 1, by rw [len_cons]; omega⟩
    rw [hn, List.cons_append, splitAt]
    rw [len_cons] at hn
    rw [if_pos (by omega), show n + 1 - c.utf8Size = len a by omega, ih]
    rfl

theorem sliceFrom_append (a b : List Char) : sliceFrom (a ++ b) (len a) = some b := by
  rw [sliceFrom, splitAt_append, Option.map_some]

theorem byteAt_append (a b : List Char) : byteAt (a ++ b) (len a) = byteAt b 0 := by
  rw [byteAt, encode_append, len, List.getElem?_append_right (Nat.le_refl _), Nat.sub_self, byteAt]

/-- A byte below 0x80 stands for itself alone. -/
theorem byteAt_zero {text : List Char} {c : Char} (hc : c.toNat < 0x80) :
    byteAt text 0 = some (.ofNat c.toNat) ↔ text.head? = some c := by
  have hb : (UInt8.ofNat c.toNat).toNat = c.toNat := toNat_ofNat (by omega)
  constructor
  · intro h
    obtain ⟨bytes, hbytes⟩ : ∃ bytes, encode text = .ofNat c.toNat :: bytes :=
      List.head?_eq_some_iff.mp (List.head?_eq_getElem?.trans h)
    have hdecode := decode_encode text
    rw [hbytes, decode, decodeFrom_cons, step, hb, first, if_pos hc, Char.ofNat_toNat] at hdecode
    rw [← hdecode]
    rfl
  · intro h
    obtain ⟨rest, rfl⟩ := List.head?_eq_some_iff.mp h
    rw [byteAt, encode_cons, encodeChar_ascii hc]
    rfl

end Tunlit.Rust.Text
