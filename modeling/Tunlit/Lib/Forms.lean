import Tunlit.Lib.Percent

/-! # Queries as lists of pairs

The `application/x-www-form-urlencoded` format of the URL Standard, which `URLSearchParams`
reads and writes: the parser, the serializer, and the queries that the two leave as they are. -/
namespace Tunlit.Lib.Forms
open Tunlit.Lib.Percent Tunlit.Lib.Utf8

abbrev Text := List Char
abbrev Pair := Text × Text

/-- The characters that stand for themselves. -/
def isPlain (c : Char) : Bool := isAlnum c || c = '*' || c = '-' || c = '.' || c = '_'

def encodeByte (b : UInt8) : Text :=
  if b = 0x20 then ['+'] else Percent.encodeByte (fun c => !isPlain c) b

def encode (text : Text) : Text := (Utf8.encode text).flatMap encodeByte

def space (c : Char) : Char := if c = '+' then ' ' else c

def bytesOf (text : Text) : List UInt8 := Percent.decode (text.map space)
def decode (text : Text) : Text := Utf8.decode (bytesOf text)

def nameOf (piece : Text) : Text := piece.takeWhile (· ≠ '=')
def valueOf (piece : Text) : Text := (piece.dropWhile (· ≠ '=')).tail

def readPair (piece : Text) : Pair := (decode (nameOf piece), decode (valueOf piece))
def writePair (pair : Pair) : Text := encode pair.1 ++ '=' :: encode pair.2

def parse (query : Text) : List Pair := ((query.splitOn '&').filter (· ≠ [])).map readPair
def serialize (pairs : List Pair) : Text := ['&'].intercalate (pairs.map writePair)

/-- `new URLSearchParams(text)` -/
def searchParams : Text → List Pair
  | '?' :: query => parse query
  | query => parse query

/-- `params.set(name, value)` -/
def setPair (pairs : List Pair) (name value : Text) : List Pair :=
  match pairs with
  | [] => [(name, value)]
  | pair :: rest =>
    if pair.1 = name then (name, value) :: rest.filter (·.1 ≠ name)
    else pair :: setPair rest name value

theorem setPair_of_notMem {pairs : List Pair} {name : Text} (value : Text)
    (h : ∀ pair ∈ pairs, pair.1 ≠ name) : setPair pairs name value = pairs ++ [(name, value)] := by
  induction pairs with
  | nil => rfl
  | cons pair rest ih =>
    obtain ⟨hne, hrest⟩ := List.forall_mem_cons.mp h
    rw [setPair, if_neg hne, ih hrest, List.cons_append]

/-! ## What is written -/

/-- A text of which every escape is one that the serializer writes. -/
def isWritten : Text → Bool
  | '%' :: a :: b :: text =>
    isUpperHex a && isUpperHex b &&
      (escaped a b).any (fun byte => byte ≠ 0x20 && !isPlain (Char.ofNat byte.toNat)) &&
      isWritten text
  | c :: text => (isPlain c || c = '+') && isWritten text
  | [] => true

/-- A name or a value in the form of the serializer. -/
def Written (text : Text) : Prop := isWritten text ∧ Utf8.Valid (bytesOf text)

instance (text : Text) : Decidable (Written text) := inferInstanceAs (Decidable (_ ∧ _))

theorem isPlain_cases (b : UInt8) :
    b = 0x20 ∧ encodeByte b = ['+'] ∨
      b.toNat < 0x80 ∧ isPlain (Char.ofNat b.toNat) ∧ encodeByte b = [Char.ofNat b.toNat] ∨
      b ≠ 0x20 ∧ isPlain (Char.ofNat b.toNat) = false ∧ encodeByte b = escape b := by
  by_cases hb : b = 0x20
  · exact .inl ⟨hb, if_pos hb⟩
  have hspace : encodeByte b = Percent.encodeByte (fun c => !isPlain c) b := if_neg hb
  by_cases hp : isPlain (Char.ofNat b.toNat)
  · have key : ∀ n < 256, isPlain (Char.ofNat n) → n < 0x80 := by decide +kernel
    exact .inr (.inl ⟨key _ b.toNat_lt hp, hp, by simp [hspace, Percent.encodeByte, hp]⟩)
  · rw [Bool.not_eq_true] at hp
    exact .inr (.inr ⟨hb, hp, by simp [hspace, Percent.encodeByte, hp]⟩)

theorem ne_of_isPlain {c : Char} (h : isPlain c) : c ≠ '%' ∧ c ≠ '+' ∧ c ≠ '&' ∧ c ≠ '=' ∧ c ≠ '?' := by
  refine ⟨?_, ?_, ?_, ?_, ?_⟩ <;> (intro hc; subst hc; exact absurd h (by decide))

theorem map_escape (b : UInt8) : (escape b).map space = escape b := by
  have key : ∀ n < 256, (escape (UInt8.ofNat n)).map space = escape (UInt8.ofNat n) := by
    decide +kernel
  simpa using key b.toNat b.toNat_lt

theorem isUpperHex_digits (b : UInt8) :
    isUpperHex (hexDigit (b.toNat / 16)) ∧ isUpperHex (hexDigit (b.toNat % 16)) := by
  have key : ∀ n < 16, isUpperHex (hexDigit n) := by decide
  have hb := b.toNat_lt
  exact ⟨key _ (by omega), key _ (by omega)⟩

theorem bytesOf_encodeByte (b : UInt8) (text : Text) :
    bytesOf (encodeByte b ++ text) = b :: bytesOf text := by
  rw [bytesOf, List.map_append]
  rcases isPlain_cases b with ⟨rfl, he⟩ | ⟨hlt, hp, he⟩ | ⟨-, -, he⟩
  · rw [he, List.map_cons, List.map_nil, List.singleton_append, decode_cons (by decide)]
    rfl
  · have hne := ne_of_isPlain hp
    rw [he, List.map_cons, List.map_nil, List.singleton_append, space, if_neg hne.2.1,
      decode_cons hne.1, encodeChar_byte hlt]
    rfl
  · rw [he, map_escape, decode_escape, bytesOf]

theorem isWritten_encodeByte (b : UInt8) (text : Text) :
    isWritten (encodeByte b ++ text) = isWritten text := by
  rcases isPlain_cases b with ⟨-, he⟩ | ⟨-, hp, he⟩ | ⟨hb, hp, he⟩
  · rw [he, List.singleton_append, isWritten]
    · rfl
    · intro a b rest hc
      exact absurd hc (by decide)
  · rw [he, List.singleton_append, isWritten]
    · rw [hp]
      rfl
    · intro a b rest hc
      exact absurd hc (ne_of_isPlain hp).1
  · obtain ⟨ha, hd⟩ := isUpperHex_digits b
    simp only [he, escape, List.cons_append, List.nil_append, isWritten, escaped_digits, ha, hd]
    simp [hb, hp]

theorem bytesOf_flatMap (bytes : List UInt8) : bytesOf (bytes.flatMap encodeByte) = bytes := by
  induction bytes with
  | nil => rfl
  | cons b bytes ih => rw [List.flatMap_cons, bytesOf_encodeByte, ih]

theorem isWritten_flatMap (bytes : List UInt8) : isWritten (bytes.flatMap encodeByte) := by
  induction bytes with
  | nil => rfl
  | cons b bytes ih => rw [List.flatMap_cons, isWritten_encodeByte, ih]

/-- A name or a value is read back. -/
theorem decode_encode (text : Text) : decode (encode text) = text := by
  rw [decode, encode, bytesOf_flatMap, Utf8.decode_encode]

theorem written_encode (text : Text) : Written (encode text) := by
  refine ⟨isWritten_flatMap _, ?_⟩
  rw [encode, bytesOf_flatMap]
  exact valid_encode text

theorem hexDigit_of_isUpperHex {c : Char} (h : isUpperHex c) :
    ∃ n < 16, hexValue c = some n ∧ hexDigit n = c := by
  have key : ∀ n < 128, isUpperHex (Char.ofNat n) →
      ∃ m < 16, hexValue (Char.ofNat n) = some m ∧ hexDigit m = Char.ofNat n := by decide
  have hlt : c.toNat < 128 := by
    simp only [isUpperHex, isDigit, Bool.or_eq_true, Bool.and_eq_true, decide_eq_true_eq] at h
    rcases h with h | h
    · exact Nat.lt_of_le_of_lt (UInt32.le_iff_toNat_le.mp h.2) (by decide)
    · exact Nat.lt_of_le_of_lt (UInt32.le_iff_toNat_le.mp h.2) (by decide)
  have hc : Char.ofNat c.toNat = c := Char.ofNat_toNat c
  simpa [hc] using key c.toNat hlt (by rw [hc]; exact h)

/-- Two digits of upper case are those that their byte is written with. -/
theorem escape_of_escaped {a b : Char} {byte : UInt8} (ha : isUpperHex a) (hb : isUpperHex b)
    (h : escaped a b = some byte) : escape byte = ['%', a, b] := by
  obtain ⟨x, hx, hxv, hxd⟩ := hexDigit_of_isUpperHex ha
  obtain ⟨y, hy, hyv, hyd⟩ := hexDigit_of_isUpperHex hb
  rw [escaped, hxv, hyv] at h
  have hbyte : byte.toNat = x * 16 + y := by
    rw [← Option.some.inj h]
    exact toNat_ofNat (by omega)
  have hdiv : byte.toNat / 16 = x := by omega
  have hmod : byte.toNat % 16 = y := by omega
  rw [escape, hdiv, hmod, hxd, hyd]

theorem space_of_isUpperHex {c : Char} (h : isUpperHex c) : space c = c := by
  refine if_neg fun hc => ?_
  subst hc
  exact absurd h (by decide)

theorem bytesOf_cons {c : Char} (h : c ≠ '%') (text : Text) :
    bytesOf (c :: text) = String.utf8EncodeChar (space c) ++ bytesOf text := by
  have hs : space c ≠ '%' := by
    unfold space
    split
    · decide
    · exact h
  rw [bytesOf, List.map_cons, decode_cons hs, bytesOf]

theorem toNat_lt_of_isPlain {c : Char} (h : isPlain c) : c.toNat < 0x80 := by
  simp only [isPlain, isAlnum, isDigit, Bool.or_eq_true, Bool.and_eq_true, decide_eq_true_eq] at h
  rcases h with ((((((h | h) | h) | rfl) | rfl) | rfl) | rfl)
  · exact Nat.lt_of_le_of_lt (UInt32.le_iff_toNat_le.mp h.2) (by decide)
  · exact Nat.lt_of_le_of_lt (UInt32.le_iff_toNat_le.mp h.2) (by decide)
  · exact Nat.lt_of_le_of_lt (UInt32.le_iff_toNat_le.mp h.2) (by decide)
  all_goals decide

theorem flatMap_plain {c : Char} (h : isPlain c) :
    (String.utf8EncodeChar (space c)).flatMap encodeByte = [c] := by
  have hlt := toNat_lt_of_isPlain h
  have hc : Char.ofNat (UInt8.ofNat c.toNat).toNat = c := by
    rw [toNat_ofNat (by omega)]
    exact Char.ofNat_toNat c
  rw [space, if_neg (ne_of_isPlain h).2.1, encodeChar_ascii hlt, List.flatMap_singleton]
  rcases isPlain_cases (UInt8.ofNat c.toNat) with ⟨hb, -⟩ | ⟨-, -, he⟩ | ⟨-, hp, -⟩
  · rw [hb] at hc
    subst hc
    exact absurd h (by decide)
  · rw [he, hc]
  · rw [hc, h] at hp
    exact absurd hp Bool.noConfusion

/-- A text in the form of the serializer is what its bytes are written as. -/
theorem flatMap_bytesOf {text : Text} (h : isWritten text) :
    (bytesOf text).flatMap encodeByte = text := by
  fun_induction isWritten text with
  | case1 a b text ih =>
    simp only [Bool.and_eq_true, Option.any_eq_true, decide_eq_true_eq, Bool.not_eq_true'] at h
    obtain ⟨⟨⟨ha, hb⟩, byte, he, hne, hp⟩, htext⟩ := h
    have hbytes : bytesOf ('%' :: a :: b :: text) = byte :: bytesOf text := by
      simp only [bytesOf, List.map_cons, space_of_isUpperHex ha, space_of_isUpperHex hb]
      rw [show space '%' = '%' from rfl, Percent.decode, he]
    have hbyte : encodeByte byte = escape byte := by
      rw [encodeByte, if_neg hne, Percent.encodeByte, hp]
      rfl
    rw [hbytes, List.flatMap_cons, ih htext, hbyte, escape_of_escaped ha hb he]
    rfl
  | case2 c text _ ih =>
    simp only [Bool.and_eq_true, Bool.or_eq_true, decide_eq_true_eq] at h
    obtain ⟨hc, htext⟩ := h
    rcases hc with hp | rfl
    · rw [bytesOf_cons (ne_of_isPlain hp).1, List.flatMap_append, ih htext, flatMap_plain hp,
        List.singleton_append]
    · rw [bytesOf_cons (by decide), List.flatMap_append, ih htext]
      rfl
  | case3 => rfl

/-- The names and values that are left as they are. -/
theorem encode_decode_iff (text : Text) : encode (decode text) = text ↔ Written text := by
  constructor
  · intro h
    exact h ▸ written_encode (decode text)
  · intro h
    rw [encode, decode, h.2]
    exact flatMap_bytesOf h.1

/-! ## Pairs -/

theorem hexDigit_ne : ∀ n < 16, hexDigit n ≠ '&' ∧ hexDigit n ≠ '=' ∧ hexDigit n ≠ '?' := by
  decide

theorem ne_of_mem_escape {b : UInt8} {c : Char} (h : c ∈ escape b) : c ≠ '&' ∧ c ≠ '=' ∧ c ≠ '?' := by
  have hlt := b.toNat_lt
  rw [escape, List.mem_cons, List.mem_cons, List.mem_singleton] at h
  rcases h with rfl | rfl | rfl
  · decide
  · exact hexDigit_ne _ (by omega)
  · exact hexDigit_ne _ (by omega)

/-- The characters that separate are never written. -/
theorem ne_of_mem_encode {text : Text} {c : Char} (h : c ∈ encode text) :
    c ≠ '&' ∧ c ≠ '=' ∧ c ≠ '?' := by
  obtain ⟨b, -, hc⟩ := List.mem_flatMap.mp h
  rcases isPlain_cases b with ⟨-, he⟩ | ⟨-, hp, he⟩ | ⟨-, -, he⟩ <;> rw [he] at hc
  · rw [List.mem_singleton.mp hc]
    decide
  · rw [List.mem_singleton.mp hc]
    exact (ne_of_isPlain hp).2.2
  · exact ne_of_mem_escape hc

theorem nameOf_append {name : Text} (value : Text) (h : '=' ∉ name) :
    nameOf (name ++ '=' :: value) = name := by
  rw [nameOf, List.takeWhile_append_of_pos, List.takeWhile_cons_of_neg (by simp), List.append_nil]
  intro c hc
  exact decide_eq_true fun he => h (he ▸ hc)

theorem valueOf_append {name : Text} (value : Text) (h : '=' ∉ name) :
    valueOf (name ++ '=' :: value) = value := by
  rw [valueOf, List.dropWhile_append_of_pos, List.dropWhile_cons_of_neg (by simp), List.tail_cons]
  intro c hc
  exact decide_eq_true fun he => h (he ▸ hc)

theorem eq_append_of_mem {piece : Text} (h : '=' ∈ piece) :
    piece = nameOf piece ++ '=' :: valueOf piece := by
  induction piece with
  | nil => cases h
  | cons c piece ih =>
    by_cases hc : c = '='
    · subst hc
      simp [nameOf, valueOf]
    · have hmem : '=' ∈ piece := (List.mem_cons.mp h).resolve_left fun he => hc he.symm
      have hname : nameOf (c :: piece) = c :: nameOf piece := by simp [nameOf, hc]
      have hvalue : valueOf (c :: piece) = valueOf piece := by simp [valueOf, hc]
      rw [hname, hvalue, List.cons_append, ← ih hmem]

theorem notMem_encode (text : Text) : '=' ∉ encode text := fun h => (ne_of_mem_encode h).2.1 rfl

theorem readPair_writePair (pair : Pair) : readPair (writePair pair) = pair := by
  rw [readPair, writePair, nameOf_append _ (notMem_encode _), valueOf_append _ (notMem_encode _),
    decode_encode, decode_encode]

/-- A pair in the form of the serializer. -/
def IsWritten (piece : Text) : Prop := '=' ∈ piece ∧ Written (nameOf piece) ∧ Written (valueOf piece)

instance (piece : Text) : Decidable (IsWritten piece) := inferInstanceAs (Decidable (_ ∧ _))

theorem writePair_readPair_iff (piece : Text) : writePair (readPair piece) = piece ↔ IsWritten piece := by
  constructor
  · intro h
    have hmem : '=' ∈ piece := by
      rw [← h, writePair]
      simp
    have hname : nameOf (writePair (readPair piece)) = encode (readPair piece).1 :=
      nameOf_append _ (notMem_encode _)
    have hvalue : valueOf (writePair (readPair piece)) = encode (readPair piece).2 :=
      valueOf_append _ (notMem_encode _)
    rw [h] at hname hvalue
    exact ⟨hmem, hname ▸ written_encode _, hvalue ▸ written_encode _⟩
  · intro h
    obtain ⟨hmem, hname, hvalue⟩ := h
    rw [writePair, readPair, (encode_decode_iff _).mpr hname, (encode_decode_iff _).mpr hvalue]
    exact (eq_append_of_mem hmem).symm

/-! ## Queries -/

theorem notMem_writePair (pair : Pair) : '&' ∉ writePair pair := by
  intro h
  rcases List.mem_append.mp h with hm | hm
  · exact (ne_of_mem_encode hm).1 rfl
  · rcases List.mem_cons.mp hm with he | hm
    · exact absurd he (by decide)
    · exact (ne_of_mem_encode hm).1 rfl

theorem writePair_ne_nil (pair : Pair) : writePair pair ≠ [] := by simp [writePair]

theorem notMem_of_mem_splitOn {query : Text} : ∀ piece ∈ query.splitOn '&', '&' ∉ piece := by
  induction query with
  | nil => simp
  | cons c query ih =>
    rw [List.splitOn_cons_eq_if_modifyHead]
    split
    · exact List.forall_mem_cons.mpr ⟨List.not_mem_nil, ih⟩
    · next hc =>
      cases hs : query.splitOn '&' with
      | nil => exact absurd hs (List.splitOn_ne_nil _ _)
      | cons piece pieces =>
        rw [hs] at ih
        obtain ⟨hpiece, hpieces⟩ := List.forall_mem_cons.mp ih
        refine List.forall_mem_cons.mpr ⟨fun hm => ?_, hpieces⟩
        rcases List.mem_cons.mp hm with he | hm
        · exact hc (beq_iff_eq.mpr he.symm)
        · exact hpiece hm

theorem splitOn_serialize {pairs : List Pair} (h : pairs ≠ []) :
    (serialize pairs).splitOn '&' = pairs.map writePair := by
  refine List.splitOn_intercalate _ ?_ (by simpa using h)
  intro piece hp
  obtain ⟨pair, -, rfl⟩ := List.mem_map.mp hp
  exact notMem_writePair pair

theorem map_readPair (pairs : List Pair) :
    ((pairs.map writePair).filter (· ≠ [])).map readPair = pairs := by
  have hfilter : (pairs.map writePair).filter (· ≠ []) = pairs.map writePair := by
    rw [List.filter_eq_self]
    intro piece hp
    obtain ⟨pair, -, rfl⟩ := List.mem_map.mp hp
    exact decide_eq_true (writePair_ne_nil pair)
  rw [hfilter, List.map_map]
  exact (List.map_congr_left fun pair _ => readPair_writePair pair).trans (List.map_id pairs)

/-- The pairs that were written are read back. -/
theorem parse_serialize (pairs : List Pair) : parse (serialize pairs) = pairs := by
  by_cases h : pairs = []
  · subst h
    rfl
  · rw [parse, splitOn_serialize h, map_readPair]

/-- The pieces that come out of the parser and the serializer as they went in. -/
theorem serialize_readPair_iff {pieces : List Text} (hfree : ∀ piece ∈ pieces, '&' ∉ piece)
    (hne : pieces ≠ []) (hblank : pieces ≠ [[]]) :
    serialize ((pieces.filter (· ≠ [])).map readPair) = ['&'].intercalate pieces ↔
      ∀ piece ∈ pieces, IsWritten piece := by
  have hsplit : (['&'].intercalate pieces).splitOn '&' = pieces :=
    List.splitOn_intercalate _ hfree hne
  constructor
  · intro h
    by_cases hpairs : (pieces.filter (· ≠ [])).map readPair = []
    · rw [hpairs] at h
      rw [← h] at hsplit
      exact absurd hsplit.symm hblank
    · have hmap := splitOn_serialize hpairs
      rw [h, hsplit, List.map_map] at hmap
      have hfilter : pieces.filter (· ≠ []) = pieces := by
        rw [List.filter_eq_self]
        intro piece hp
        rw [hmap] at hp
        obtain ⟨_, -, rfl⟩ := List.mem_map.mp hp
        exact decide_eq_true (writePair_ne_nil _)
      rw [hfilter] at hmap
      intro piece hp
      rw [← writePair_readPair_iff]
      exact List.map_inj_left.mp (hmap.symm.trans (List.map_id pieces).symm) piece hp
  · intro h
    have hfilter : pieces.filter (· ≠ []) = pieces := by
      rw [List.filter_eq_self]
      intro piece hp
      refine decide_eq_true fun he => ?_
      subst he
      exact absurd (h _ hp).1 (by simp)
    rw [hfilter, serialize, List.map_map]
    refine congrArg _ ((List.map_congr_left fun piece hp => ?_).trans (List.map_id pieces))
    exact (writePair_readPair_iff piece).mpr (h piece hp)

/-- The queries that come out as they went in. -/
theorem serialize_parse_iff {query : Text} (h : query ≠ []) :
    serialize (parse query) = query ↔ ∀ piece ∈ query.splitOn '&', IsWritten piece := by
  have hblank : query.splitOn '&' ≠ [[]] := by
    intro hs
    have hquery : ['&'].intercalate (query.splitOn '&') = query := List.intercalate_splitOn '&'
    rw [hs] at hquery
    exact h hquery.symm
  have hiff := serialize_readPair_iff notMem_of_mem_splitOn (List.splitOn_ne_nil _ _) hblank
  rwa [List.intercalate_splitOn] at hiff

theorem notMem_intercalate {c : Char} {pieces : List Text} (hc : c ≠ '&')
    (h : ∀ piece ∈ pieces, c ∉ piece) : c ∉ ['&'].intercalate pieces := by
  induction pieces with
  | nil => simp
  | cons piece pieces ih =>
    obtain ⟨hpiece, hpieces⟩ := List.forall_mem_cons.mp h
    cases pieces with
    | nil => simpa using hpiece
    | cons next pieces =>
      rw [List.intercalate_cons_cons]
      simp [hc, hpiece, ih hpieces]

theorem notMem_serialize (pairs : List Pair) : '?' ∉ serialize pairs := by
  refine notMem_intercalate (by decide) fun piece hp => ?_
  obtain ⟨pair, -, rfl⟩ := List.mem_map.mp hp
  intro hm
  rcases List.mem_append.mp hm with hm | hm
  · exact (ne_of_mem_encode hm).2.2 rfl
  · rcases List.mem_cons.mp hm with he | hm
    · exact absurd he (by decide)
    · exact (ne_of_mem_encode hm).2.2 rfl

/-- A query that was written has no question mark to lose. -/
theorem searchParams_serialize (pairs : List Pair) : searchParams (serialize pairs) = pairs := by
  have hmem := notMem_serialize pairs
  have hparse := parse_serialize pairs
  unfold searchParams
  split
  · next query hq =>
    rw [hq] at hmem
    exact absurd List.mem_cons_self hmem
  · exact hparse

theorem decode_question (text : Text) : ∃ rest, decode ('?' :: text) = '?' :: rest := by
  refine ⟨Utf8.decode (bytesOf text), ?_⟩
  rw [decode, bytesOf_cons (by decide), Utf8.decode]
  exact decodeFrom_encodeChar '?' _

end Tunlit.Lib.Forms
