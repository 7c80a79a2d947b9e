import Tunlit.Lib.Forms
import Tunlit.Rust.Text

/-! # Reading percent-encoded text

`percent_decode` of `serve.rs` and of `connect.rs`: one loop over the bytes of a text, which cuts
the two digits out of the text itself. -/
namespace Tunlit.Client.Decoding
open Tunlit.Lib Tunlit.Lib.Percent Tunlit.Rust.Text

/-- `u8::from_str_radix(src, 16)`: a sign may stand before the digits. -/
def fromStrRadix : List Char → Option UInt8
  | [] | ['+'] => none
  | '+' :: digits | digits =>
    (digits.foldlM (fun n c => (hexValue c).bind fun d =>
      if n * 16 + d < 256 then some (n * 16 + d) else none) 0).map .ofNat

/-- The bytes put out from offset `i` on, `kept` of those that are no escapes; none when a slice
panics. -/
def bytesFrom (kept : UInt8 → UInt8) (text : List Char) (i : Nat) : Option (List UInt8) :=
  if h : i < (Utf8.encode text).length then
    let byte := (Utf8.encode text)[i]
    let digits : Option (Option UInt8) :=
      if byte = 0x25 ∧ i + 2 < len text then (slice text (i + 1) (i + 3)).map fromStrRadix
      else some none
    match digits with
    | none => none
    | some (some value) => (bytesFrom kept text (i + 3)).map (value :: ·)
    | some none => (bytesFrom kept text (i + 1)).map (kept byte :: ·)
  else some []
termination_by len text - i
decreasing_by all_goals
  simp only [len]
  omega

/-- `percent_decode` of `serve.rs`. -/
def percentDecode (text : List Char) : Option (List Char) :=
  (bytesFrom id text 0).map Utf8.decode

def plusToSpace (byte : UInt8) : UInt8 := if byte = 0x2b then 0x20 else byte

/-- `percent_decode` of `connect.rs`. -/
def percentDecodeLink (value : List Char) : Option (List Char) :=
  (bytesFrom plusToSpace value 0).map Utf8.decode

/-! ## Character by character -/

/-- The same bytes, read off the characters. -/
def scan (kept : UInt8 → UInt8) : List Char → Option (List UInt8)
  | [] => some []
  | '%' :: a :: b :: rest =>
    if a.utf8Size = 1 ∧ b.utf8Size = 1 then
      match fromStrRadix [a, b] with
      | some value => (scan kept rest).map (value :: ·)
      | none => (scan kept (a :: b :: rest)).map (kept 0x25 :: ·)
    else if a.utf8Size = 2 then (scan kept (a :: b :: rest)).map (kept 0x25 :: ·)
    else none
  | ['%', a] =>
    if a.utf8Size ≤ 2 then (scan kept [a]).map (kept 0x25 :: ·) else none
  | c :: rest => (scan kept rest).map ((String.utf8EncodeChar c).map kept ++ ·)

/-! ## One step of the loop -/

section

variable {kept : UInt8 → UInt8} {text : List Char}

theorem bytesFrom_end {i : Nat} (h : len text ≤ i) : bytesFrom kept text i = some [] := by
  have hi : ¬ i < (Utf8.encode text).length := Nat.not_lt.mpr h
  rw [bytesFrom, dif_neg hi]

/-- One byte that begins no escape. -/
theorem bytesFrom_kept {front back : List UInt8} {b : UInt8}
    (h : Utf8.encode text = front ++ b :: back) (hb : b = 0x25 → back.length < 2) :
    bytesFrom kept text front.length =
      (bytesFrom kept text (front.length + 1)).map (kept b :: ·) := by
  have hi : front.length < (Utf8.encode text).length := by
    simp only [h, List.length_append, List.length_cons]
    omega
  have hget : (Utf8.encode text)[front.length] = b := by simp [h]
  have hguard : ¬ (b = 0x25 ∧ front.length + 2 < len text) := by
    rintro ⟨he, hlt⟩
    have := hb he
    simp only [len, h, List.length_append, List.length_cons] at hlt
    omega
  rw [bytesFrom, dif_pos hi]
  simp only [hget, if_neg hguard]

/-- Bytes without a percent sign are put out as they are. -/
theorem bytesFrom_append {front mid back : List UInt8}
    (h : Utf8.encode text = front ++ mid ++ back) (hfree : 0x25 ∉ mid) :
    bytesFrom kept text front.length =
      (bytesFrom kept text (front ++ mid).length).map (mid.map kept ++ ·) := by
  induction mid generalizing front with
  | nil => simp
  | cons b mid ih =>
    have hb : b ≠ 0x25 := fun he => hfree (he ▸ List.mem_cons_self)
    have hfree' : 0x25 ∉ mid := fun hm => hfree (List.mem_cons_of_mem _ hm)
    rw [List.append_assoc, List.cons_append] at h
    have h' : Utf8.encode text = (front ++ [b]) ++ mid ++ back := by simp [h]
    rw [bytesFrom_kept h fun he => absurd he hb]
    have hrest := ih h' hfree'
    rw [List.length_append, List.length_singleton] at hrest
    rw [hrest, Option.map_map, List.append_assoc]
    rfl

/-- A percent sign with two bytes behind it. -/
theorem bytesFrom_percent {before rest : List Char} (hrest : 2 ≤ len rest) :
    bytesFrom kept (before ++ '%' :: rest) (len before) =
      match (splitAt rest 2).map (fromStrRadix ∘ Prod.fst) with
      | none => none
      | some (some value) =>
        (bytesFrom kept (before ++ '%' :: rest) (len before + 3)).map (value :: ·)
      | some none =>
        (bytesFrom kept (before ++ '%' :: rest) (len before + 1)).map (kept 0x25 :: ·) := by
  have hbytes : Utf8.encode (before ++ '%' :: rest) =
      Utf8.encode before ++ 0x25 :: Utf8.encode rest := by
    rw [Utf8.encode_append, Utf8.encode_cons, Utf8.encodeChar_ascii (by decide)]
    rfl
  have hi : len before < (Utf8.encode (before ++ '%' :: rest)).length := by
    simp only [hbytes, len, List.length_append, List.length_cons]
    omega
  have hget : (Utf8.encode (before ++ '%' :: rest))[len before] = 0x25 := by simp [hbytes, len]
  have hguard : len before + 2 < len (before ++ '%' :: rest) := by
    simp only [len_append, len_cons]
    have : '%'.utf8Size = 1 := rfl
    omega
  have hslice : slice (before ++ '%' :: rest) (len before + 1) (len before + 3) =
      (splitAt rest 2).map Prod.fst := by
    have hone : len (before ++ ['%']) = len before + 1 := len_append before ['%']
    rw [slice, ← hone, List.append_cons, sliceFrom_append, hone, Option.bind_some]
    congr
    omega
  rw [bytesFrom, dif_pos hi]
  simp only [hget, hguard, and_self, if_true, hslice, Option.map_map]

end

/-! ## Character by character -/

/-- What stands behind a percent sign is not cut inside a character, and no sign is read. -/
def Fits : List Char → Prop
  | a :: b :: _ =>
    (a.utf8Size = 1 ∧ b.utf8Size = 1 ∧ ¬ (a = '+' ∧ (hexValue b).isSome)) ∨ a.utf8Size = 2
  | [a] => a.utf8Size ≤ 2
  | [] => True

def Plain (text : List Char) : Prop := ∀ rest, '%' :: rest <:+ text → Fits rest

theorem plain_cons {c : Char} {text : List Char} :
    Plain (c :: text) ↔ (c = '%' → Fits text) ∧ Plain text := by
  simp only [Plain, List.suffix_cons_iff, List.cons.injEq]
  constructor
  · intro h
    exact ⟨fun hc => h text (.inl ⟨hc.symm, rfl⟩), fun rest hrest => h rest (.inr hrest)⟩
  · rintro ⟨hc, h⟩ rest (⟨rfl, rfl⟩ | hrest)
    · exact hc rfl
    · exact h rest hrest

theorem splitAt_pair {a b : Char} (ha : a.utf8Size = 1) (hb : b.utf8Size = 1) (rest : List Char) :
    splitAt (a :: b :: rest) 2 = some ([a, b], rest) := by
  simp [splitAt, ha, hb]

theorem splitAt_single {a : Char} (ha : a.utf8Size = 2) (rest : List Char) :
    splitAt (a :: rest) 2 = some ([a], rest) := by
  simp [splitAt, ha]

/-- The offset is inside a character. -/
theorem splitAt_inside {a b : Char} (ha : a.utf8Size ≠ 2)
    (hab : ¬ (a.utf8Size = 1 ∧ b.utf8Size = 1)) (rest : List Char) :
    splitAt (a :: b :: rest) 2 = none := by
  have hpos := Char.utf8Size_pos a
  have hpos' := Char.utf8Size_pos b
  by_cases h : a.utf8Size = 1
  · have hb : ¬ b.utf8Size ≤ 1 := by omega
    simp [splitAt, h, hb]
  · have : ¬ a.utf8Size ≤ 2 := by omega
    simp [splitAt, this]

theorem encode_percent (before rest : List Char) : Utf8.encode (before ++ '%' :: rest) =
    Utf8.encode before ++ 0x25 :: Utf8.encode rest := by
  rw [Utf8.encode_append, Utf8.encode_cons, Utf8.encodeChar_ascii (by decide)]
  rfl

theorem notMem_percent {c : Char} (hc : c ≠ '%') : 0x25 ∉ String.utf8EncodeChar c := by
  intro h
  rcases Utf8.mem_encodeChar h with he | he
  · exact hc (Char.toNat_inj.mp he.symm)
  · exact absurd he (by decide)

theorem hexValue_spec {a : Char} {d : Nat} (h : hexValue a = some d) :
    d < 16 ∧ a.utf8Size = 1 ∧ a ≠ '%' ∧ a ≠ '+' ∧ a ≠ ' ' := by
  have hrange : ('0' ≤ a ∧ a ≤ '9' ∧ d = a.toNat - 0x30) ∨ ('A' ≤ a ∧ a ≤ 'F' ∧ d = a.toNat - 0x37) ∨
      ('a' ≤ a ∧ a ≤ 'f' ∧ d = a.toNat - 0x57) := by
    simp only [hexValue, Percent.isDigit, Bool.and_eq_true, decide_eq_true_eq] at h
    split at h
    case isTrue hc => exact .inl ⟨hc.1, hc.2, (Option.some.inj h).symm⟩
    split at h
    case isTrue hc => exact .inr (.inl ⟨hc.1, hc.2, (Option.some.inj h).symm⟩)
    split at h
    case isTrue hc => exact .inr (.inr ⟨hc.1, hc.2, (Option.some.inj h).symm⟩)
    cases h
  have hn : ∀ c : Char, c ≤ a ↔ c.toNat ≤ a.toNat := fun c => Iff.rfl
  have hn' : ∀ c : Char, a ≤ c ↔ a.toNat ≤ c.toNat := fun c => Iff.rfl
  have hne : ∀ c : Char, c.toNat ≠ a.toNat → a ≠ c := fun c h he => h (he ▸ rfl)
  simp only [hn, hn'] at hrange
  have : '0'.toNat = 48 ∧ '9'.toNat = 57 ∧ 'A'.toNat = 65 ∧ 'F'.toNat = 70 ∧ 'a'.toNat = 97 ∧
    'f'.toNat = 102 ∧ '%'.toNat = 37 ∧ '+'.toNat = 43 ∧ ' '.toNat = 32 := by decide
  refine ⟨by omega, ?_, hne _ (by omega), hne _ (by omega), hne _ (by omega)⟩
  rw [Char.utf8Size_eq_one_iff, UInt32.le_iff_toNat_le]
  show a.toNat ≤ 127
  omega

theorem fromStrRadix_of_size {a : Char} (h : a.utf8Size = 2) : fromStrRadix [a] = none := by
  have hnone : hexValue a = none := by
    by_contra hne
    obtain ⟨d, hd⟩ := Option.ne_none_iff_exists'.mp hne
    have := (hexValue_spec hd).2.1
    omega
  have hplus : a ≠ '+' := by
    rintro rfl
    cases h
  rw [fromStrRadix]
  · simp [hnone]
  · simp
  · simpa using hplus
  · simpa using hplus

/-- The loop reads what the scan reads, from any character on. -/
theorem bytesFrom_eq_scan {kept : UInt8 → UInt8} (before rest : List Char) :
    bytesFrom kept (before ++ rest) (len before) = scan kept rest := by
  have hpercent : '%'.utf8Size = 1 := rfl
  induction rest using scan.induct generalizing before with
  | case1 =>
    rw [scan, List.append_nil]
    exact bytesFrom_end (Nat.le_refl _)
  | case2 a b rest hsize value hvalue ih =>
    have hlen : len (before ++ ['%', a, b]) = len before + 3 := by simp [hsize, hpercent]
    have hrest := ih (before ++ ['%', a, b])
    rw [hlen, List.append_assoc] at hrest
    rw [bytesFrom_percent (by simp [hsize]; omega), splitAt_pair hsize.1 hsize.2, scan,
      if_pos hsize, ← hrest]
    simp only [Option.map_some, Function.comp_apply, hvalue]
    rfl
  | case3 a b rest hsize hvalue ih =>
    have hlen : len (before ++ ['%']) = len before + 1 := by simp [hpercent]
    have hrest := ih (before ++ ['%'])
    rw [hlen, List.append_assoc] at hrest
    rw [bytesFrom_percent (by simp [hsize]; omega), splitAt_pair hsize.1 hsize.2, scan,
      if_pos hsize, ← hrest]
    simp only [Option.map_some, Function.comp_apply, hvalue]
    rfl
  | case4 a b rest hone hsize ih =>
    have hlen : len (before ++ ['%']) = len before + 1 := by simp [hpercent]
    have hrest := ih (before ++ ['%'])
    rw [hlen, List.append_assoc] at hrest
    rw [bytesFrom_percent (by simp [hsize]), splitAt_single hsize, scan, if_neg hone,
      if_pos hsize, ← hrest]
    simp only [Option.map_some, Function.comp_apply, fromStrRadix_of_size hsize]
    rfl
  | case5 a b rest hone hsize =>
    have ha := Char.utf8Size_pos a
    have hb := Char.utf8Size_pos b
    rw [bytesFrom_percent (by simp; omega), splitAt_inside hsize hone, scan, if_neg hone,
      if_neg hsize]
    rfl
  | case6 a hsize ih =>
    have ha := Char.utf8Size_pos a
    have hlen : len (before ++ ['%']) = len before + 1 := by simp [hpercent]
    have hrest := ih (before ++ ['%'])
    rw [hlen, List.append_assoc] at hrest
    rw [scan, if_pos hsize, ← hrest]
    by_cases htwo : a.utf8Size = 2
    · rw [bytesFrom_percent (by simp [htwo]), splitAt_single htwo]
      simp only [Option.map_some, Function.comp_apply, fromStrRadix_of_size htwo]
      rfl
    · exact bytesFrom_kept (encode_percent before [a]) fun _ => by
        rw [← len, len_cons, len_nil]
        omega
  | case7 a hsize =>
    rw [bytesFrom_percent (by simp; omega), scan, if_neg hsize, splitAt, if_neg hsize]
    rfl
  | case8 c rest htwo hone ih =>
    have hrest := ih (before ++ [c])
    rw [List.append_assoc] at hrest
    have hscan : scan kept (c :: rest) =
        (scan kept rest).map ((String.utf8EncodeChar c).map kept ++ ·) := by
      rw [scan]
      · exact htwo
      · exact hone
    rw [hscan, ← hrest, len_append]
    by_cases hc : c = '%'
    · subst hc
      have hnil : rest = [] := by
        rcases rest with - | ⟨a, - | ⟨b, rest⟩⟩
        · rfl
        · exact (hone a rfl rfl).elim
        · exact (htwo a b rest rfl rfl).elim
      subst hnil
      exact bytesFrom_kept (encode_percent before []) fun _ => Nat.zero_lt_two
    · have hencode : Utf8.encode (before ++ c :: rest) =
          Utf8.encode before ++ String.utf8EncodeChar c ++ Utf8.encode rest := by
        rw [Utf8.encode_append, Utf8.encode_cons, List.append_assoc]
      have hmid := @bytesFrom_append kept _ _ _ _ hencode (notMem_percent hc)
      rw [List.length_append] at hmid
      rw [len, hmid, len, Utf8.encode_cons, Utf8.encode_nil, List.append_nil]
      rfl

theorem fromStrRadix_pair (a b : Char) : fromStrRadix [a, b] =
    if a = '+' then (hexValue b).map .ofNat else escaped a b := by
  split
  case isTrue h =>
    subst h
    rw [fromStrRadix]
    · cases hb : hexValue b with
      | none => simp [hb]
      | some d =>
        have := (hexValue_spec hb).1
        simp [hb, (by omega : d < 256)]
    · simp
  case isFalse h =>
    rw [fromStrRadix, escaped]
    · cases ha : hexValue a with
      | none => simp [ha]
      | some d =>
        cases hb : hexValue b with
        | none => simp [ha, hb]
        | some e =>
          have hd := (hexValue_spec ha).1
          have he := (hexValue_spec hb).1
          simp [ha, hb, (by omega : d < 256), (by omega : d * 16 + e < 256)]
    · simp
    · simp
    · simpa using h

/-! ## What is to be read -/

/-- A character and its bytes are kept alike, and escapes stay as they are. -/
structure Keeps (kept : UInt8 → UInt8) (char : Char → Char) : Prop where
  bytes : ∀ c, (String.utf8EncodeChar c).map kept = String.utf8EncodeChar (char c)
  percent : ∀ c, char c = '%' ↔ c = '%'
  escaped : ∀ a b, escaped (char a) (char b) = escaped a b

theorem keeps_id : Keeps id id := ⟨fun _ => List.map_id _, fun _ => Iff.rfl, fun _ _ => rfl⟩

theorem keeps_plus : Keeps plusToSpace Forms.space where
  bytes c := by
    by_cases hc : c = '+'
    · subst hc
      rfl
    · rw [Forms.space, if_neg hc]
      refine (List.map_congr_left fun b hb => ?_).trans (List.map_id _)
      have hne : b ≠ 0x2b := by
        rintro rfl
        rcases Utf8.mem_encodeChar hb with he | he
        · exact hc (Char.toNat_inj.mp he.symm)
        · exact absurd he (by decide)
      exact if_neg hne
  percent c := by
    unfold Forms.space
    split
    case isTrue h => simp [h]
    case isFalse => rfl
  escaped a b := by
    have h : ∀ c, hexValue (Forms.space c) = hexValue c := by
      intro c
      unfold Forms.space
      split
      case isTrue h => rw [h]; rfl
      case isFalse => rfl
    simp only [escaped, h]

section

variable {kept : UInt8 → UInt8} {char : Char → Char}

theorem Keeps.char_percent (hk : Keeps kept char) : char '%' = '%' := (hk.percent '%').mpr rfl

theorem Keeps.kept_percent (hk : Keeps kept char) : kept 0x25 = 0x25 := by
  have := hk.bytes '%'
  rw [hk.char_percent] at this
  exact (List.cons.inj this).1

theorem decode_percent {a b : Char} (h : escaped a b = none) (rest : List Char) :
    Percent.decode ('%' :: a :: b :: rest) = 0x25 :: Percent.decode (a :: b :: rest) := by
  rw [Percent.decode, h]

theorem decode_escaped {a b : Char} {value : UInt8} (h : escaped a b = some value)
    (rest : List Char) : Percent.decode ('%' :: a :: b :: rest) = value :: Percent.decode rest := by
  rw [Percent.decode, h]

theorem escaped_of_size {a : Char} (h : a.utf8Size = 2) (b : Char) : escaped a b = none := by
  unfold escaped
  cases ha : hexValue a with
  | none => rfl
  | some d =>
    have := (hexValue_spec ha).2.1
    omega

theorem escaped_of_fromStrRadix {a b : Char} (h : fromStrRadix [a, b] = none) :
    escaped a b = none := by
  rw [fromStrRadix_pair] at h
  split at h
  case isTrue ha =>
    subst ha
    rfl
  case isFalse => exact h

/-- The characters before an escape are read one by one. -/
theorem decode_char (hk : Keeps kept char) {c : Char} {rest : List Char}
    (htwo : ∀ a b more, c = '%' → rest = a :: b :: more → escaped a b = none) :
    Percent.decode ((c :: rest).map char) =
      (String.utf8EncodeChar c).map kept ++ Percent.decode (rest.map char) := by
  by_cases hc : c = '%'
  · subst hc
    have hkept : (String.utf8EncodeChar '%').map kept = [0x25] := by
      rw [hk.bytes, hk.char_percent]
      rfl
    rw [hkept, List.map_cons, hk.char_percent]
    rcases rest with - | ⟨a, - | ⟨b, more⟩⟩
    · rfl
    · rfl
    · exact decode_percent ((hk.escaped a b).trans (htwo a b more rfl rfl)) _
  · rw [List.map_cons, Percent.decode_cons (fun h => hc ((hk.percent c).mp h)), hk.bytes]

/-- A percent sign that begins no escape stays. -/
theorem decode_kept (hk : Keeps kept char) {rest : List Char}
    (h : ∀ a b more, rest = a :: b :: more → escaped a b = none) :
    Percent.decode (('%' :: rest).map char) = kept 0x25 :: Percent.decode (rest.map char) :=
  decode_char hk fun a b more _ => h a b more

/-- Every escape and nothing else is replaced where nothing is cut and no sign is read. -/
theorem scan_of_plain (hk : Keeps kept char) {text : List Char} (h : Plain text) :
    scan kept text = some (Percent.decode (text.map char)) := by
  induction text using scan.induct with
  | case1 => rfl
  | case2 a b rest hsize value hvalue ih =>
    obtain ⟨hfits, hplain⟩ := plain_cons.mp h
    have hescaped : escaped a b = some value := by
      rw [fromStrRadix_pair] at hvalue
      split at hvalue
      case isTrue ha =>
        obtain ⟨d, hd, -⟩ := Option.map_eq_some_iff.mp hvalue
        rcases hfits rfl with hf | hf
        · exact absurd ⟨ha, by rw [hd]; rfl⟩ hf.2.2
        · omega
      case isFalse => exact hvalue
    rw [scan, if_pos hsize, hvalue, ih (plain_cons.mp (plain_cons.mp hplain).2).2]
    simp only [List.map_cons, hk.char_percent,
      decode_escaped ((hk.escaped a b).trans hescaped), Option.map_some]
  | case3 a b rest hsize hvalue ih =>
    have hescaped := escaped_of_fromStrRadix hvalue
    rw [scan, if_pos hsize, hvalue, ih (plain_cons.mp h).2, decode_kept hk]
    · rfl
    · rintro _ _ _ ⟨⟩
      exact hescaped
  | case4 a b rest hone hsize ih =>
    rw [scan, if_neg hone, if_pos hsize, ih (plain_cons.mp h).2, decode_kept hk]
    · rfl
    · rintro _ _ _ ⟨⟩
      exact escaped_of_size hsize b
  | case5 a b rest hone hsize =>
    rcases (plain_cons.mp h).1 rfl with hf | hf
    · exact absurd ⟨hf.1, hf.2.1⟩ hone
    · exact absurd hf hsize
  | case6 a hsize ih =>
    rw [scan, if_pos hsize, ih (plain_cons.mp h).2, decode_kept hk]
    · rfl
    · rintro _ _ _ ⟨⟩
  | case7 a hsize => exact absurd ((plain_cons.mp h).1 rfl) hsize
  | case8 c rest htwo hone ih =>
    rw [scan, ih (plain_cons.mp h).2, decode_char hk]
    · rfl
    · exact fun a b more hc hrest => (htwo a b more hc hrest).elim
    · exact htwo
    · exact hone

/-- A slice panics, or a sign and a digit are read as a byte. -/
def Fails (read : Option (List UInt8)) (right : List UInt8) : Prop :=
  read = none ∨ ∃ front value x y, value.toNat < 0x10 ∧ read = some (front ++ value :: x) ∧
    right = front ++ 0x25 :: y

theorem Fails.append {read : Option (List UInt8)} {right : List UInt8} (front : List UInt8)
    (h : Fails read right) : Fails (read.map (front ++ ·)) (front ++ right) := by
  rcases h with rfl | ⟨mid, value, x, y, hvalue, rfl, rfl⟩
  · exact .inl rfl
  · refine .inr ⟨front ++ mid, value, x, y, hvalue, ?_, ?_⟩ <;> simp

theorem scan_of_not_plain (hk : Keeps kept char) {text : List Char} (h : ¬ Plain text) :
    Fails (scan kept text) (Percent.decode (text.map char)) := by
  have hcases : ∀ {c rest}, ¬ Plain (c :: rest) → ¬ (c = '%' ∧ ¬ Fits rest) → ¬ Plain rest :=
    fun hp hf hr => hp (plain_cons.mpr ⟨fun hc => not_not.mp fun hn => hf ⟨hc, hn⟩, hr⟩)
  induction text using scan.induct with
  | case1 => exact absurd (fun rest hr => by simp at hr) h
  | case2 a b rest hsize value hvalue ih =>
    rw [scan, if_pos hsize, hvalue]
    rw [fromStrRadix_pair] at hvalue
    split at hvalue
    case isTrue ha =>
      obtain ⟨d, hd, rfl⟩ := Option.map_eq_some_iff.mp hvalue
      have hlt := (hexValue_spec hd).1
      have hescaped : escaped a b = none := by
        subst ha
        rfl
      rw [decode_kept hk (by rintro _ _ _ ⟨⟩; exact hescaped), hk.kept_percent]
      cases hrest : scan kept rest with
      | none => exact .inl rfl
      | some x =>
        refine .inr ⟨[], _, x, _, ?_, rfl, rfl⟩
        rw [Utf8.toNat_ofNat (by omega)]
        exact hlt
    case isFalse ha =>
      have hne : ∀ c d, hexValue c = some d → c ≠ '%' := fun c d hc => (hexValue_spec hc).2.2.1
      obtain ⟨ha', hb'⟩ : a ≠ '%' ∧ b ≠ '%' := by
        unfold escaped at hvalue
        split at hvalue
        case h_1 x y hx hy => exact ⟨hne a x hx, hne b y hy⟩
        case h_2 => cases hvalue
      have hplain := hcases (hcases (hcases h fun hf => hf.2 (.inl ⟨hsize.1, hsize.2, fun he => ha he.1⟩))
        fun hf => ha' hf.1) fun hf => hb' hf.1
      rw [List.map_cons, List.map_cons, List.map_cons, hk.char_percent,
        decode_escaped ((hk.escaped a b).trans hvalue)]
      exact Fails.append [value] (ih hplain)
  | case3 a b rest hsize hvalue ih =>
    have hescaped := escaped_of_fromStrRadix hvalue
    rw [scan, if_pos hsize, hvalue, decode_kept hk]
    · refine Fails.append [kept 0x25] (ih (hcases h fun hf => hf.2 (.inl ⟨hsize.1, hsize.2, ?_⟩)))
      rintro ⟨rfl, hb⟩
      rw [fromStrRadix_pair, if_pos rfl, Option.map_eq_none_iff] at hvalue
      rw [hvalue] at hb
      cases hb
    · rintro _ _ _ ⟨⟩
      exact hescaped
  | case4 a b rest hone hsize ih =>
    rw [scan, if_neg hone, if_pos hsize, decode_kept hk]
    · exact Fails.append [kept 0x25] (ih (hcases h fun hf => hf.2 (.inr hsize)))
    · rintro _ _ _ ⟨⟩
      exact escaped_of_size hsize b
  | case5 a b rest hone hsize =>
    rw [scan, if_neg hone, if_neg hsize]
    exact .inl rfl
  | case6 a hsize ih =>
    rw [scan, if_pos hsize, decode_kept hk]
    · exact Fails.append [kept 0x25] (ih (hcases h fun hf => hf.2 hsize))
    · rintro _ _ _ ⟨⟩
  | case7 a hsize =>
    rw [scan, if_neg hsize]
    exact .inl rfl
  | case8 c rest htwo hone ih =>
    rw [scan, decode_char hk]
    · refine Fails.append _ (ih (hcases h ?_))
      rintro ⟨hc, hf⟩
      rcases rest with - | ⟨a, - | ⟨b, more⟩⟩
      · exact hf trivial
      · exact hone a hc rfl
      · exact htwo a b more hc rfl
    · exact fun a b more hc hrest => (htwo a b more hc hrest).elim
    · exact htwo
    · exact hone

/-- The text is read as it is to be where nothing is cut and no sign is read, and nowhere else. -/
theorem reads_iff (hk : Keeps kept char) {text : List Char} :
    (bytesFrom kept text 0).map Utf8.decode =
      some (Utf8.decode (Percent.decode (text.map char))) ↔ Plain text := by
  have hscan : bytesFrom kept text 0 = scan kept text := bytesFrom_eq_scan [] text
  rw [hscan]
  constructor
  · intro h
    by_contra hp
    rcases scan_of_not_plain hk hp with hnone | ⟨front, value, x, y, hvalue, hread, hright⟩
    · rw [hnone] at h
      cases h
    · have hne : ∀ n < 16, Char.ofNat n ≠ Char.ofNat 0x25 := by decide
      have hlt : value.toNat < 0x80 := by omega
      rw [hread, hright, Option.map_some, Option.some.injEq, Utf8.decode_append hlt,
        Utf8.decode_append (by decide)] at h
      exact hne _ hvalue (List.cons.inj (List.append_cancel_left h)).1
  · intro h
    rw [scan_of_plain hk h, Option.map_some]

/-! ## Around a slash -/

theorem scan_char {c : Char} (hc : c ≠ '%') (rest : List Char) :
    scan kept (c :: rest) = (scan kept rest).map ((String.utf8EncodeChar c).map kept ++ ·) := by
  rw [scan]
  · exact fun _ _ _ h => absurd h hc
  · exact fun _ h => absurd h hc

theorem scan_slash (rest : List Char) : scan kept ('/' :: rest) =
    (scan kept rest).map (kept 0x2f :: ·) := scan_char (by decide) rest

theorem fromStrRadix_slash (a : Char) :
    fromStrRadix ['/', a] = none ∧ fromStrRadix [a, '/'] = none := by
  have hslash : hexValue '/' = none := rfl
  constructor
  · rw [fromStrRadix_pair, if_neg (by decide), escaped, hslash]
  · rw [fromStrRadix_pair, escaped, hslash]
    split
    · rfl
    · cases hexValue a <;> rfl

/-- Nothing is read across a slash, but a slice may end inside the character behind it. -/
theorem scan_append (front back : List Char) :
    scan kept (front ++ '/' :: back) = ((scan kept front).bind fun read =>
        (scan kept back).map (read ++ kept 0x2f :: ·)) ∨
      scan kept (front ++ '/' :: back) = none ∧ ∃ c ∈ back.head?, c.utf8Size ≠ 1 := by
  have hslash : '/'.utf8Size = 1 := rfl
  have hstep : ∀ (bytes : List UInt8) {read read' : Option (List UInt8)} {p : Prop},
      (read = (read'.bind fun read => (scan kept back).map (read ++ kept 0x2f :: ·)) ∨
        read = none ∧ p) →
      read.map (bytes ++ ·) = ((read'.map (bytes ++ ·)).bind fun read =>
          (scan kept back).map (read ++ kept 0x2f :: ·)) ∨ read.map (bytes ++ ·) = none ∧ p := by
    rintro bytes read read' p (rfl | ⟨rfl, hp⟩)
    · refine .inl ?_
      cases read' <;> cases scan kept back <;> simp
    · exact .inr ⟨rfl, hp⟩
  induction front using scan.induct with
  | case1 =>
    rw [List.nil_append, scan_slash, scan]
    exact .inl rfl
  | case2 a b rest hsize value hvalue ih =>
    simp only [List.cons_append, scan, if_pos hsize, hvalue]
    exact hstep [value] ih
  | case3 a b rest hsize hvalue ih =>
    simp only [List.cons_append, scan, if_pos hsize, hvalue]
    exact hstep [kept 0x25] ih
  | case4 a b rest hone hsize ih =>
    simp only [List.cons_append, scan, if_neg hone, if_pos hsize]
    exact hstep [kept 0x25] ih
  | case5 a b rest hone hsize =>
    simp only [List.cons_append, scan, if_neg hone, if_neg hsize]
    exact .inl rfl
  | case6 a hsize ih =>
    rw [List.cons_append, List.cons_append, List.nil_append, scan, scan, if_pos hsize]
    by_cases hone : a.utf8Size = 1
    · rw [if_pos ⟨hone, hslash⟩, (fromStrRadix_slash a).2]
      exact hstep [kept 0x25] ih
    · have ha := Char.utf8Size_pos a
      rw [if_neg (fun h => hone h.1), if_pos (by omega)]
      exact hstep [kept 0x25] ih
  | case7 a hsize =>
    rw [List.cons_append, List.cons_append, List.nil_append, scan, scan, if_neg hsize,
      if_neg (by omega), if_neg (by omega)]
    exact .inl rfl
  | case8 c rest htwo hone ih =>
    by_cases hc : c = '%'
    · subst hc
      have hnil : rest = [] := by
        rcases rest with - | ⟨a, - | ⟨b, rest⟩⟩
        · rfl
        · exact (hone a rfl rfl).elim
        · exact (htwo a b rest rfl rfl).elim
      subst hnil
      -- the slash is the first of the two bytes that are cut out
      cases back with
      | nil => exact .inl rfl
      | cons b back =>
        rw [List.cons_append, List.nil_append] at *
        by_cases hb : b.utf8Size = 1
        · rw [scan, if_pos ⟨hslash, hb⟩, (fromStrRadix_slash b).1]
          exact hstep [kept 0x25] ih
        · refine .inr ⟨?_, b, rfl, hb⟩
          rw [scan, if_neg (fun h => hb h.2), if_neg (by decide)]
    · rw [List.cons_append, scan_char hc, scan_char hc]
      exact hstep _ ih

/-! ## What is written is read back -/

/-- What is written as it is stands for itself. -/
def Escapes (set : Char → Bool) (kept : UInt8 → UInt8) : Prop :=
  ∀ b : UInt8, set (Char.ofNat b.toNat) = false → b.toNat < 0x80 ∧ b ≠ 0x25 ∧ kept b = b

theorem hexDigit_spec : ∀ n < 16, (hexDigit n).utf8Size = 1 ∧ hexDigit n ≠ '+' := by decide

theorem scan_encodeByte {set : Char → Bool} (h : Escapes set kept) (b : UInt8) (text : List Char) :
    scan kept (encodeByte set b ++ text) = (scan kept text).map (b :: ·) := by
  unfold encodeByte
  split
  case isTrue =>
    have hb := b.toNat_lt
    obtain ⟨hhigh, hplus⟩ := hexDigit_spec (b.toNat / 16) (by omega)
    obtain ⟨hlow, -⟩ := hexDigit_spec (b.toNat % 16) (by omega)
    rw [escape, List.cons_append, List.cons_append, List.cons_append, List.nil_append, scan,
      if_pos ⟨hhigh, hlow⟩, fromStrRadix_pair, if_neg hplus, escaped_digits]
  case isFalse hset =>
    obtain ⟨hascii, hne, hkept⟩ := h b (Bool.eq_false_iff.mpr hset)
    have hc : Char.ofNat b.toNat ≠ '%' := by
      intro he
      have := encodeChar_byte hascii
      rw [he] at this
      exact hne (List.cons.inj this).1.symm
    rw [List.singleton_append, scan_char hc, encodeChar_byte hascii, List.map_singleton, hkept]
    rfl

theorem scan_encode {set : Char → Bool} (h : Escapes set kept) (text : List Char) :
    scan kept (Percent.encode set text) = some (Utf8.encode text) := by
  unfold Percent.encode
  induction Utf8.encode text with
  | nil => rfl
  | cons b bytes ih => rw [List.flatMap_cons, scan_encodeByte h, ih, Option.map_some]

end

theorem percentDecode_eq (text : List Char) :
    percentDecode text = (scan id text).map Utf8.decode := by
  rw [percentDecode, ← bytesFrom_eq_scan [] text]
  rfl

theorem percentDecodeLink_eq (value : List Char) :
    percentDecodeLink value = (scan plusToSpace value).map Utf8.decode := by
  rw [percentDecodeLink, ← bytesFrom_eq_scan [] value]
  rfl

theorem percentDecode_append (front back : List Char) :
    percentDecode (front ++ '/' :: back) = ((percentDecode front).bind fun read =>
        (percentDecode back).map (read ++ '/' :: ·)) ∨
      percentDecode (front ++ '/' :: back) = none ∧ ∃ c ∈ back.head?, c.utf8Size ≠ 1 := by
  simp only [percentDecode_eq]
  refine (@scan_append id front back).imp (fun h => ?_) fun ⟨h, hc⟩ => ⟨by rw [h]; rfl, hc⟩
  rw [h]
  cases scan id front with
  | none => rfl
  | some read =>
    cases scan id back with
    | none => rfl
    | some read' => exact congrArg some (Utf8.decode_append (by decide) read read')

theorem percentDecode_slash (front : List Char) :
    percentDecode (front ++ ['/']) = (percentDecode front).map (· ++ ['/']) := by
  have hnil : percentDecode [] = some [] := by
    rw [percentDecode_eq, scan]
    rfl
  rcases percentDecode_append front [] with h | ⟨-, c, hc, -⟩
  · rw [h, hnil]
    cases percentDecode front <;> rfl
  · cases hc

theorem percentDecode_cons_slash (back : List Char) :
    percentDecode ('/' :: back) = (percentDecode back).map ('/' :: ·) := by
  rw [percentDecode_eq, percentDecode_eq, scan_slash, Option.map_map, Option.map_map]
  exact congrArg (Option.map · _) (funext fun bytes => Utf8.decode_append (by decide) [] bytes)

end Tunlit.Client.Decoding
