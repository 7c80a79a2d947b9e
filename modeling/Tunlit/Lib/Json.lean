import Mathlib.Data.List.Basic
import Mathlib.Data.Option.Basic

/-! # JSON of texts, lists and objects

The part of JSON that has no numbers and no other literals: a writer, which puts no white
space and escapes what has to be escaped, a parser, and the round trip. An escape of one half
of a surrogate pair stands for no character and is not read. -/
namespace Tunlit.Lib.Json

abbrev Text := List Char

inductive Value where
  | text (value : Text)
  | list (values : List Value)
  | object (fields : List (Text × Value))

/-! ## Texts -/

/-- The letter that escapes a character, where there is one. -/
def shortEscape (c : Char) : Option Char :=
  if c = '"' ∨ c = '\\' then some c
  else match c.toNat with
    | 0x08 => some 'b'
    | 0x09 => some 't'
    | 0x0a => some 'n'
    | 0x0c => some 'f'
    | 0x0d => some 'r'
    | _ => none

/-- The character that a letter escapes. -/
def shortEscaped (letter : Char) : Option Char :=
  match letter with
  | '"' => some '"'
  | '\\' => some '\\'
  | '/' => some '/'
  | 'b' => some (Char.ofNat 0x08)
  | 't' => some (Char.ofNat 0x09)
  | 'n' => some (Char.ofNat 0x0a)
  | 'f' => some (Char.ofNat 0x0c)
  | 'r' => some (Char.ofNat 0x0d)
  | _ => none

def writeChar (c : Char) : Text :=
  match shortEscape c with
  | some letter => ['\\', letter]
  | none =>
    if c.toNat < 0x20 then
      ['\\', 'u', '0', '0', Nat.digitChar (c.toNat / 16), Nat.digitChar (c.toNat % 16)]
    else [c]

def writeText (value : Text) : Text := '"' :: value.flatMap writeChar ++ ['"']

def hexValue (c : Char) : Option Nat :=
  if '0' ≤ c ∧ c ≤ '9' then some (c.toNat - '0'.toNat)
  else if 'a' ≤ c ∧ c ≤ 'f' then some (c.toNat - 'a'.toNat + 10)
  else if 'A' ≤ c ∧ c ≤ 'F' then some (c.toNat - 'A'.toNat + 10)
  else none

/-- The character of four digits, if it is one. -/
def unit (a b c d : Char) : Option Char := do
  let n := (((← hexValue a) * 16 + (← hexValue b)) * 16 + (← hexValue c)) * 16 + (← hexValue d)
  if n.isValidChar then some (Char.ofNat n) else none

def push (c : Char) (read : Text × Text) : Text × Text := (c :: read.1, read.2)

/-- A text up to its quotation mark, and what is behind it. -/
def readText : Text → Option (Text × Text)
  | [] => none
  | c :: rest =>
    if c = '"' then some ([], rest)
    else if c = '\\' then
      match rest with
      | [] => none
      | letter :: rest =>
        if letter = 'u' then
          match rest with
          | a :: b :: c :: d :: rest =>
            (unit a b c d).bind fun value => (readText rest).map (push value)
          | _ => none
        else (shortEscaped letter).bind fun value => (readText rest).map (push value)
    else if c.toNat < 0x20 then none
    else (readText rest).map (push c)

/-! ## Values -/

mutual

def write : Value → Text
  | .text value => writeText value
  | .list values => '[' :: writeItems values ++ [']']
  | .object fields => '\x7b' :: writeFields fields ++ ['\x7d']

def writeItems : List Value → Text
  | [] => []
  | [value] => write value
  | value :: next :: rest => write value ++ ',' :: writeItems (next :: rest)

def writeFields : List (Text × Value) → Text
  | [] => []
  | [(name, value)] => writeText name ++ ':' :: write value
  | (name, value) :: next :: rest =>
    writeText name ++ ':' :: write value ++ ',' :: writeFields (next :: rest)

end

def isWhite (c : Char) : Bool := c.toNat ∈ [0x20, 0x09, 0x0a, 0x0d]

def skip (text : Text) : Text := text.dropWhile isWhite

/-- A name, a colon, and what is behind them. -/
def readName (text : Text) : Option (Text × Text) :=
  match skip text with
  | '"' :: rest => (readText rest).bind fun read =>
    match skip read.2 with
    | ':' :: rest => some (read.1, rest)
    | _ => none
  | _ => none

mutual

/-- A value at the front of a text, and what is behind it. -/
def read : Nat → Text → Option (Value × Text)
  | 0, _ => none
  | fuel + 1, text =>
    match skip text with
    | '"' :: rest => (readText rest).map fun read => (.text read.1, read.2)
    | '[' :: rest =>
      match skip rest with
      | ']' :: rest => some (.list [], rest)
      | _ => (readItems fuel rest).map fun read => (.list read.1, read.2)
    | '\x7b' :: rest =>
      match skip rest with
      | '\x7d' :: rest => some (.object [], rest)
      | _ => (readFields fuel rest).map fun read => (.object read.1, read.2)
    | _ => none

/-- Values up to the bracket. -/
def readItems : Nat → Text → Option (List Value × Text)
  | 0, _ => none
  | fuel + 1, text => (read fuel text).bind fun value =>
    match skip value.2 with
    | ']' :: rest => some ([value.1], rest)
    | ',' :: rest => (readItems fuel rest).map fun read => (value.1 :: read.1, read.2)
    | _ => none

/-- Fields up to the brace. -/
def readFields : Nat → Text → Option (List (Text × Value) × Text)
  | 0, _ => none
  | fuel + 1, text => (readName text).bind fun name => (read fuel name.2).bind fun value =>
    match skip value.2 with
    | '\x7d' :: rest => some ([(name.1, value.1)], rest)
    | ',' :: rest => (readFields fuel rest).map fun read => ((name.1, value.1) :: read.1, read.2)
    | _ => none

end

def parse (text : Text) : Option Value :=
  (read (text.length + 1) text).bind fun value => if skip value.2 = [] then some value.1 else none

/-! ## Texts are read back -/

theorem readText_short {c letter : Char} (h : shortEscape c = some letter) (rest : Text) :
    readText ('\\' :: letter :: rest) = (readText rest).map (push c) := by
  have key : letter ≠ 'u' ∧ shortEscaped letter = some c := by
    unfold shortEscape at h
    split at h
    · next hc =>
      obtain rfl := Option.some.inj h
      rcases hc with rfl | rfl <;> decide
    · have hc : Char.ofNat c.toNat = c := Char.ofNat_toNat c
      split at h <;> first
        | cases h; done
        | next hn =>
          obtain rfl := Option.some.inj h
          rw [← hc, hn]
          decide
  rw [readText.eq_def]
  dsimp only
  rw [if_neg (by decide), if_pos rfl, if_neg key.1, key.2, Option.bind_some]

theorem unit_control : ∀ n < 0x20,
    unit '0' '0' (Nat.digitChar (n / 16)) (Nat.digitChar (n % 16)) = some (Char.ofNat n) := by
  decide

theorem readText_writeChar (c : Char) (rest : Text) :
    readText (writeChar c ++ rest) = (readText rest).map (push c) := by
  unfold writeChar
  cases h : shortEscape c with
  | some letter => exact readText_short h rest
  | none =>
    dsimp only
    split
    · next hlt =>
      have hunit := unit_control c.toNat hlt
      rw [Char.ofNat_toNat] at hunit
      show readText ('\\' :: 'u' :: '0' :: '0' :: _ :: _ :: rest) = _
      rw [readText.eq_def]
      dsimp only
      rw [if_neg (by decide), if_pos rfl, if_pos rfl, hunit, Option.bind_some]
    · next hge =>
      have hplain : ¬(c = '"' ∨ c = '\\') := by
        intro hc
        rw [shortEscape, if_pos hc] at h
        cases h
      show readText (c :: rest) = _
      rw [readText.eq_def]
      dsimp only
      rw [if_neg fun hc => hplain (.inl hc), if_neg fun hc => hplain (.inr hc), if_neg hge]

theorem readText_writeText (value rest : Text) :
    readText (value.flatMap writeChar ++ '"' :: rest) = some (value, rest) := by
  induction value with
  | nil => rw [List.flatMap_nil, List.nil_append, readText.eq_def]; rfl
  | cons c value ih =>
    rw [List.flatMap_cons, List.append_assoc, readText_writeChar, ih]
    rfl

/-! ## Values are read back -/

theorem skip_cons {c : Char} {rest : Text} (h : isWhite c = false) : skip (c :: rest) = c :: rest :=
  List.dropWhile_cons_of_neg (by simp [h])

/-- A written value begins with a mark that no bracket and no white space is. -/
theorem write_head (value : Value) :
    ∃ c tail, write value = c :: tail ∧ (c = '"' ∨ c = '[' ∨ c = '\x7b') := by
  cases value with
  | text value => exact ⟨_, _, write.eq_1 _, .inl rfl⟩
  | list values => exact ⟨_, _, write.eq_2 _, .inr (.inl rfl)⟩
  | object fields => exact ⟨_, _, write.eq_3 _, .inr (.inr rfl)⟩

theorem writeItems_head (value : Value) (values : List Value) :
    ∃ c tail, writeItems (value :: values) = c :: tail ∧ (c = '"' ∨ c = '[' ∨ c = '\x7b') := by
  obtain ⟨c, tail, hw, hc⟩ := write_head value
  cases values with
  | nil => exact ⟨c, tail, hw, hc⟩
  | cons next rest =>
    refine ⟨c, tail ++ ',' :: writeItems (next :: rest), ?_, hc⟩
    rw [writeItems, hw, List.cons_append]

theorem writeFields_head (field : Text × Value) (fields : List (Text × Value)) :
    ∃ tail, writeFields (field :: fields) = '"' :: tail := by
  cases fields with
  | nil => exact ⟨_, writeFields.eq_2 _ _⟩
  | cons next rest => exact ⟨_, writeFields.eq_3 _ _ _ _⟩

theorem readName_writeText (name rest : Text) :
    readName (writeText name ++ ':' :: rest) = some (name, rest) := by
  have hskip : skip (writeText name ++ ':' :: rest) =
      '"' :: (name.flatMap writeChar ++ '"' :: ':' :: rest) := by
    rw [writeText, List.append_assoc, List.cons_append, List.singleton_append]
    exact skip_cons (by decide)
  have hread : readName (writeText name ++ ':' :: rest) =
      (readText (name.flatMap writeChar ++ '"' :: ':' :: rest)).bind fun read =>
        match skip read.2 with
        | ':' :: rest => some (read.1, rest)
        | _ => none := by
    rw [readName, hskip]
    rfl
  rw [hread, readText_writeText]
  rfl

/-- What begins like a value is not the end of a list. -/
theorem read_list {c : Char} (hc : c = '"' ∨ c = '[' ∨ c = '\x7b') (fuel : Nat) (tail : Text) :
    read (fuel + 1) ('[' :: c :: tail) =
      (readItems fuel (c :: tail)).map fun read => (.list read.1, read.2) := by
  rcases hc with rfl | rfl | rfl <;> rfl

theorem read_object (fuel : Nat) (tail : Text) :
    read (fuel + 1) ('\x7b' :: '"' :: tail) =
      (readFields fuel ('"' :: tail)).map fun read => (.object read.1, read.2) := rfl

theorem readItems_last {fuel : Nat} {text rest : Text} {value : Value}
    (h : read fuel text = some (value, ']' :: rest)) :
    readItems (fuel + 1) text = some ([value], rest) := by
  show (read fuel text).bind _ = _
  rw [h]
  rfl

theorem readItems_next {fuel : Nat} {text rest : Text} {value : Value}
    (h : read fuel text = some (value, ',' :: rest)) :
    readItems (fuel + 1) text =
      (readItems fuel rest).map fun read => (value :: read.1, read.2) := by
  show (read fuel text).bind _ = _
  rw [h]
  rfl

theorem readFields_last {fuel : Nat} {text name next rest : Text} {value : Value}
    (hname : readName text = some (name, next))
    (h : read fuel next = some (value, '\x7d' :: rest)) :
    readFields (fuel + 1) text = some ([(name, value)], rest) := by
  show (readName text).bind _ = _
  rw [hname, Option.bind_some, h]
  rfl

theorem readFields_next {fuel : Nat} {text name next rest : Text} {value : Value}
    (hname : readName text = some (name, next)) (h : read fuel next = some (value, ',' :: rest)) :
    readFields (fuel + 1) text =
      (readFields fuel rest).map fun read => ((name, value) :: read.1, read.2) := by
  show (readName text).bind _ = _
  rw [hname, Option.bind_some, h]
  rfl

mutual

theorem read_write : ∀ (value : Value) (fuel : Nat) (rest : Text), (write value).length ≤ fuel →
    read fuel (write value ++ rest) = some (value, rest)
  | .text value, 0, rest, h => by simp [write, writeText] at h
  | .list values, 0, rest, h => by simp [write] at h
  | .object fields, 0, rest, h => by simp [write] at h
  | .text value, fuel + 1, rest, h => by
    have hw : write (.text value) ++ rest = '"' :: (value.flatMap writeChar ++ '"' :: rest) := by
      simp [write, writeText]
    have hread : read (fuel + 1) ('"' :: (value.flatMap writeChar ++ '"' :: rest)) =
        (readText (value.flatMap writeChar ++ '"' :: rest)).map fun read =>
          (.text read.1, read.2) := rfl
    rw [hw, hread, readText_writeText, Option.map_some]
  | .list [], _ + 1, _, _ => rfl
  | .list (value :: values), fuel + 1, rest, h => by
    have hw : write (.list (value :: values)) ++ rest =
        '[' :: (writeItems (value :: values) ++ ']' :: rest) := by simp [write]
    have hlength : (writeItems (value :: values)).length + 1 ≤ fuel := by
      simp only [write, List.length_append, List.length_cons, List.length_nil] at h
      omega
    have hread := readItems_writeItems value values fuel rest hlength
    obtain ⟨c, tail, htail, hc⟩ := writeItems_head value values
    rw [htail, List.cons_append] at hread hw
    rw [hw, read_list hc, hread, Option.map_some]
  | .object [], _ + 1, _, _ => rfl
  | .object ((name, value) :: fields), fuel + 1, rest, h => by
    have hw : write (.object ((name, value) :: fields)) ++ rest =
        '\x7b' :: (writeFields ((name, value) :: fields) ++ '\x7d' :: rest) := by simp [write]
    have hlength : (writeFields ((name, value) :: fields)).length + 1 ≤ fuel := by
      simp only [write, List.length_append, List.length_cons, List.length_nil] at h
      omega
    have hread := readFields_writeFields name value fields fuel rest hlength
    obtain ⟨tail, htail⟩ := writeFields_head (name, value) fields
    rw [htail, List.cons_append] at hread hw
    rw [hw, read_object, hread, Option.map_some]

theorem readItems_writeItems : ∀ (value : Value) (values : List Value) (fuel : Nat) (rest : Text),
    (writeItems (value :: values)).length + 1 ≤ fuel →
    readItems fuel (writeItems (value :: values) ++ ']' :: rest) = some (value :: values, rest)
  | _, _, 0, _, h => by omega
  | value, [], fuel + 1, rest, h => by
    rw [writeItems] at h ⊢
    exact readItems_last (read_write value fuel _ (by omega))
  | value, next :: values, fuel + 1, rest, h => by
    have hw : writeItems (value :: next :: values) ++ ']' :: rest =
        write value ++ ',' :: (writeItems (next :: values) ++ ']' :: rest) := by
      simp [writeItems]
    have hlength : (write value).length + 1 + (writeItems (next :: values)).length ≤ fuel := by
      simp only [writeItems, List.length_append, List.length_cons] at h
      omega
    rw [hw, readItems_next (read_write value fuel _ (by omega)),
      readItems_writeItems next values fuel rest (by omega), Option.map_some]

theorem readFields_writeFields : ∀ (name : Text) (value : Value) (fields : List (Text × Value))
    (fuel : Nat) (rest : Text), (writeFields ((name, value) :: fields)).length + 1 ≤ fuel →
    readFields fuel (writeFields ((name, value) :: fields) ++ '\x7d' :: rest) =
      some ((name, value) :: fields, rest)
  | _, _, _, 0, _, h => by omega
  | name, value, [], fuel + 1, rest, h => by
    have hw : writeFields [(name, value)] ++ '\x7d' :: rest =
        writeText name ++ ':' :: (write value ++ '\x7d' :: rest) := by simp [writeFields]
    have hlength : (write value).length + 1 ≤ fuel := by
      simp only [writeFields, List.length_append, List.length_cons] at h
      omega
    rw [hw]
    exact readFields_last (readName_writeText _ _) (read_write value fuel _ (by omega))
  | name, value, (name', value') :: fields, fuel + 1, rest, h => by
    have hw : writeFields ((name, value) :: (name', value') :: fields) ++ '\x7d' :: rest =
        writeText name ++ ':' :: (write value ++ ',' ::
          (writeFields ((name', value') :: fields) ++ '\x7d' :: rest)) := by simp [writeFields]
    have hlength : (write value).length + 1 +
        (writeFields ((name', value') :: fields)).length ≤ fuel := by
      simp only [writeFields, List.length_append, List.length_cons] at h ⊢
      omega
    rw [hw, readFields_next (readName_writeText _ _) (read_write value fuel _ (by omega)),
      readFields_writeFields name' value' fields fuel rest (by omega), Option.map_some]

end

/-- What is written is read back. -/
theorem parse_write (value : Value) : parse (write value) = some value := by
  have h := read_write value ((write value).length + 1) [] (by omega)
  rw [List.append_nil] at h
  rw [parse, h]
  rfl

end Tunlit.Lib.Json
