/-! # UTF-8 with replacements

The encoding of a text and the decoder of the Encoding Standard: it never fails, and puts
U+FFFD where the bytes are damaged. -/
namespace Tunlit.Lib.Utf8

def encode (text : List Char) : List UInt8 := text.flatMap String.utf8EncodeChar

@[simp] theorem encode_nil : encode [] = [] := rfl

@[simp] theorem encode_cons (c : Char) (text : List Char) :
    encode (c :: text) = String.utf8EncodeChar c ++ encode text := rfl

@[simp] theorem encode_append (a b : List Char) : encode (a ++ b) = encode a ++ encode b :=
  List.flatMap_append

theorem encodeChar_ascii {c : Char} (h : c.toNat < 0x80) :
    String.utf8EncodeChar c = [UInt8.ofNat c.toNat] := by
  have hc : c.val.toNat ≤ 0x7f := Nat.le_of_lt_succ h
  exact if_pos hc

/-! ## The decoder -/

def replacement : Char := Char.ofNat 0xfffd

/-- A character of several bytes that has begun. -/
structure Begun where
  point : Nat
  needed : Nat
  lower : Nat := 0x80
  upper : Nat := 0xbf
deriving DecidableEq

/-- A byte where a character begins: what is put out, and what has begun. -/
def first (b : Nat) : List Char × Option Begun :=
  if b < 0x80 then ([Char.ofNat b], none)
  else if 0xc2 ≤ b ∧ b ≤ 0xdf then ([], some { point := b % 32, needed := 1 })
  else if 0xe0 ≤ b ∧ b ≤ 0xef then
    ([], some ⟨b % 16, 2, if b = 0xe0 then 0xa0 else 0x80, if b = 0xed then 0x9f else 0xbf⟩)
  else if 0xf0 ≤ b ∧ b ≤ 0xf4 then
    ([], some ⟨b % 8, 3, if b = 0xf0 then 0x90 else 0x80, if b = 0xf4 then 0x8f else 0xbf⟩)
  else ([replacement], none)

def step : Option Begun → Nat → List Char × Option Begun
  | none, b => first b
  | some begun, b =>
    if begun.lower ≤ b ∧ b ≤ begun.upper then
      let point := begun.point * 64 + b % 64
      if begun.needed = 1 then ([Char.ofNat point], none)
      else ([], some { point, needed := begun.needed - 1 })
    -- the byte is read once more, as a first one
    else (replacement :: (first b).1, (first b).2)

def decodeFrom : Option Begun → List UInt8 → List Char
  | none, [] => []
  | some _, [] => [replacement]
  | state, b :: bytes => (step state b.toNat).1 ++ decodeFrom (step state b.toNat).2 bytes

def decode (bytes : List UInt8) : List Char := decodeFrom none bytes

theorem decodeFrom_cons (state : Option Begun) (b : UInt8) (bytes : List UInt8) :
    decodeFrom state (b :: bytes) =
      (step state b.toNat).1 ++ decodeFrom (step state b.toNat).2 bytes := by
  cases state <;> rfl

/-! ## The round trip -/

theorem toNat_ofNat {n : Nat} (h : n < 256) : (UInt8.ofNat n).toNat = n := by
  simp [Nat.mod_eq_of_lt h]

/-- A byte inside a character. -/
theorem step_inner {begun : Begun} {b : Nat} (hl : begun.lower ≤ b) (hu : b ≤ begun.upper)
    (hn : begun.needed ≠ 1) :
    step (some begun) b =
      ([], some { point := begun.point * 64 + b % 64, needed := begun.needed - 1 }) := by
  simp [step, hl, hu, hn]

/-- The last byte of a character. -/
theorem step_last {begun : Begun} {b : Nat} (hl : begun.lower ≤ b) (hu : b ≤ begun.upper)
    (hn : begun.needed = 1) :
    step (some begun) b = ([Char.ofNat (begun.point * 64 + b % 64)], none) := by
  simp [step, hl, hu, hn]

theorem first_two {b : Nat} (h : 0xc2 ≤ b ∧ b ≤ 0xdf) :
    step none b = ([], some { point := b % 32, needed := 1 }) := by
  simp only [step, first]
  rw [if_neg (by omega), if_pos h]

theorem first_three {b : Nat} (h : 0xe0 ≤ b ∧ b ≤ 0xef) :
    step none b = ([], some ⟨b % 16, 2, if b = 0xe0 then 0xa0 else 0x80,
      if b = 0xed then 0x9f else 0xbf⟩) := by
  simp only [step, first]
  rw [if_neg (by omega), if_neg (by omega), if_pos h]

theorem first_four {b : Nat} (h : 0xf0 ≤ b ∧ b ≤ 0xf4) :
    step none b = ([], some ⟨b % 8, 3, if b = 0xf0 then 0x90 else 0x80,
      if b = 0xf4 then 0x8f else 0xbf⟩) := by
  simp only [step, first]
  rw [if_neg (by omega), if_neg (by omega), if_neg (by omega), if_pos h]

theorem decodeFrom_encodeChar (c : Char) (bytes : List UInt8) :
    decodeFrom none (String.utf8EncodeChar c ++ bytes) = c :: decodeFrom none bytes := by
  have hv : c.val.toNat < 0xd800 ∨ 0xdfff < c.val.toNat ∧ c.val.toNat < 0x110000 := c.valid
  have hc : Char.ofNat c.val.toNat = c := Char.ofNat_toNat c
  generalize hn : c.val.toNat = n at hv hc
  simp only [String.utf8EncodeChar, hn]
  split
  · have hb : n < 0x80 := by omega
    rw [List.singleton_append, decodeFrom_cons, toNat_ofNat (by omega)]
    simp [step, first, hb, hc]
  split
  · simp only [List.cons_append, List.nil_append, decodeFrom_cons]
    rw [toNat_ofNat (by omega), toNat_ofNat (by omega), first_two (by omega),
      step_last (by simp) (by simp; omega) rfl]
    have hp : (n / 64 % 0x20 + 0xc0) % 32 * 64 + (n % 0x40 + 0x80) % 64 = n := by omega
    simp only [List.nil_append, List.cons_append, hp, hc]
  split
  · simp only [List.cons_append, List.nil_append, decodeFrom_cons]
    rw [toNat_ofNat (by omega), toNat_ofNat (by omega), toNat_ofNat (by omega),
      first_three (by omega), step_inner (by simp; split <;> omega) (by simp; split <;> omega)
        (by simp), step_last (by simp) (by simp; omega) rfl]
    have hp : ((n / 4096 % 0x10 + 0xe0) % 16 * 64 + (n / 64 % 0x40 + 0x80) % 64) * 64
        + (n % 0x40 + 0x80) % 64 = n := by omega
    simp only [List.nil_append, List.cons_append, hp, hc]
  · simp only [List.cons_append, List.nil_append, decodeFrom_cons]
    rw [toNat_ofNat (by omega), toNat_ofNat (by omega), toNat_ofNat (by omega),
      toNat_ofNat (by omega), first_four (by omega),
      step_inner (by simp; split <;> omega) (by simp; split <;> omega) (by simp),
      step_inner (by simp) (by simp; omega) (by simp), step_last (by simp) (by simp; omega) rfl]
    have hp : (((n / 262144 % 8 + 0xf0) % 8 * 64 + (n / 4096 % 0x40 + 0x80) % 64) * 64
        + (n / 64 % 0x40 + 0x80) % 64) * 64 + (n % 0x40 + 0x80) % 64 = n := by omega
    simp only [List.nil_append, List.cons_append, hp, hc]

/-- What is encoded is read back. -/
theorem decode_encode (text : List Char) : decode (encode text) = text := by
  induction text with
  | nil => rfl
  | cons c text ih =>
    rw [encode_cons, decode, decodeFrom_encodeChar]
    exact congrArg (c :: ·) ih

theorem mem_encodeChar {c : Char} {b : UInt8} (h : b ∈ String.utf8EncodeChar c) :
    b.toNat = c.toNat ∨ 0x80 ≤ b.toNat := by
  have hv : c.val.toNat < 0xd800 ∨ 0xdfff < c.val.toNat ∧ c.val.toNat < 0x110000 := c.valid
  show b.toNat = c.val.toNat ∨ 0x80 ≤ b.toNat
  simp only [String.utf8EncodeChar] at h
  generalize c.val.toNat = n at hv h ⊢
  have key : ∀ m < 256, b = .ofNat m → b.toNat = m := by
    rintro m hm rfl
    exact toNat_ofNat hm
  split at h
  · rw [List.mem_singleton] at h
    exact .inl (key n (by omega) h)
  split at h
  · simp only [List.mem_cons, List.not_mem_nil, or_false] at h
    rcases h with h | h <;> have := key _ (by omega) h <;> omega
  split at h
  · simp only [List.mem_cons, List.not_mem_nil, or_false] at h
    rcases h with h | h | h <;> have := key _ (by omega) h <;> omega
  · simp only [List.mem_cons, List.not_mem_nil, or_false] at h
    rcases h with h | h | h | h <;> have := key _ (by omega) h <;> omega

/-! ## Around a byte that stands alone -/

/-- The characters that have begun do not go on with a byte below 0x80. -/
def High (state : Option Begun) : Prop := ∀ begun ∈ state, 0x80 ≤ begun.lower

theorem high_first (b : Nat) : High (first b).2 := by
  intro begun h
  unfold first at h
  split at h
  · cases h
  split at h
  · cases h
    exact Nat.le_refl _
  split at h
  · cases h
    dsimp only
    split <;> omega
  split at h
  · cases h
    dsimp only
    split <;> omega
  · cases h

theorem high_step (state : Option Begun) (b : Nat) : High (step state b).2 := by
  cases state with
  | none => exact high_first b
  | some begun =>
    simp only [step]
    split
    · split
      · intro _ h
        cases h
      · intro _ h
        cases h
        exact Nat.le_refl _
    · exact high_first b

theorem decodeFrom_append {state : Option Begun} (h : High state) {b : UInt8}
    (hb : b.toNat < 0x80) (front rest : List UInt8) :
    decodeFrom state (front ++ b :: rest) =
      decodeFrom state front ++ Char.ofNat b.toNat :: decodeFrom none rest := by
  induction front generalizing state with
  | nil =>
    rw [List.nil_append, decodeFrom_cons]
    cases state with
    | none => simp [step, first, hb, decodeFrom]
    | some begun =>
      have hlow : ¬ begun.lower ≤ b.toNat := by
        have := h begun rfl
        omega
      simp [step, first, hb, hlow, decodeFrom]
  | cons c front ih =>
    rw [List.cons_append, decodeFrom_cons, decodeFrom_cons, ih (high_step _ _), List.append_assoc]

/-- A byte below 0x80 separates what is before it from what is behind it. -/
theorem decode_append {b : UInt8} (hb : b.toNat < 0x80) (front rest : List UInt8) :
    decode (front ++ b :: rest) = decode front ++ Char.ofNat b.toNat :: decode rest :=
  have hnone : High none := fun _ h => by cases h
  decodeFrom_append hnone hb front rest

/-- The bytes that are some text. -/
def Valid (bytes : List UInt8) : Prop := encode (decode bytes) = bytes

instance (bytes : List UInt8) : Decidable (Valid bytes) :=
  inferInstanceAs (Decidable (encode (decode bytes) = bytes))

theorem valid_encode (text : List Char) : Valid (encode text) := by
  rw [Valid, decode_encode]

end Tunlit.Lib.Utf8
