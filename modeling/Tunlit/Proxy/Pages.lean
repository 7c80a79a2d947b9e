import Tunlit.Lib.Json

/-! # Pages that carry a state

`utils/pages.js`: the web page gets the state that it starts with as a script in front of its
closing head tag. The index page is a text, none when there is no build. -/
namespace Tunlit.Proxy.Pages
open Tunlit.Lib.Json

/-! ## States -/

/-- The states of `controllers/http.js` and `lib/proxy.js`. -/
inductive State where
  | missing (id : Text)
  | offline (id : Text)
  | blocked (id ip reason : Text)
  | gate (id auth : Text) (authorize : Option Text)
  | attach (id path : Text)

def State.kind : State → Text
  | .missing _ => "missing".toList
  | .offline _ => "offline".toList
  | .blocked .. => "blocked".toList
  | .gate .. => "gate".toList
  | .attach .. => "attach".toList

abbrev Fields := List (Text × Option Text)

/-- What is behind the kind; none is null. -/
def State.rest : State → Fields
  | .missing id | .offline id => [("id".toList, some id)]
  | .blocked id ip reason =>
    [("id".toList, some id), ("ip".toList, some ip), ("reason".toList, some reason)]
  | .gate id auth authorize =>
    [("id".toList, some id), ("auth".toList, some auth), ("authorize".toList, authorize)]
  | .attach id path => [("id".toList, some id), ("to".toList, some path)]

def State.fields (state : State) : Fields := ("kind".toList, some state.kind) :: state.rest

def writeValue : Option Text → Text
  | some value => writeText value
  | none => "null".toList

def writeFields : Fields → Text
  | [] => []
  | [(name, value)] => writeText name ++ ':' :: writeValue value
  | (name, value) :: next :: rest =>
    writeText name ++ ':' :: writeValue value ++ ',' :: writeFields (next :: rest)

def stringify (fields : Fields) : Text := '\x7b' :: writeFields fields ++ ['\x7d']

/-- What `replace(/</g, "\\u003c")` makes of a character. -/
def escapeChar (c : Char) : Text := if c = '<' then "\\u003c".toList else [c]

def escapeTags (text : Text) : Text := text.flatMap escapeChar

def payload (state : State) : Text := escapeTags (stringify state.fields)

/-! ## Replacing -/

/-- A text around the first occurrence of a pattern. -/
def splitFirst (pattern : Text) : Text → Option (Text × Text)
  | [] => if pattern = [] then some ([], []) else none
  | c :: rest =>
    if pattern.isPrefixOf (c :: rest) then some ([], (c :: rest).drop pattern.length)
    else (splitFirst pattern rest).map (.map (c :: ·) id)

/-- A replacement with what its dollar sequences stand for: the sign itself, the match, and the
text before and behind it. -/
def expand (before matched after : Text) : Text → Text
  | '$' :: c :: rest =>
    if c = '$' then '$' :: expand before matched after rest
    else if c = '&' then matched ++ expand before matched after rest
    else if c = Char.ofNat 0x60 then before ++ expand before matched after rest
    else if c = Char.ofNat 0x27 then after ++ expand before matched after rest
    else '$' :: expand before matched after (c :: rest)
  | c :: rest => c :: expand before matched after rest
  | [] => []

/-- `text.replace(pattern, replacement)` -/
def replace (text pattern replacement : Text) : Text :=
  match splitFirst pattern text with
  | none => text
  | some (before, after) => before ++ expand before pattern after replacement ++ after

/-! ## Sending -/

structure Request where
  method : Text
  dest : Option Text
  accept : Option Text

structure Response where
  status : Nat
  headers : List (Text × Text)
  body : Option Text

def isWord (c : Char) : Bool :=
  ('a' ≤ c && c ≤ 'z') || ('A' ≤ c && c ≤ 'Z') || ('0' ≤ c && c ≤ '9') || c = '_'

/-- `/\btext\/html\b/`, behind a character that is one of a word or is not. -/
def mentionsHtml : Bool → Text → Bool
  | _, [] => false
  | inWord, c :: rest =>
    (!inWord && "text/html".toList.isPrefixOf (c :: rest) &&
      !(((c :: rest).drop "text/html".length).head?.any isWord)) || mentionsHtml (isWord c) rest

def isNavigation (req : Request) : Bool :=
  if req.dest = some "document".toList then true
  else if req.dest.any fun dest => dest ≠ [] && dest ≠ "empty".toList then false
  else mentionsHtml false (req.accept.getD [])

def contentLength (body : Text) : Text := Nat.toDigits 10 (body.flatMap String.utf8EncodeChar).length

def sendJson (status : Nat) (fields : Fields) (extraHeaders : List (Text × Text)) : Response :=
  let body := stringify fields
  ⟨status, [("Content-Type".toList, "application/json; charset=utf-8".toList),
    ("Content-Length".toList, contentLength body), ("Cache-Control".toList, "no-store".toList)] ++
    extraHeaders, some body⟩

def headEnd : Text := "</head>".toList

def opening : Text := "<script>window.__tunlit__=".toList

def closing : Text := "</script>".toList

def script (state : State) : Text := opening ++ payload state ++ closing

def sendAppState (readIndex : Option Text) (req : Request) (status : Nat) (state : State)
    (extraHeaders : List (Text × Text)) : Response :=
  let html := readIndex.getD []
  if !isNavigation req || html = [] then
    sendJson status (("error".toList, some state.kind) :: state.fields) extraHeaders
  else
    let body := replace html headEnd (script state ++ headEnd)
    ⟨status, [("Content-Type".toList, "text/html; charset=utf-8".toList),
      ("Content-Length".toList, contentLength body), ("Cache-Control".toList, "no-store".toList)] ++
      extraHeaders, if req.method = "HEAD".toList then none else some body⟩

/-! ## What the script evaluates to -/

/-- A literal of a text or null at the front of a source, and what is behind it. -/
def readValue : Text → Option (Option Text × Text)
  | '"' :: rest => (readText rest).map (.map some id)
  | 'n' :: 'u' :: 'l' :: 'l' :: rest => some (none, rest)
  | _ => none

theorem readValue_quote (rest : Text) :
    readValue ('"' :: rest) = (readText rest).map (.map some id) := rfl

/-- The properties of an object literal, up to the brace that ends the source. -/
def readProperties : Nat → Text → Option Fields
  | fuel + 1, '"' :: rest =>
    (readText rest).bind fun name =>
      match name.2 with
      | ':' :: rest => (readValue rest).bind fun value =>
        match value.2 with
        | ',' :: rest => (readProperties fuel rest).map ((name.1, value.1) :: ·)
        | ['\x7d'] => some [(name.1, value.1)]
        | _ => none
      | _ => none
  | _, _ => none

/-- The object that a literal without white space stands for. -/
def evaluate : Text → Option Fields
  | '\x7b' :: source => readProperties source.length source
  | _ => none

@[simp] theorem escapeTags_append (a b : Text) : escapeTags (a ++ b) = escapeTags a ++ escapeTags b :=
  List.flatMap_append

@[simp] theorem escapeTags_cons (c : Char) (text : Text) :
    escapeTags (c :: text) = escapeChar c ++ escapeTags text := rfl

theorem escapeTags_of_notMem {text : Text} (h : '<' ∉ text) : escapeTags text = text := by
  induction text with
  | nil => rfl
  | cons c text ih =>
    obtain ⟨hc, htext⟩ := List.ne_and_not_mem_of_not_mem_cons h
    rw [escapeTags_cons, escapeChar, if_neg hc.symm, ih htext, List.singleton_append]

theorem notMem_escapeTags (text : Text) : '<' ∉ escapeTags text := by
  intro h
  obtain ⟨c, -, hc⟩ := List.mem_flatMap.mp h
  unfold escapeChar at hc
  split at hc
  · exact absurd hc (by decide)
  case isFalse hne => exact hne (List.mem_singleton.mp hc).symm

theorem writeChar_ne {c : Char} (hc : c ≠ '<') : '<' ∉ writeChar c := by
  have hdigit : ∀ n < 32, Nat.digitChar (n / 16) ≠ '<' ∧ Nat.digitChar (n % 16) ≠ '<' := by decide
  unfold writeChar
  cases h : shortEscape c with
  | some letter =>
    have hletter : letter ≠ '<' := by
      unfold shortEscape at h
      split at h
      · exact Option.some.inj h ▸ hc
      · split at h <;> cases h <;> decide
    simp only [List.mem_cons, List.not_mem_nil, or_false, not_or]
    exact ⟨by decide, hletter.symm⟩
  | none =>
    dsimp only
    split
    case isTrue hlt =>
      obtain ⟨hhigh, hlow⟩ := hdigit c.toNat hlt
      simp only [List.mem_cons, List.not_mem_nil, or_false, not_or]
      exact ⟨by decide, by decide, by decide, by decide, hhigh.symm, hlow.symm⟩
    case isFalse => simpa using hc.symm

theorem readText_escaped (value rest : Text) :
    readText (escapeTags (value.flatMap writeChar) ++ '"' :: rest) = some (value, rest) := by
  induction value with
  | nil => exact readText_writeText [] rest
  | cons c value ih =>
    rw [List.flatMap_cons, escapeTags_append, List.append_assoc]
    by_cases hc : c = '<'
    · subst hc
      have hwrite : escapeTags (writeChar '<') = "\\u003c".toList := rfl
      have hunit : unit '0' '0' '3' 'c' = some '<' := by decide
      rw [hwrite]
      show readText ('\\' :: 'u' :: '0' :: '0' :: '3' :: 'c' :: _) = _
      rw [readText.eq_def]
      dsimp only
      rw [if_neg (by decide), if_pos rfl, if_pos rfl, hunit, Option.bind_some]
      exact congrArg (Option.map (push '<')) ih
    · rw [escapeTags_of_notMem (writeChar_ne hc), readText_writeChar, ih]
      rfl

theorem escapeTags_writeText (value : Text) : escapeTags (writeText value) =
    '"' :: (escapeTags (value.flatMap writeChar) ++ ['"']) := by
  rw [writeText, escapeTags_append, escapeTags_cons]
  rfl

theorem escapeTags_writeValue (value : Option Text) (rest : Text) :
    readValue (escapeTags (writeValue value) ++ rest) = some (value, rest) := by
  cases value with
  | none => rfl
  | some value =>
    show readValue (escapeTags (writeText value) ++ rest) = _
    rw [escapeTags_writeText, List.cons_append, List.append_assoc, readValue_quote,
      List.singleton_append, readText_escaped]
    rfl

theorem readProperties_name (fuel : Nat) (name more : Text) :
    readProperties (fuel + 1) (escapeTags (writeText name) ++ ':' :: more) =
      (readValue more).bind fun value =>
        match value.2 with
        | ',' :: rest => (readProperties fuel rest).map ((name, value.1) :: ·)
        | ['\x7d'] => some [(name, value.1)]
        | _ => none := by
  rw [escapeTags_writeText, List.cons_append, List.append_assoc, List.singleton_append,
    readProperties, readText_escaped]
  rfl

theorem readProperties_writeFields {field : Text × Option Text} {fields : Fields} {fuel : Nat}
    (hfuel : fields.length ≤ fuel) :
    readProperties (fuel + 1) (escapeTags (writeFields (field :: fields)) ++ ['\x7d']) =
      some (field :: fields) := by
  induction fields generalizing field fuel with
  | nil =>
    have hwrite : escapeTags (writeFields [field]) ++ ['\x7d'] =
        escapeTags (writeText field.1) ++ ':' :: (escapeTags (writeValue field.2) ++ ['\x7d']) := by
      rw [writeFields, escapeTags_append, escapeTags_cons, List.append_assoc]
      rfl
    rw [hwrite, readProperties_name, escapeTags_writeValue]
    rfl
  | cons next fields ih =>
    obtain ⟨fuel, rfl⟩ := Nat.exists_eq_add_one_of_ne_zero (Nat.ne_zero_of_lt hfuel)
    have hwrite : escapeTags (writeFields (field :: next :: fields)) ++ ['\x7d'] =
        escapeTags (writeText field.1) ++ ':' :: (escapeTags (writeValue field.2) ++
          ',' :: (escapeTags (writeFields (next :: fields)) ++ ['\x7d'])) := by
      rw [writeFields, escapeTags_append, escapeTags_append, escapeTags_cons, escapeTags_cons,
        List.append_assoc, List.append_assoc, List.append_assoc]
      rfl
    rw [hwrite, readProperties_name, escapeTags_writeValue, Option.bind_some]
    exact congrArg (Option.map _) (@ih next fuel (Nat.le_of_succ_le_succ hfuel))

theorem length_escapeTags (text : Text) : text.length ≤ (escapeTags text).length := by
  induction text with
  | nil => exact Nat.le_refl _
  | cons c text ih =>
    have : 1 ≤ (escapeChar c).length := by
      unfold escapeChar
      split
      · decide
      · exact Nat.le_refl _
    rw [escapeTags_cons, List.length_append, List.length_cons]
    omega

theorem length_writeFields (fields : Fields) : fields.length ≤ (writeFields fields).length := by
  induction fields with
  | nil => exact Nat.le_refl _
  | cons field fields ih =>
    cases fields with
    | nil =>
      rw [writeFields, List.length_append, List.length_singleton, List.length_cons]
      omega
    | cons next fields =>
      simp only [writeFields, List.length_append, List.length_cons] at ih ⊢
      omega

theorem evaluate_payload (state : State) : evaluate (payload state) = some state.fields := by
  have hwrite : payload state =
      '\x7b' :: (escapeTags (writeFields state.fields) ++ ['\x7d']) := by
    rw [payload, stringify, escapeTags_append, escapeTags_cons]
    rfl
  have hlength : state.rest.length ≤ (escapeTags (writeFields state.fields)).length := by
    have := length_writeFields state.fields
    have := length_escapeTags (writeFields state.fields)
    rw [State.fields, List.length_cons] at *
    omega
  rw [hwrite, evaluate, List.length_append, List.length_singleton]
  exact readProperties_writeFields hlength

/-! ## Dollar sequences -/

/-- The characters that mean something behind a dollar sign. -/
def isSpecial (c : Char) : Bool := c ∈ ['$', '&', Char.ofNat 0x60, Char.ofNat 0x27]

def clean : Text → Bool
  | '$' :: c :: rest => !isSpecial c && clean (c :: rest)
  | _ :: rest => clean rest
  | [] => true

section

variable {before matched after rest : Text} {c : Char}

theorem clean_special (c : Char) (rest : Text) :
    clean ('$' :: c :: rest) = (!isSpecial c && clean (c :: rest)) := rfl

theorem clean_other (hc : ∀ d more, c = '$' → rest = d :: more → False) :
    clean (c :: rest) = clean rest := by
  rw [clean]
  exact hc

theorem expand_special (c : Char) (rest : Text) : expand before matched after ('$' :: c :: rest) =
    if c = '$' then '$' :: expand before matched after rest
    else if c = '&' then matched ++ expand before matched after rest
    else if c = Char.ofNat 0x60 then before ++ expand before matched after rest
    else if c = Char.ofNat 0x27 then after ++ expand before matched after rest
    else '$' :: expand before matched after (c :: rest) := rfl

theorem expand_other (hc : ∀ d more, c = '$' → rest = d :: more → False) :
    expand before matched after (c :: rest) = c :: expand before matched after rest := by
  rw [expand]
  exact hc

end

theorem clean_cons {c : Char} (hc : c ≠ '$') (rest : Text) : clean (c :: rest) = clean rest :=
  clean_other fun _ _ he _ => hc he

theorem clean_plain {front : Text} (h : ∀ c ∈ front, isSpecial c = false) (back : Text) :
    clean (front ++ back) = clean back := by
  induction front with
  | nil => rfl
  | cons c front ih =>
    obtain ⟨hc, hfront⟩ := List.forall_mem_cons.mp h
    have hne : c ≠ '$' := by
      rintro rfl
      exact absurd hc (by decide)
    rw [List.cons_append, clean_cons hne, ih hfront]

theorem clean_append (front : Text) {back : Text} (h : ∀ c ∈ back.head?, isSpecial c = false) :
    clean (front ++ back) = (clean front && clean back) := by
  induction front using clean.induct with
  | case1 c rest ih =>
    rw [List.cons_append, List.cons_append, clean_special, clean_special, ← List.cons_append, ih,
      Bool.and_assoc]
  | case2 c rest hc ih =>
    cases rest with
    | nil =>
      by_cases hdollar : c = '$'
      · subst hdollar
        cases back with
        | nil => rfl
        | cons d back =>
          rw [List.singleton_append, clean_special, h d rfl]
          rfl
      · rw [List.cons_append, clean_cons hdollar, clean_cons hdollar, ih]
    | cons d rest =>
      have hne : c ≠ '$' := fun he => hc d rest he rfl
      rw [List.cons_append, clean_cons hne, clean_cons hne, ih]
  | case3 => rfl

section

variable {before matched after : Text}

theorem expand_cons {c : Char} (hc : c ≠ '$') (rest : Text) :
    expand before matched after (c :: rest) = c :: expand before matched after rest :=
  expand_other fun _ _ he _ => hc he

theorem expand_of_clean {text : Text} (h : clean text) : expand before matched after text = text := by
  induction text using clean.induct with
  | case1 c rest ih =>
    rw [clean_special, Bool.and_eq_true, Bool.not_eq_true'] at h
    have hspecial := h.1
    simp only [isSpecial, List.mem_cons, List.not_mem_nil, or_false, decide_eq_false_iff_not,
      not_or] at hspecial
    rw [expand_special, if_neg hspecial.1, if_neg hspecial.2.1, if_neg hspecial.2.2.1,
      if_neg hspecial.2.2.2, ih h.2]
  | case2 c rest hc ih =>
    rw [clean_other hc] at h
    rw [expand_other hc, ih h]
  | case3 => rfl

theorem expand_dollar (rest : Text) : expand before matched after ('$' :: '$' :: rest) =
    '$' :: expand before matched after rest := by
  rw [expand_special, if_pos rfl]

theorem expand_matched (rest : Text) : expand before matched after ('$' :: '&' :: rest) =
    matched ++ expand before matched after rest := by
  rw [expand_special, if_neg (by decide), if_pos rfl]

theorem expand_before (rest : Text) :
    expand before matched after ('$' :: Char.ofNat 0x60 :: rest) =
      before ++ expand before matched after rest := by
  rw [expand_special, if_neg (by decide), if_neg (by decide), if_pos rfl]

theorem expand_after (rest : Text) :
    expand before matched after ('$' :: Char.ofNat 0x27 :: rest) =
      after ++ expand before matched after rest := by
  rw [expand_special, if_neg (by decide), if_neg (by decide), if_neg (by decide), if_pos rfl]

theorem expand_plain {front : Text} (h : '$' ∉ front) (back : Text) :
    expand before matched after (front ++ back) = front ++ expand before matched after back := by
  induction front with
  | nil => rfl
  | cons c front ih =>
    obtain ⟨hc, hfront⟩ := List.ne_and_not_mem_of_not_mem_cons h
    rw [List.cons_append, expand_cons hc.symm, ih hfront, List.cons_append]

theorem expand_append (front : Text) {back : Text} (h : ∀ c ∈ back.head?, isSpecial c = false) :
    expand before matched after (front ++ back) =
      expand before matched after front ++ expand before matched after back := by
  induction front using expand.induct with
  | case1 rest ih =>
    rw [List.cons_append, List.cons_append, expand_dollar, expand_dollar, ih, List.cons_append]
  | case2 rest _ ih =>
    rw [List.cons_append, List.cons_append, expand_matched, expand_matched, ih, List.append_assoc]
  | case3 rest _ _ ih =>
    rw [List.cons_append, List.cons_append, expand_before, expand_before, ih, List.append_assoc]
  | case4 rest _ _ _ ih =>
    rw [List.cons_append, List.cons_append, expand_after, expand_after, ih, List.append_assoc]
  | case5 c rest h1 h2 h3 h4 ih =>
    rw [List.cons_append, List.cons_append, expand_special, if_neg h1, if_neg h2, if_neg h3,
      if_neg h4, expand_special, if_neg h1, if_neg h2, if_neg h3, if_neg h4, ← List.cons_append, ih,
      List.cons_append]
  | case6 c rest hc ih =>
    by_cases hdollar : c = '$'
    · subst hdollar
      have hnil : rest = [] := by
        cases rest with
        | nil => rfl
        | cons d rest => exact (hc d rest rfl rfl).elim
      subst hnil
      cases back with
      | nil => rfl
      | cons d back =>
        have hd := h d rfl
        simp only [isSpecial, List.mem_cons, List.not_mem_nil, or_false, decide_eq_false_iff_not,
          not_or] at hd
        rw [List.singleton_append, expand_special, if_neg hd.1, if_neg hd.2.1, if_neg hd.2.2.1,
          if_neg hd.2.2.2]
        rfl
    · rw [List.cons_append, expand_cons hdollar, expand_cons hdollar, ih, List.cons_append]
  | case7 => rfl

/-- An expansion brings a tag into the text, or takes a character out of it. -/
theorem expand_cases (hbefore : '<' ∈ before) (hmatched : '<' ∈ matched) (hafter : '<' ∈ after)
    (text : Text) : '<' ∈ expand before matched after text ∨
      (expand before matched after text).length ≤ text.length ∧
        (clean text = false → (expand before matched after text).length < text.length) := by
  induction text using expand.induct with
  | case1 rest ih =>
    rw [expand_dollar]
    refine ih.imp (List.mem_cons_of_mem _) fun ⟨hle, _⟩ => ?_
    simp only [List.length_cons]
    exact ⟨by omega, fun _ => by omega⟩
  | case2 rest _ ih =>
    rw [expand_matched]
    exact .inl (List.mem_append_left _ hmatched)
  | case3 rest _ _ ih =>
    rw [expand_before]
    exact .inl (List.mem_append_left _ hbefore)
  | case4 rest _ _ _ ih =>
    rw [expand_after]
    exact .inl (List.mem_append_left _ hafter)
  | case5 c rest h1 h2 h3 h4 ih =>
    have hplain : isSpecial c = false := by
      simp only [isSpecial, List.mem_cons, List.not_mem_nil, or_false, decide_eq_false_iff_not,
        not_or]
      exact ⟨h1, h2, h3, h4⟩
    rw [expand_special, if_neg h1, if_neg h2, if_neg h3, if_neg h4, clean_special, hplain,
      Bool.not_false, Bool.true_and]
    refine ih.imp (List.mem_cons_of_mem _) fun ⟨hle, hlt⟩ => ?_
    rw [List.length_cons, List.length_cons]
    exact ⟨Nat.succ_le_succ hle, fun hclean => Nat.succ_lt_succ (hlt hclean)⟩
  | case6 c rest hc ih =>
    rw [expand_other hc, clean_other hc]
    refine ih.imp (List.mem_cons_of_mem _) fun ⟨hle, hlt⟩ => ?_
    rw [List.length_cons, List.length_cons]
    exact ⟨Nat.succ_le_succ hle, fun hclean => Nat.succ_lt_succ (hlt hclean)⟩
  | case7 => exact .inr ⟨Nat.le_refl _, fun h => by cases h⟩

/-- Between tags a text stays as it is exactly where no dollar sequence is in it. -/
theorem expand_eq_iff (hbefore : '<' ∈ before) (hmatched : '<' ∈ matched) (hafter : '<' ∈ after)
    {text : Text} (htext : '<' ∉ text) : expand before matched after text = text ↔ clean text := by
  refine ⟨fun h => ?_, expand_of_clean⟩
  by_contra hclean
  rw [Bool.not_eq_true] at hclean
  rcases expand_cases hbefore hmatched hafter text with hmem | ⟨-, hlt⟩
  · exact htext (h ▸ hmem)
  · have := hlt hclean
    rw [h] at this
    exact Nat.lt_irrefl _ this

end

/-! ## What a state brings in -/

/-- No text that a visitor or a tunnel has chosen holds a dollar sequence. -/
def Harmless (state : State) : Prop := ∀ field ∈ state.rest, ∀ text ∈ field.2, clean text

theorem shortEscape_plain {c letter : Char} (h : shortEscape c = some letter) :
    isSpecial letter = false := by
  unfold shortEscape at h
  split at h
  case isTrue hc =>
    obtain rfl := Option.some.inj h
    rcases hc with rfl | rfl <;> decide
  case isFalse => split at h <;> cases h <;> decide

theorem piece_cases (c : Char) : isSpecial c = true ∧ escapeTags (writeChar c) = [c] ∨
    isSpecial c = false ∧ escapeTags (writeChar c) ≠ [] ∧
      ∀ d ∈ escapeTags (writeChar c), isSpecial d = false := by
  have hdigit : ∀ n < 32, isSpecial (Nat.digitChar (n / 16)) = false ∧
      isSpecial (Nat.digitChar (n % 16)) = false := by decide
  cases hc : isSpecial c with
  | true =>
    have hmem : c ∈ ['$', '&', Char.ofNat 0x60, Char.ofNat 0x27] := of_decide_eq_true hc
    simp only [List.mem_cons, List.not_mem_nil, or_false] at hmem
    rcases hmem with rfl | rfl | rfl | rfl <;> exact .inl ⟨rfl, rfl⟩
  | false =>
    refine .inr ⟨rfl, ?_⟩
    by_cases htag : c = '<'
    · subst htag
      have hescaped : escapeTags (writeChar '<') = ['\\', 'u', '0', '0', '3', 'c'] := rfl
      rw [hescaped]
      refine ⟨List.cons_ne_nil _ _, ?_⟩
      simp only [List.forall_mem_cons, List.not_mem_nil, false_imp_iff, implies_true, and_true]
      exact ⟨rfl, rfl, rfl, rfl, rfl, rfl⟩
    rw [escapeTags_of_notMem (writeChar_ne htag), writeChar]
    cases hshort : shortEscape c with
    | some letter =>
      refine ⟨List.cons_ne_nil _ _, ?_⟩
      simp only [List.forall_mem_cons]
      exact ⟨by decide, shortEscape_plain hshort, fun _ h => absurd h List.not_mem_nil⟩
    | none =>
      dsimp only
      split
      case isTrue hlt =>
        obtain ⟨hhigh, hlow⟩ := hdigit c.toNat hlt
        refine ⟨List.cons_ne_nil _ _, ?_⟩
        simp only [List.forall_mem_cons]
        exact ⟨by decide, by decide, by decide, by decide, hhigh, hlow,
          fun _ h => absurd h List.not_mem_nil⟩
      case isFalse =>
        refine ⟨List.cons_ne_nil _ _, ?_⟩
        simp only [List.forall_mem_cons]
        exact ⟨hc, fun _ h => absurd h List.not_mem_nil⟩

/-- Writing a text brings no dollar sequence in and takes none out. -/
theorem clean_pieces (value : Text) : clean (escapeTags (value.flatMap writeChar)) = clean value := by
  have hdollar : escapeTags (writeChar '$') = ['$'] := rfl
  induction value with
  | nil => rfl
  | cons c value ih =>
    rw [List.flatMap_cons, escapeTags_append]
    rcases piece_cases c with ⟨hc, hpiece⟩ | ⟨hc, -, hpiece⟩
    · rw [hpiece, List.singleton_append]
      by_cases he : c = '$'
      · subst he
        cases value with
        | nil => rfl
        | cons d value =>
          rw [clean_special, ← ih, List.flatMap_cons, escapeTags_append]
          -- what stands behind the sign is the same, or means as little
          rcases piece_cases d with ⟨-, hd⟩ | ⟨hd, hne, hall⟩
          · rw [hd]
            rfl
          · obtain ⟨e, more, hmore⟩ := List.exists_cons_of_ne_nil hne
            rw [hmore] at hall
            rw [hmore, List.cons_append, clean_special, hd, hall e List.mem_cons_self]
      · rw [clean_cons he, clean_cons he, ih]
    · have he : c ≠ '$' := by
        rintro rfl
        exact absurd hc (by decide)
      rw [clean_plain hpiece, clean_cons he, ih]

theorem clean_writeText (value : Text) : clean (escapeTags (writeText value)) = clean value := by
  have hquote : '"' ≠ '$' := by decide
  rw [escapeTags_writeText, clean_cons hquote, clean_append _ (by rintro c ⟨⟩; rfl), clean_pieces,
    clean_cons hquote, clean, Bool.and_true]

theorem clean_writeValue (value : Option Text) :
    clean (escapeTags (writeValue value)) = value.all clean := by
  cases value with
  | none => rfl
  | some value => exact clean_writeText value

theorem clean_writeFields (fields : Fields) : clean (escapeTags (writeFields fields)) =
    fields.all fun field => clean field.1 && field.2.all clean := by
  have hcolon : ∀ text, clean (escapeTags (':' :: text)) = clean (escapeTags text) :=
    fun text => clean_cons (by decide) _
  have hcomma : ∀ text, clean (escapeTags (',' :: text)) = clean (escapeTags text) :=
    fun text => clean_cons (by decide) _
  induction fields with
  | nil => rfl
  | cons field fields ih =>
    cases fields with
    | nil =>
      rw [writeFields, escapeTags_append, clean_append _ (by rintro c ⟨⟩; rfl), clean_writeText,
        hcolon, clean_writeValue, List.all_cons, List.all_nil, Bool.and_true]
    | cons next fields =>
      rw [writeFields, escapeTags_append, clean_append _ (by rintro c ⟨⟩; rfl), escapeTags_append,
        clean_append _ (by rintro c ⟨⟩; rfl), clean_writeText, hcolon, clean_writeValue, hcomma,
        ih]
      rfl

theorem clean_payload {state : State} : clean (payload state) ↔ Harmless state := by
  have hopen : payload state =
      '\x7b' :: (escapeTags (writeFields state.fields) ++ ['\x7d']) := by
    rw [payload, stringify, escapeTags_append, escapeTags_cons]
    rfl
  rw [hopen, clean_cons (by decide), clean_append _ (by rintro c ⟨⟩; rfl), clean_writeFields]
  have hkind : clean state.kind = true := by cases state <;> rfl
  have hnames : ∀ field ∈ state.rest, clean field.1 = true := by
    cases state <;> simp only [State.rest, List.forall_mem_cons] <;> simp <;> decide
  have hlast : clean ['\x7d'] = true := rfl
  rw [hlast, Bool.and_true, State.fields, List.all_cons, Option.all_some, hkind, Bool.and_eq_true,
    List.all_eq_true]
  simp only [Harmless, Bool.and_eq_true, Option.all_eq_true, Option.mem_def]
  constructor
  · exact fun h field hfield text htext => (h.2 field hfield).2 text htext
  · exact fun h => ⟨⟨rfl, trivial⟩, fun field hfield => ⟨hnames field hfield, h field hfield⟩⟩

/-! ## The page -/

theorem splitFirst_spec {pattern text before after : Text}
    (h : splitFirst pattern text = some (before, after)) : text = before ++ pattern ++ after := by
  induction text generalizing before with
  | nil =>
    rw [splitFirst] at h
    split at h
    case isTrue hnil =>
      cases h
      rw [hnil]
      rfl
    case isFalse => cases h
  | cons c rest ih =>
    rw [splitFirst] at h
    split at h
    case isTrue hprefix =>
      cases h
      obtain ⟨more, hmore⟩ := List.isPrefixOf_iff_prefix.mp hprefix
      rw [← hmore, List.drop_left, List.nil_append]
    case isFalse =>
      obtain ⟨⟨front, back⟩, hsplit, he⟩ := Option.map_eq_some_iff.mp h
      cases he
      rw [ih hsplit]
      rfl

/-- The index page with the script in front of its closing head tag. -/
def carrying (before after : Text) (state : State) : Text :=
  before ++ script state ++ headEnd ++ after

theorem replace_eq {html before after : Text} (h : splitFirst headEnd html = some (before, after))
    (state : State) : replace html headEnd (script state ++ headEnd) = before ++
      (opening ++ expand before headEnd after (payload state) ++ closing) ++ headEnd ++ after := by
  have hopening : '$' ∉ opening := by decide
  have hclosing : '$' ∉ closing ++ headEnd := by decide
  have hhead : ∀ c ∈ (closing ++ headEnd).head?, isSpecial c = false := by
    rintro c ⟨⟩
    rfl
  have hsame := @expand_plain before headEnd after _ hclosing []
  rw [List.append_nil, expand, List.append_nil] at hsame
  have hexpand : expand before headEnd after (opening ++ (payload state ++ (closing ++ headEnd))) =
      opening ++ (expand before headEnd after (payload state) ++ (closing ++ headEnd)) := by
    rw [expand_plain hopening, expand_append _ hhead, hsame]
  simp only [replace, h, script, List.append_assoc, hexpand]

/-- The payload has no tag and evaluates to the state. It gets onto the page as it is where the
state holds no dollar sequence, and between the tags of a page only there. -/
theorem sendAppState_iff {html before after : Text} {req : Request}
    (hsplit : splitFirst headEnd html = some (before, after)) (hnav : isNavigation req = true)
    (hmethod : req.method ≠ "HEAD".toList) (status : Nat) (state : State)
    (extraHeaders : List (Text × Text)) :
    html = before ++ headEnd ++ after ∧ '<' ∉ payload state ∧
      evaluate (payload state) = some state.fields ∧
      (Harmless state → (sendAppState (some html) req status state extraHeaders).body =
        some (carrying before after state)) ∧
      ('<' ∈ before → '<' ∈ after →
        ((sendAppState (some html) req status state extraHeaders).body =
          some (carrying before after state) ↔ Harmless state)) := by
  have hhtml : html ≠ [] := by
    rintro rfl
    cases hsplit
  have hbody : (sendAppState (some html) req status state extraHeaders).body =
      some (replace html headEnd (script state ++ headEnd)) := by
    have hguard : ¬ (!isNavigation req || decide (html = [])) := by
      simp [hnav, hhtml]
    simp only [sendAppState, Option.getD_some, if_neg hguard, if_neg hmethod]
  have hpage : (sendAppState (some html) req status state extraHeaders).body =
      some (carrying before after state) ↔
        expand before headEnd after (payload state) = payload state := by
    rw [hbody, replace_eq hsplit, carrying, script, Option.some.injEq, List.append_cancel_right_eq,
      List.append_cancel_right_eq, List.append_cancel_left_eq, List.append_cancel_right_eq,
      List.append_cancel_left_eq]
  refine ⟨splitFirst_spec hsplit, notMem_escapeTags _, evaluate_payload state, fun h => ?_,
    fun hbefore hafter => ?_⟩
  · exact hpage.mpr (expand_of_clean (clean_payload.mpr h))
  · have htag : '<' ∉ payload state := notMem_escapeTags _
    rw [hpage, expand_eq_iff hbefore (by decide) hafter htag, clean_payload]

def browser : Request := ⟨"GET".toList, some "document".toList, none⟩

def index : Text := "<html><head></head><body></body></html>".toList

theorem splitFirst_index : splitFirst headEnd index =
    some ("<html><head>".toList, "<body></body></html>".toList) := by decide

theorem sendAppState_index : (sendAppState (some index) browser 200
    (.attach "shop".toList "/a$b".toList) []).body =
      some (carrying "<html><head>".toList "<body></body></html>".toList
        (.attach "shop".toList "/a$b".toList)) :=
  (sendAppState_iff splitFirst_index rfl (by decide) 200 _ []).2.2.2.1
    (clean_payload.mp (by decide))

/-- A path in which the sign stands before an ampersand takes the closing tag into the script. -/
theorem sendAppState_dollar : ¬ ∀ state : State, (sendAppState (some index) browser 200 state
    []).body = some (carrying "<html><head>".toList "<body></body></html>".toList state) := by
  intro h
  exact absurd (h (.attach "shop".toList "/$&".toList)) (by decide)

end Tunlit.Proxy.Pages
