import Tunlit.Proxy.Headers

/-! # Names of headers in lower and upper case

A header object may have one name in several spellings. Node's request has one header for
each name in lower case, the one that was set last. -/
namespace Tunlit.Proxy.Spellings
open Tunlit.Js.Text Tunlit.Lib.Insertion Tunlit.Proxy.Headers

/-- The headers of an `http.request` with an object of headers. -/
def wire (headers : HeaderMap) : HeaderMap :=
  headers.entries.foldl (fun sent entry => sent.set (toLowerCase entry.1) entry.2) ∅

/-- The values under the names that a function takes to a key. -/
def valuesBy (f : String → String) (pairs : Pairs) (key : String) : List String :=
  (pairs.filter fun pair => f pair.1 = key).map Prod.snd

/-- The values under a name in any case. -/
def listed (pairs : Pairs) (key : String) : List String := valuesBy toLowerCase pairs key

/-- A header has at least one value. -/
def asHeader : List String → Option (List String)
  | [] => none
  | values => some values

theorem lowerChar_lower (c : Char) : (lowerChar c).flatMap lowerChar = lowerChar c := by
  unfold lowerChar
  split
  · next hupper =>
    have key : ∀ n < 128, isUpper (Char.ofNat n) = true →
        [Char.ofNat ((Char.ofNat n).toNat + 32)].flatMap lowerChar =
          [Char.ofNat ((Char.ofNat n).toNat + 32)] := by
      decide
    have hlt : c.toNat < 128 := by
      simp only [isUpper, Bool.and_eq_true, decide_eq_true_eq] at hupper
      exact Nat.lt_of_le_of_lt (UInt32.le_iff_toNat_le.mp hupper.2) (by decide)
    have hc : Char.ofNat c.toNat = c := Char.ofNat_toNat c
    simpa [hc, lowerChar] using key c.toNat hlt (by rwa [hc])
  · next hupper =>
    split
    · decide
    · next hkelvin =>
      split
      · decide
      · next hdotted => simp [hupper, hkelvin, hdotted]

theorem toLowerCase_toLowerCase (name : String) :
    toLowerCase (toLowerCase name) = toLowerCase name := by
  unfold toLowerCase
  rw [String.toList_ofList, List.flatMap_assoc]
  congr 1
  exact List.flatMap_congr fun c _ => lowerChar_lower c

/-! ## What an object of pairs has -/

theorem get_addHeader (headers : HeaderMap) (name value key : String) :
    (addHeader headers name value).get key =
      if name = key then some ((headers.get name).getD [] ++ [value]) else headers.get key :=
  OrderedMap.get_set ..

theorem asHeader_append_singleton (values : List String) (value : String) :
    asHeader (values ++ [value]) = some (values ++ [value]) := by
  cases values <;> rfl

theorem get_foldl_addHeader (f : String → String) (pairs : Pairs) (key : String) :
    ∀ headers : HeaderMap, headers.get key ≠ some [] →
      (pairs.foldl (fun headers pair => addHeader headers (f pair.1) pair.2) headers).get key =
        asHeader ((headers.get key).getD [] ++ valuesBy f pairs key) := by
  induction pairs with
  | nil =>
    intro headers hne
    rw [List.foldl_nil, valuesBy, List.filter_nil, List.map_nil, List.append_nil]
    match hget : headers.get key with
    | none => rfl
    | some [] => exact absurd hget hne
    | some (value :: values) => rfl
  | cons pair pairs ih =>
    intro headers hne
    rw [List.foldl_cons, ih _ ?_, get_addHeader]
    · by_cases hkey : f pair.1 = key
      · simp [valuesBy, hkey]
      · simp [valuesBy, hkey]
    · rw [get_addHeader]
      split
      · simp
      · exact hne

/-- The object of pairs under other names has all values under a name. -/
theorem get_fromPairs (f : String → String) (pairs : Pairs) (key : String) :
    (pairs.foldl (fun headers pair => addHeader headers (f pair.1) pair.2) ∅).get key =
      asHeader (valuesBy f pairs key) := by
  have hempty : (∅ : HeaderMap).get key ≠ some [] := by simp
  rw [get_foldl_addHeader f pairs key ∅ hempty, OrderedMap.get_empty]
  rfl

theorem get_headersFromPairs (pairs : Pairs) (key : String) :
    (headersFromPairs pairs).get key = asHeader (listed pairs key) :=
  get_fromPairs toLowerCase pairs key

/-! ## What goes out -/

/-- The names of an object, in their order. -/
def names (headers : HeaderMap) : List String := headers.entries.map Prod.fst

theorem names_set (headers : HeaderMap) (name : String) (values : List String) :
    names (headers.set name values) =
      if name ∈ names headers then names headers else names headers ++ [name] :=
  keys_assign headers.entries name values

/-- All names of an object are in lower case. -/
def Lower (headers : HeaderMap) : Prop := ∀ name ∈ names headers, toLowerCase name = name

theorem asHeader_of_ne_nil {values : List String} (h : values ≠ []) :
    asHeader values = some values := by
  cases values with
  | nil => exact absurd rfl h
  | cons value values => rfl

theorem asHeader_getD (values : List String) : (asHeader values).getD [] = values := by
  cases values <;> rfl

theorem Lower.set {headers : HeaderMap} (h : Lower headers) {name : String} (values : List String)
    (hname : toLowerCase name = name) : Lower (headers.set name values) := by
  intro other hother
  rw [names_set] at hother
  split at hother
  · exact h other hother
  · rcases List.mem_append.mp hother with hother | hother
    · exact h other hother
    · rw [List.mem_singleton.mp hother, hname]

theorem Lower.filter {headers : HeaderMap} (h : Lower headers)
    (p : String → List String → Bool) : Lower (headers.filter p) :=
  fun name hname => h name (List.Sublist.subset (List.filter_sublist.map _) hname)

theorem Lower.delete {headers : HeaderMap} (h : Lower headers) (name : String) :
    Lower (headers.delete name) :=
  h.filter _

theorem lower_empty : Lower ∅ := fun _ h => absurd h List.not_mem_nil

theorem lower_headersFromPairs (pairs : Pairs) : Lower (headersFromPairs pairs) := by
  have key : ∀ (pairs : Pairs) (headers : HeaderMap), Lower headers → Lower (pairs.foldl
      (fun headers pair => addHeader headers (toLowerCase pair.1) pair.2) headers) := by
    intro pairs
    induction pairs with
    | nil => exact fun _ h => h
    | cons pair pairs ih => exact fun headers h => ih _ (h.set _ (toLowerCase_toLowerCase _))
  exact key pairs ∅ lower_empty

/-! ## The headers of Node's message -/

/-- Headers in lower case, with at least one value each. -/
structure Plain (headers : HeaderMap) : Prop where
  lower : Lower headers
  valued : ∀ name, headers.get name ≠ some []

theorem Plain.set {headers : HeaderMap} (h : Plain headers) {name : String}
    {values : List String} (hname : toLowerCase name = name) (hvalues : values ≠ []) :
    Plain (headers.set name values) := by
  refine ⟨h.lower.set values hname, fun other => ?_⟩
  rw [OrderedMap.get_set]
  split
  · exact fun heq => hvalues (Option.some.inj heq)
  · exact h.valued other

theorem Plain.addLine {headers : HeaderMap} (h : Plain headers) (pair : String × String) :
    Plain (addLine headers pair) := by
  have hkey := toLowerCase_toLowerCase pair.1
  unfold Headers.addLine
  dsimp only
  split
  · exact h.set hkey (List.cons_ne_nil _ _)
  · split
    · exact h.set hkey (List.append_ne_nil_of_right_ne_nil _ (List.cons_ne_nil _ _))
    · split
      · exact h
      · exact h.set hkey (List.cons_ne_nil _ _)

theorem plain_incomingHeaders (lines : Pairs) : Plain (incomingHeaders lines) := by
  have key : ∀ (lines : Pairs) (headers : HeaderMap), Plain headers →
      Plain (lines.foldl Headers.addLine headers) := by
    intro lines
    induction lines with
    | nil => exact fun _ h => h
    | cons pair lines ih => exact fun headers h => ih _ (h.addLine pair)
  exact key lines ∅ ⟨lower_empty, fun name h => by cases h⟩

theorem valuesBy_append (f : String → String) (pairs more : Pairs) (key : String) :
    valuesBy f (pairs ++ more) key = valuesBy f pairs key ++ valuesBy f more key := by
  rw [valuesBy, List.filter_append, List.map_append, valuesBy, valuesBy]

theorem valuesBy_entry (f : String → String) (name key : String) (values : List String) :
    valuesBy f (values.map fun value => (name, value)) key =
      if f name = key then values else [] := by
  rw [valuesBy, List.filter_map]
  split
  · next h => simp [Function.comp_def, h]
  · next h => simp [Function.comp_def, h]

theorem listed_flatMap (key : String) : ∀ (entries : List (String × List String)),
    (entries.map Prod.fst).Nodup → (∀ name ∈ entries.map Prod.fst, toLowerCase name = name) →
      listed (entries.flatMap fun entry => entry.2.map fun value => (entry.1, value)) key =
        (lookup entries key).getD []
  | [], _, _ => rfl
  | (name, values) :: entries, hnodup, hlower => by
    rw [List.map_cons, List.nodup_cons] at hnodup
    rw [List.map_cons, List.forall_mem_cons] at hlower
    rw [List.flatMap_cons, listed, valuesBy_append, valuesBy_entry, hlower.1, lookup_cons]
    have ih := listed_flatMap key entries hnodup.2 hlower.2
    rw [listed] at ih
    rw [ih]
    split
    · next heq =>
      rw [lookup_eq_none.mpr (heq ▸ hnodup.1)]
      exact List.append_nil values
    · rfl

/-- The pairs list what the headers have. -/
def Describes (pairs : Pairs) (headers : HeaderMap) : Prop :=
  ∀ key, headers.get key = asHeader (listed pairs key)

theorem describes_headerList {headers : HeaderMap} (h : Plain headers) :
    Describes (headerList headers) headers := by
  intro key
  rw [headerList, listed_flatMap key headers.entries headers.nodup h.lower]
  cases hget : headers.get key with
  | none =>
    rw [show lookup headers.entries key = none from hget]
    rfl
  | some values =>
    rw [show lookup headers.entries key = some values from hget]
    refine (asHeader_of_ne_nil fun hnil => h.valued key ?_).symm
    rw [hget, show values = [] from hnil]

end Tunlit.Proxy.Spellings
