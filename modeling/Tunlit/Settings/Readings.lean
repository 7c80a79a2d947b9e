import Tunlit.Settings.Layers

/-! # What a setting is read as

A configuration that is valid is in normal form: each setting is read as what it is. The
two places where a reading depends on more than the value are the public URL, which is
read from what was configured, and the trust in a proxy, which is not read with `acme`. -/
namespace Tunlit.Settings.Readings
open Tunlit.Js.Text Tunlit.Settings.Layers

variable {numeral : ℚ → String} {raw raw' : Raw}

/-! ## Texts -/

theorem dropWhile_rdropWhile (p : Char → Bool) (l : List Char) :
    ((l.dropWhile p).rdropWhile p).dropWhile p = (l.dropWhile p).rdropWhile p := by
  refine List.dropWhile_eq_self_iff.mpr fun hl => ?_
  have hpre : (l.dropWhile p).rdropWhile p <+: l.dropWhile p := List.rdropWhile_prefix p _
  have hl' : 0 < (l.dropWhile p).length := Nat.lt_of_lt_of_le hl hpre.length_le
  rw [hpre.getElem hl]
  exact List.dropWhile_eq_self_iff.mp (List.dropWhile_idempotent p l) hl'

theorem stripDots_stripDots (s : String) : stripDots (stripDots s) = stripDots s := by
  simp only [stripDots, String.toList_ofList]
  rw [dropWhile_rdropWhile, List.rdropWhile_idempotent]

theorem stripSlashes_stripSlashes (s : String) : stripSlashes (stripSlashes s) = stripSlashes s := by
  simp only [stripSlashes, String.toList_ofList]
  rw [List.rdropWhile_idempotent]

theorem trimList_eq (l : List Char) : trimList l = (l.dropWhile isSpace).rdropWhile isSpace := rfl

theorem trim_trim (s : String) : trim (trim s) = trim s := by
  simp only [trim, trimList_eq, String.toList_ofList]
  rw [dropWhile_rdropWhile, List.rdropWhile_idempotent]

theorem trim_of_all {s : String} (h : ∀ c ∈ s.toList, isSpace c = false) : trim s = s := by
  have hd : s.toList.dropWhile isSpace = s.toList :=
    List.dropWhile_eq_self_iff.mpr fun hl => by simp [h _ (List.getElem_mem hl)]
  have hr : s.toList.rdropWhile isSpace = s.toList :=
    List.rdropWhile_eq_self_iff.mpr fun hl => by simp [h _ (List.getLast_mem hl)]
  rw [trim, trimList_eq, hd, hr, String.ofList_toList]

theorem toNat_of_isHostChar {c : Char} (h : isHostChar c = true) :
    (97 ≤ c.toNat ∧ c.toNat ≤ 122) ∨ (45 ≤ c.toNat ∧ c.toNat ≤ 57) := by
  simp only [isHostChar, isLower, isDigit, Bool.or_eq_true, Bool.and_eq_true, decide_eq_true_eq,
    Char.le_def, UInt32.le_iff_toNat_le] at h
  rcases h with ((h | h) | rfl) | rfl
  · exact .inl h
  · exact .inr ⟨Nat.le_trans (by decide) h.1, h.2⟩
  · exact .inr (by decide)
  · exact .inr (by decide)

theorem isHostChar_plain {c : Char} (h : isHostChar c = true) :
    isSpace c = false ∧ lowerChar c = [c] := by
  have hn := toNat_of_isHostChar h
  constructor
  · simp only [isSpace, List.mem_cons, List.not_mem_nil, or_false, Bool.or_eq_false_iff,
      Bool.and_eq_false_iff, decide_eq_false_iff_not]
    omega
  · have hup : isUpper c = false := by
      simp only [isUpper, Bool.and_eq_false_iff, decide_eq_false_iff_not, Char.le_def,
        UInt32.le_iff_toNat_le]
      change ¬65 ≤ c.toNat ∨ ¬c.toNat ≤ 90
      omega
    rw [lowerChar, hup, if_neg Bool.false_ne_true, if_neg (by omega), if_neg (by omega)]

theorem lowerTrim_of_host {s : String} (h : isBaseDomain s.toList = true) : lowerTrim s = s := by
  have hplain := fun c hc => isHostChar_plain (List.all_eq_true.mp h c hc)
  have hlower : s.toList.flatMap lowerChar = s.toList := by
    rw [List.flatMap_congr fun c hc => (hplain c hc).2]
    simp
  rw [lowerTrim, trim_of_all fun c hc => (hplain c hc).1, toLowerCase, hlower, String.ofList_toList]

/-! ## Readings -/

/-- What `normalize` makes of the value of a key. -/
def reading (numeral : ℚ → String) : Key → Value → Value
  | .listen, value => value
  | .port, value | .httpsPort, value | .redirectPort, value | .gracePeriod, value =>
    .ofNumber (value.toNumber numeral)
  | .baseDomain, value => .text (host numeral value)
  | .publicUrl, value => .text (url numeral value)
  | .tlsMode, value => .text (mode numeral "proxy" value)
  | .acmeDirectoryUrl, value => .text (directory numeral value)
  | .trustProxy, value => .bool (isTrusted numeral value)
  | .httpMode, value => .text (mode numeral "subdomain" value)

/-- The keys whose settings are read from their values alone. -/
def isPlain (key : Key) : Bool := key ≠ .publicUrl && key ≠ .trustProxy

/-- Settings that are read the same give the same configuration. -/
structure Agree (numeral : ℚ → String) (raw raw' : Raw) : Prop where
  plain : ∀ key, isPlain key →
    reading numeral key (raw.values key) = reading numeral key (raw'.values key)
  url : url numeral raw.url = url numeral raw'.url
  trust : mode numeral "proxy" (raw'.values .tlsMode) ≠ "acme" →
    isTrusted numeral (raw.values .trustProxy) = isTrusted numeral (raw'.values .trustProxy)

theorem ofNumber_inj {a b : Option ℚ} (h : Value.ofNumber a = Value.ofNumber b) : a = b := by
  cases a <;> cases b <;> simp [Value.ofNumber] at h ⊢
  exact h

theorem Agree.normalize_eq (h : Agree numeral raw raw') :
    Layers.normalize numeral raw = Layers.normalize numeral raw' := by
  have hnum : ∀ key, reading numeral key = (fun value => .ofNumber (value.toNumber numeral)) →
      isPlain key →
      (raw.values key).toNumber numeral = (raw'.values key).toNumber numeral := by
    intro key hkey hplain
    have := h.plain key hplain
    rw [hkey] at this
    exact ofNumber_inj this
  have hhost : host numeral (raw.values .baseDomain) = host numeral (raw'.values .baseDomain) :=
    Value.text.inj (h.plain .baseDomain rfl)
  have hhttp := Value.text.inj (h.plain .httpMode rfl)
  have htls := Value.text.inj (h.plain .tlsMode rfl)
  have hacme := Value.text.inj (h.plain .acmeDirectoryUrl rfl)
  have htrust : (decide (mode numeral "proxy" (raw'.values .tlsMode) ≠ "acme") &&
      isTrusted numeral (raw.values .trustProxy)) =
      (decide (mode numeral "proxy" (raw'.values .tlsMode) ≠ "acme") &&
      isTrusted numeral (raw'.values .trustProxy)) := by
    by_cases hm : mode numeral "proxy" (raw'.values .tlsMode) = "acme"
    · simp [hm]
    · rw [h.trust hm]
  have hlisten : raw.values .listen = raw'.values .listen := h.plain .listen rfl
  simp only [Layers.normalize, hlisten, hnum .port rfl rfl, hnum .httpsPort rfl rfl,
    hnum .redirectPort rfl rfl, hnum .gracePeriod rfl rfl, hhost, hhttp, htls, hacme, h.url, htrust]

/-! ## Normal form -/

theorem orElse_text (s : String) : (Value.text s).orElse numeral "" = s := by
  unfold Value.orElse
  split
  · rfl
  · next h => simpa [Value.truthy] using h

/-- The checks that settle how a configuration is read. -/
structure Valid (config : Config) : Prop where
  http : config.httpMode ∈ ["subdomain", "path"]
  tls : config.tlsMode ∈ ["proxy", "acme"]
  url : config.publicUrlConfigured = "" ∨ isPublicUrl config.publicUrlConfigured.toList = true
  host : isBaseDomain config.baseDomain.toList = true

theorem problem_eq_nil {wrong : Bool} {message : String} (h : problem wrong message = []) :
    wrong = false := by
  cases wrong with
  | false => rfl
  | true => cases h

theorem valid_of_validate {config : Config} (h : validate config = []) : Valid config := by
  simp only [validate, List.append_eq_nil_iff] at h
  obtain ⟨⟨⟨⟨⟨⟨⟨hhttp, htls⟩, -⟩, -⟩, -⟩, -⟩, hurl⟩, hhost⟩ := h
  refine ⟨of_not_not (of_decide_eq_false (problem_eq_nil hhttp)),
    of_not_not (of_decide_eq_false (problem_eq_nil htls)), ?_, ?_⟩
  · have := problem_eq_nil hurl
    simp only [Bool.and_eq_false_iff, decide_eq_false_iff_not, not_not, Bool.not_eq_false'] at this
    exact this
  · have := problem_eq_nil hhost
    simp only [Bool.and_eq_false_iff, decide_eq_false_iff_not, not_not, Bool.not_eq_false'] at this
    rcases this with hb | hb
    · rw [hb]
      rfl
    · exact hb

theorem spaceless_of_isAuthority {l : List Char} (h : isAuthority l = true) :
    ∀ c ∈ l, isSpace c = false := by
  intro c hc
  simp only [isAuthority, Bool.and_eq_true, List.all_eq_true] at h
  simpa using (h.2 c hc).2

theorem spaceless_of_isPublicUrl {l : List Char} (h : isPublicUrl l = true) :
    ∀ c ∈ l, isSpace c = false := by
  have hscheme : ∀ n, ∀ scheme : List Char, scheme.all (fun c => !isSpace c) = true →
      l.take n = scheme → isAuthority (l.drop n) = true → ∀ c ∈ l, isSpace c = false := by
    intro n scheme hs ht hd c hc
    rw [← List.take_append_drop n l, List.mem_append, ht] at hc
    rcases hc with hc | hc
    · simpa using List.all_eq_true.mp hs c hc
    · exact spaceless_of_isAuthority hd c hc
  simp only [isPublicUrl, Bool.or_eq_true, Bool.and_eq_true, decide_eq_true_eq] at h
  rcases h with ⟨ht, hd⟩ | ⟨ht, hd⟩
  · exact hscheme 7 _ (by decide) ht hd
  · exact hscheme 8 _ (by decide) ht hd

theorem toNumber_ofNumber (n : Option ℚ) : (Value.ofNumber n).toNumber numeral = n := by
  cases n <;> rfl

theorem host_text {s : String} (h : isBaseDomain s.toList = true) (hs : stripDots s = s) :
    host numeral (.text s) = s := by
  rw [host, orElse_text, lowerTrim_of_host h, hs]

theorem mode_text {fallback : String} {modes : List String} {s : String} (h : s ∈ modes)
    (hm : modes.all (fun s => s ≠ "" && lowerTrim s = s) = true) :
    mode numeral fallback (.text s) = s := by
  have hs := List.all_eq_true.mp hm s h
  simp only [Bool.and_eq_true, decide_eq_true_eq] at hs
  rw [mode, Value.orElse, if_pos (by simpa [Value.truthy] using hs.1)]
  exact hs.2

/-- A valid configuration is read as what it is. -/
theorem reading_get (h : validate (Layers.normalize numeral raw) = []) {key : Key}
    (hkey : isPlain key) :
    reading numeral key ((Layers.normalize numeral raw).get key) =
      reading numeral key (raw.values key) := by
  have hv := valid_of_validate h
  cases key with
  | listen => rfl
  | port | httpsPort | redirectPort | gracePeriod =>
    exact congrArg Value.ofNumber (toNumber_ofNumber _)
  | baseDomain => exact congrArg Value.text (host_text hv.host (stripDots_stripDots _))
  | httpMode => exact congrArg Value.text (mode_text hv.http (by decide))
  | tlsMode => exact congrArg Value.text (mode_text hv.tls (by decide))
  | acmeDirectoryUrl =>
    refine congrArg Value.text ?_
    rw [directory, Config.get, orElse_text]
    exact trim_trim _
  | publicUrl | trustProxy => cases hkey

theorem url_normalize (h : validate (Layers.normalize numeral raw) = []) :
    url numeral (.text (Layers.normalize numeral raw).publicUrlConfigured) =
      url numeral raw.url := by
  have hspace : ∀ c ∈ (url numeral raw.url).toList, isSpace c = false := by
    rcases (valid_of_validate h).url with hu | hu
    · change url numeral raw.url = "" at hu
      rw [hu]
      simp
    · exact spaceless_of_isPublicUrl hu
  change stripSlashes (trim (url numeral raw.url)) = url numeral raw.url
  rw [trim_of_all hspace]
  unfold url
  split
  · rfl
  · exact stripSlashes_stripSlashes _

end Tunlit.Settings.Readings
