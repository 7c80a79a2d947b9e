import Tunlit.Settings.Readings

/-! # Settings that are loaded again

What a request lays over the live configuration, and what is loaded of it when the server
starts again. Both skip the pinned settings; only loading skips blank ones. -/
namespace Tunlit.Settings.Reload
open Tunlit.Js.Text Tunlit.Settings.Layers Tunlit.Settings.Readings

variable {numeral : ℚ → String} {base live next : Live} {stored : Stored} {settings : Entries}
  {body : Key → Option Value} {key : Key} {value : Value}

/-- The stored settings behind the settings of a request. -/
def laid (stored : Stored) (settings : Entries) : Stored :=
  fun key => ((settings.lookup key).map Value.json).or (stored key)

theorem laid_nil : laid stored [] = stored := rfl

/-- A setting that means the same when it is loaded again: what JSON writes of it is read
back, and where a blank value is skipped the loaded configuration has the default. -/
def survives (base : Live) (entry : Key × Value) : Bool :=
  entry.2.isFinite && match entry.1 with
    | .baseDomain | .httpMode | .tlsMode =>
      !entry.2.isBlank || (base.config.get entry.1).same (DEFAULTS entry.1)
    | .publicUrl => !entry.2.isNull || base.config.publicUrl = ""
    | _ => true

/-! ## Values -/

mutual

theorem json_of_isFinite : ∀ {value : Value}, value.isFinite = true → value.json = value
  | .null, _ | .bool _, _ | .text _, _ | .object, _ | .number (.finite _), _ => rfl
  | .array _, h => congrArg Value.array (jsonItems_of_areFinite h)

theorem jsonItems_of_areFinite : ∀ {items : List Value}, Value.areFinite items = true →
    Value.jsonItems items = items
  | [], _ => rfl
  | _ :: _, h => by
    rw [Value.areFinite, Bool.and_eq_true] at h
    rw [Value.jsonItems, json_of_isFinite h.1, jsonItems_of_areFinite h.2]

end

theorem text_of_same {s : String} (h : value.same (.text s) = true) : value = .text s := by
  cases value <;> simp [Value.same] at h ⊢
  exact h

theorem isBlank_cases (h : value.isBlank = true) : value = .null ∨ value = .text "" := by
  cases value with
  | null => exact .inl rfl
  | text s => exact .inr (congrArg Value.text (of_decide_eq_true h))
  | _ => cases h

theorem isNull_iff : value.isNull = true ↔ value = .null := by
  cases value <;> simp [Value.isNull]

/-! ## What a request picks -/

theorem mem_pickSettings (h : (key, value) ∈ pickSettings numeral body) :
    key ∈ UI_SETTING_KEYS ∧ (key = .gracePeriod ∨ key = .trustProxy → value.isBlank = false) := by
  obtain ⟨k, hk, hm⟩ := List.mem_filterMap.mp h
  obtain ⟨given, -, he⟩ := Option.map_eq_some_iff.mp hm
  obtain ⟨rfl, rfl⟩ := Prod.mk.inj he
  refine ⟨hk, ?_⟩
  rintro (rfl | rfl)
  · dsimp only
    cases given.toNumber numeral <;> rfl
  · rfl

theorem pickSettings_keys : ((pickSettings numeral body).map Prod.fst).Nodup := by
  have hkeys : (pickSettings numeral body).map Prod.fst =
      UI_SETTING_KEYS.filter fun key => (body key).isSome := by
    rw [pickSettings, List.map_filterMap, ← List.filterMap_eq_filter]
    refine List.filterMap_congr fun key _ => ?_
    cases hb : body key <;> simp [Option.guard, hb]
  rw [hkeys]
  exact List.filter_sublist.nodup (by decide)

theorem mem_of_lookup (h : settings.lookup key = some value) : (key, value) ∈ settings := by
  obtain ⟨l₁, l₂, rfl, -⟩ := List.lookup_eq_some_iff.mp h
  simp

theorem lookup_unpinned : (live.unpinned settings).lookup key =
    if live.pinned key then none else settings.lookup key := by
  induction settings with
  | nil => cases live.pinned key <;> rfl
  | cons entry settings ih =>
    obtain ⟨k, v⟩ := entry
    rw [Live.unpinned, List.filter_cons, List.lookup_cons]
    by_cases hk : key = k
    · subst hk
      cases hp : live.pinned key with
      | true => simpa [Live.unpinned, hp] using ih
      | false => simp
    · have hne : (key == k) = false := beq_eq_false_iff_ne.mpr hk
      rw [hne, ← ih]
      split
      · rw [List.lookup_cons, hne]
        rfl
      · rfl

/-! ## The two layers -/

/-- A live configuration is what is loaded of the stored settings. -/
structure Loaded (numeral : ℚ → String) (base : Live) (stored : Stored) (live : Live) : Prop where
  config : Layers.normalize numeral (base.withStored stored) = live.config
  valid : validate live.config = []
  pinned : ∀ key, live.pinned key = base.pinned key

/-- What is loaded of the stored settings, its sources apart. -/
theorem loaded_of_applyStored (h : applyStored numeral base stored = .ok live) :
    Loaded numeral base stored live := by
  unfold applyStored at h
  dsimp only at h
  split at h
  · next hv =>
    cases h
    refine ⟨rfl, hv, fun key => ?_⟩
    change ((PINNED_BY_ENV key).isSome && decide ((if (base.taken stored key).isSome then Source.ui
      else base.sources key) = .env)) = base.pinned key
    split
    · next htaken =>
      have hp : base.pinned key = false := by
        rw [Live.taken] at htaken
        split at htaken
        · obtain ⟨value, hf⟩ := Option.isSome_iff_exists.mp htaken
          have := (Option.filter_eq_some_iff.mp hf).2
          simp only [Bool.and_eq_true, Bool.not_eq_true'] at this
          exact this.2
        · cases htaken
      simp [hp]
    · rfl
  · cases h

theorem Loaded.applyStored (h : Loaded numeral base stored live) :
    (applyStored numeral base stored).map Live.config = .ok live.config := by
  rw [Layers.applyStored, h.config, if_pos h.valid]
  rfl

/-- A request that leaves `acme` says whether the proxy is trusted, or it would not be. -/
def TrustKept (numeral : ℚ → String) (base : Live) (stored : Stored) (live : Live)
    (settings : Entries) : Prop :=
  live.config.tlsMode = "acme" → (settings.lookup .trustProxy).isSome ∨
    isTrusted numeral ((base.withStored stored).values .trustProxy) = false ∨
    mode numeral "proxy" ((live.config.with settings).values .tlsMode) = "acme"

instance {live : Live} : Decidable (TrustKept numeral base stored live settings) :=
  inferInstanceAs (Decidable (_ → _ ∨ _ ∨ _))

theorem with_values (config : Config) : (config.with settings).values key =
    (settings.lookup key).getD (config.get key) := rfl

/-- What loading takes of a key that the request leaves alone is as before. -/
theorem withStored_of_none (h : (base.unpinned settings).lookup key = none) :
    (base.withStored (laid stored settings)).values key = (base.withStored stored).values key := by
  rw [lookup_unpinned] at h
  simp only [Live.withStored, Live.taken, laid]
  by_cases hp : base.pinned key = true
  · simp [hp]
  · rw [if_neg hp] at h
    rw [h]
    rfl

/-- What loading takes of a key of the request. -/
theorem withStored_of_some (h : (base.unpinned settings).lookup key = some value)
    (hui : key ∈ UI_SETTING_KEYS) (hfin : value.isFinite = true) :
    (base.withStored (laid stored settings)).values key =
      if value.isBlank then base.config.get key else value := by
  rw [lookup_unpinned] at h
  split at h
  · cases h
  · next hp =>
    simp only [Live.withStored, Live.taken, laid, h, if_pos hui, Option.map_some,
      json_of_isFinite hfin, Option.some_or]
    cases hb : value.isBlank <;> simp [Option.filter, hp, hb]

/-- A blank setting and the default are read the same. -/
theorem reading_blank (h : survives base (key, value) = true) (hb : value.isBlank = true)
    (hkey : key = .baseDomain ∨ key = .httpMode ∨ key = .tlsMode) :
    reading numeral key value = reading numeral key (base.config.get key) := by
  have hdefault : base.config.get key = DEFAULTS key := by
    have hsame : (base.config.get key).same (DEFAULTS key) = true := by
      rw [survives, Bool.and_eq_true] at h
      rcases hkey with rfl | rfl | rfl <;> simpa [hb] using h.2
    rcases hkey with rfl | rfl | rfl <;> exact text_of_same hsame
  rw [hdefault]
  rcases isBlank_cases hb with rfl | rfl <;> rcases hkey with rfl | rfl | rfl <;>
    simp [reading, host, mode, DEFAULTS, Value.orElse, Value.truthy, Value.string]

theorem unpinned_congr (h : ∀ key, live.pinned key = base.pinned key) :
    live.unpinned settings = base.unpinned settings := by
  simp [Live.unpinned, h]

theorem mem_of_lookup_unpinned (h : (base.unpinned settings).lookup key = some value) :
    (key, value) ∈ settings := (List.mem_filter.mp (mem_of_lookup h)).1

theorem isFinite_of_survives (h : survives base (key, value) = true) : value.isFinite = true := by
  rw [survives, Bool.and_eq_true] at h
  exact h.1

/-- A plain setting of a request is read the same in both layers. -/
theorem reading_given (hgiven : (base.unpinned settings).lookup key = some value)
    (hsettings : settings = pickSettings numeral body)
    (hsurvives : survives base (key, value) = true) (hplain : key ≠ .publicUrl) :
    reading numeral key value =
      reading numeral key ((base.withStored (laid stored settings)).values key) := by
  obtain ⟨hui, hpicked⟩ := mem_pickSettings (hsettings ▸ mem_of_lookup_unpinned hgiven)
  rw [withStored_of_some hgiven hui (isFinite_of_survives hsurvives)]
  split
  · next hb =>
    refine reading_blank hsurvives hb ?_
    simp only [UI_SETTING_KEYS, List.mem_cons, List.not_mem_nil, or_false] at hui
    rcases hui with rfl | rfl | rfl | rfl | rfl | rfl
    · exact .inl rfl
    · exact absurd rfl hplain
    · exact .inr (.inl rfl)
    · cases hb.symm.trans (hpicked (.inl rfl))
    · exact .inr (.inr rfl)
    · cases hb.symm.trans (hpicked (.inr rfl))
  · rfl

theorem pinned_publicUrl : base.pinned .publicUrl = false := rfl

theorem pinned_trustProxy : base.pinned .trustProxy = false := rfl

/-- The public URL is read the same in both layers. -/
theorem Loaded.url (h : Loaded numeral base stored live)
    (hsurvives : ∀ entry ∈ settings, survives base entry = true) :
    url numeral (live.config.with (base.unpinned settings)).url =
      url numeral (base.withStored (laid stored settings)).url := by
  have hvalid : validate (Layers.normalize numeral (base.withStored stored)) = [] :=
    h.config ▸ h.valid
  cases hl : (base.unpinned settings).lookup .publicUrl with
  | none =>
    have hnone : settings.lookup .publicUrl = none := by
      rwa [lookup_unpinned, pinned_publicUrl, if_neg Bool.false_ne_true] at hl
    have hurl : (base.withStored (laid stored settings)).url = (base.withStored stored).url := by
      simp [Raw.url, Live.withStored, Live.taken, laid, hnone]
    rw [hurl, ← url_normalize hvalid, h.config]
    simp [Raw.url, Config.with, hl, Value.isNull]
  | some value =>
    have hsome : settings.lookup .publicUrl = some value := by
      rwa [lookup_unpinned, pinned_publicUrl, if_neg Bool.false_ne_true] at hl
    have hs := hsurvives _ (mem_of_lookup_unpinned hl)
    have hgiven : (live.config.with (base.unpinned settings)).url = value := by
      simp [Raw.url, Config.with, hl]
    have hloaded : (base.withStored (laid stored settings)).publicUrlConfigured = some value := by
      simp [Live.withStored, laid, hsome, json_of_isFinite (isFinite_of_survives hs)]
    rw [hgiven, Raw.url, hloaded]
    dsimp only
    split
    · next hnull =>
      rw [withStored_of_some hl (by decide) (isFinite_of_survives hs), isNull_iff.mp hnull]
      have hpub : base.config.publicUrl = "" := by
        simpa [survives, isNull_iff.mp hnull, Value.isFinite, Value.isNull] using hs
      rw [Value.isBlank, if_pos rfl, Config.get, hpub]
      exact (by decide : "" = stripSlashes (trim ""))
    · rfl

theorem Loaded.trustProxy (h : Loaded numeral base stored live) : live.config.trustProxy =
    (live.config.tlsMode ≠ "acme" &&
      isTrusted numeral ((base.withStored stored).values .trustProxy)) := by
  simp only [← h.config, Layers.normalize]

theorem Loaded.agree (h : Loaded numeral base stored live)
    (hsettings : settings = pickSettings numeral body)
    (hsurvives : ∀ entry ∈ settings, survives base entry = true)
    (htrust : TrustKept numeral base stored live (base.unpinned settings)) :
    Agree numeral (live.config.with (base.unpinned settings))
      (base.withStored (laid stored settings)) := by
  have hvalid : validate (Layers.normalize numeral (base.withStored stored)) = [] :=
    h.config ▸ h.valid
  have hplain : ∀ key, isPlain key →
      reading numeral key ((live.config.with (base.unpinned settings)).values key) =
        reading numeral key ((base.withStored (laid stored settings)).values key) := by
    intro key hplain
    rw [isPlain, Bool.and_eq_true] at hplain
    have hurl : key ≠ .publicUrl := of_decide_eq_true hplain.1
    rw [with_values]
    cases hl : (base.unpinned settings).lookup key with
    | some value =>
      exact reading_given hl hsettings (hsurvives _ (mem_of_lookup_unpinned hl)) hurl
    | none =>
      rw [withStored_of_none hl, ← h.config]
      exact reading_get hvalid (by simpa [isPlain] using hplain)
  refine ⟨hplain, h.url hsurvives, fun hacme => ?_⟩
  rw [with_values]
  cases hl : (base.unpinned settings).lookup .trustProxy with
  | some value =>
    have hs := hsurvives _ (mem_of_lookup_unpinned hl)
    obtain ⟨hui, hpicked⟩ := mem_pickSettings (hsettings ▸ mem_of_lookup_unpinned hl)
    rw [withStored_of_some hl hui (isFinite_of_survives hs), hpicked (.inr rfl)]
    rfl
  | none =>
    rw [withStored_of_none hl, Option.getD_none, Config.get, h.trustProxy, isTrusted_bool]
    by_cases hlive : live.config.tlsMode = "acme"
    · rcases htrust hlive with hgiven | hfalse | hstays
      · rw [hl] at hgiven
        cases hgiven
      · rw [hfalse, Bool.and_false]
      · exact absurd ((Value.text.inj (hplain .tlsMode rfl)).symm.trans hstays) hacme
    · simp [hlive]

theorem Loaded.apply (h : Loaded numeral base stored live)
    (hsettings : settings = pickSettings numeral body)
    (hsurvives : ∀ entry ∈ settings, survives base entry = true)
    (htrust : TrustKept numeral base stored live (base.unpinned settings))
    (hnext : applySettings numeral live settings = .ok next) :
    Loaded numeral base (laid stored settings) next := by
  have hagree := (h.agree hsettings hsurvives htrust).normalize_eq
  unfold applySettings at hnext
  split at hnext
  · cases hnext
  · rw [unpinned_congr h.pinned] at hnext
    dsimp only at hnext
    split at hnext
    · next hv =>
      cases hnext
      refine ⟨hagree.symm, hv, fun key => ?_⟩
      rw [← h.pinned key]
      change ((PINNED_BY_ENV key).isSome &&
        decide ((if ((base.unpinned settings).lookup key).isSome then Source.ui
          else live.sources key) = .env)) = live.pinned key
      split
      · next hsome =>
        rw [lookup_unpinned, ← h.pinned key] at hsome
        split at hsome
        · cases hsome
        · next hp => simp [hp]
      · rfl
    · cases hnext

end Tunlit.Settings.Reload
