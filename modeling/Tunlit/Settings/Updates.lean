import Tunlit.Lib.Turns
import Tunlit.Settings.Reload

/-! # Settings that are changed while the server runs

`read` and `write` of `lib/settings.js` and `updateSettings` of `controllers/settings.js`.
A call is cut at the statements of `write`; a statement takes effect when it is issued, and
what it answers is kept until the call goes on. -/
namespace Tunlit.Settings.Updates
open Tunlit.Lib.Runs Tunlit.Lib.Turns
open Tunlit.Settings.Layers Tunlit.Settings.Readings Tunlit.Settings.Reload

/-! ## Rows -/

/-- Where `write` waits: for the row of a setting, or until the setting is stored. -/
inductive Writing where
  | finding (found : Bool) (entry : Key × Value) (rest : Entries)
  | storing (done : Bool) (rest : Entries)

def put (stored : Stored) (entry : Key × Value) : Stored :=
  fun key => if key = entry.1 then some entry.2.json else stored key

/-- `write`, and whether it ends without an error. -/
def write (stored : Stored) : Entries → Stage Writing Bool
  | [] => .ended true
  | entry :: rest => .waits (.finding (stored entry.1).isSome entry rest)

def Writing.resume (stored : Stored) : Writing → Stored × Stage Writing Bool
  | .finding true entry rest =>
    (if (stored entry.1).isSome then put stored entry else stored, .waits (.storing true rest))
  | .finding false entry rest =>
    if (stored entry.1).isSome then (stored, .waits (.storing false rest))
    else (put stored entry, .waits (.storing true rest))
  | .storing true rest => (stored, write stored rest)
  | .storing false _ => (stored, .ended false)

/-! ## Calls -/

structure World where
  live : Live
  stored : Stored

/-- What `getSettings` answers, but for the name of the config file. -/
structure Report where
  settings : Entries
  sources : List (Key × Source)
  effectivePublicUrl : String
  listen : Value
  port : Option ℚ

def getSettings (live : Live) : Report where
  settings := UI_SETTING_KEYS.map fun key => (key, live.config.shown key)
  sources := UI_SETTING_KEYS.map fun key => (key, live.sources key)
  effectivePublicUrl := live.config.publicUrl
  listen := live.config.listen
  port := live.config.port

inductive Answer where
  | settings (report : Report)
  | refused (message : String)
  | failed

def Answer.isError : Answer → Bool
  | .settings _ => false
  | _ => true

/-- How `updateSettings` stands while the settings are written. -/
def World.writes (w : World) : Stage Writing Bool → World × Stage Writing Answer
  | .waits point => (w, .waits point)
  | .ended true => (w, .ended (.settings (getSettings w.live)))
  | .ended false => (w, .ended .failed)

section
variable (numeral : ℚ → String)

def updateSettings (w : World) (body : Key → Option Value) : World × Stage Writing Answer :=
  let settings := pickSettings numeral body
  if settings.isEmpty then (w, .ended (.refused "No settings provided"))
  else match applySettings numeral w.live settings with
    | .error message => (w, .ended (.refused message))
    | .ok live => World.writes { w with live } (write w.stored settings)

def handlers : Handlers World (Key → Option Value) Unit Writing Answer where
  start := updateSettings numeral
  resume w point _ := World.writes { w with stored := (point.resume w.stored).1 }
    (point.resume w.stored).2

abbrev State := System World Writing Answer

/-- The server starts with a configuration and the settings stored so far. -/
def machine (base : Live) : Machine State (Event (Key → Option Value) Unit) :=
  (handlers numeral).machine fun s =>
    s.calls = [] ∧ applyStored numeral base s.world.stored = .ok s.world.live

/-! ## What is still to be written -/

def Writing.owed : Writing → Entries
  | .finding _ entry rest => entry :: rest
  | .storing _ rest => rest

def owedOf {β : Type} (stage : Stage Writing β) : Entries :=
  match stage with
  | .waits point => point.owed
  | .ended _ => []

def owedBy (calls : List (Call World Writing Answer)) : Entries :=
  calls.flatMap fun call => owedOf call.stage

def owed (s : State) : Entries := owedBy s.calls

/-- The stored settings, once the calls that wait have written theirs. -/
def latest (s : State) : Stored := laid s.world.stored (owed s)

/-- A call whose settings are accepted has none that a waiting call has yet to write, none
that is loaded as something else, and none that leaves the trust in a proxy open. -/
def Careful (base : Live) (s : State) (body : Key → Option Value) : Prop :=
  match applySettings numeral s.world.live (pickSettings numeral body) with
  | .ok _ =>
    (∀ entry ∈ pickSettings numeral body,
      entry.1 ∉ (owed s).map Prod.fst ∧ survives base entry = true) ∧
    TrustKept numeral base (latest s) s.world.live
      (s.world.live.unpinned (pickSettings numeral body))
  | .error _ => True

def ok (base : Live) (s : State) : Event (Key → Option Value) Unit → Prop
  | .call body => Careful numeral base s body
  | .resume _ _ => True

instance (base : Live) (s : State) (body : Key → Option Value) :
    Decidable (Careful numeral base s body) := by
  unfold Careful
  split <;> infer_instance

instance (base : Live) (s : State) : ∀ e, Decidable (ok numeral base s e)
  | .call body => inferInstanceAs (Decidable (Careful numeral base s body))
  | .resume _ _ => .isTrue trivial

end

variable {numeral : ℚ → String} {base : Live} {s t : State} {stored : Stored}
  {settings settings' : Entries} {entry : Key × Value}

theorem Careful.of_accepted {body : Key → Option Value} {next : Live}
    (h : Careful numeral base s body)
    (ha : applySettings numeral s.world.live (pickSettings numeral body) = .ok next) :
    (∀ entry ∈ pickSettings numeral body,
      entry.1 ∉ (owed s).map Prod.fst ∧ survives base entry = true) ∧
    TrustKept numeral base (latest s) s.world.live
      (s.world.live.unpinned (pickSettings numeral body)) := by
  rwa [Careful, ha] at h

theorem lookup_eq_none {key : Key} (h : key ∉ settings.map Prod.fst) :
    settings.lookup key = none := by
  refine List.lookup_eq_none_iff.mpr fun entry he => ?_
  have hne : key ≠ entry.1 := fun hk => h (hk ▸ List.mem_map_of_mem he)
  simpa using hne

theorem laid_append (h : ∀ entry ∈ settings', entry.1 ∉ settings.map Prod.fst) :
    laid stored (settings ++ settings') = laid (laid stored settings) settings' := by
  funext key
  simp only [laid, List.lookup_append]
  cases hl : settings'.lookup key with
  | none => simp
  | some value =>
    rw [lookup_eq_none (h _ (mem_of_lookup hl))]
    rfl

/-- A setting that is written counts as before. -/
theorem laid_put (h : ((settings ++ entry :: settings').map Prod.fst).Nodup) :
    laid (put stored entry) (settings ++ settings') =
      laid stored (settings ++ entry :: settings') := by
  rw [List.map_append, List.map_cons, List.nodup_append, List.nodup_cons] at h
  obtain ⟨-, ⟨hbehind, -⟩, hbefore⟩ := h
  funext key
  simp only [laid, List.lookup_append, put]
  by_cases hk : key = entry.1
  · have hnone : settings.lookup entry.1 = none :=
      lookup_eq_none fun hm => hbefore _ hm _ List.mem_cons_self rfl
    rw [hk, if_pos rfl, hnone, lookup_eq_none hbehind, List.lookup_cons_self]
    rfl
  · rw [if_neg hk, List.lookup_cons, beq_eq_false_iff_ne.mpr hk]

theorem owed_begins (turn : World × Stage Writing Answer) :
    owed (s.begins turn) = owed s ++ owedOf turn.2 := by
  simp [owed, owedBy, System.begins]

/-- A call that goes on owes its own part. -/
theorem owed_goesOn {i : Nat} {turns : List (World × World)} {point : Writing}
    (h : s.calls[i]? = some ⟨turns, .waits point⟩) : ∃ before behind,
    owed s = before ++ point.owed ++ behind ∧
    (∀ turn : World × Stage Writing Answer,
      owed (s.goesOn i turns turn) = before ++ owedOf turn.2 ++ behind) ∧
    ∀ k other, k ≠ i → s.pointOf k = some other → ∀ e ∈ other.owed, e ∈ before ++ behind := by
  obtain ⟨hi, hc⟩ := List.getElem?_eq_some_iff.mp h
  refine ⟨owedBy (s.calls.take i), owedBy (s.calls.drop (i + 1)), ?_, fun turn => ?_, ?_⟩
  · have hcut : s.calls = s.calls.take i ++ s.calls[i] :: s.calls.drop (i + 1) := by simp
    rw [hc] at hcut
    conv_lhs => rw [owed, hcut]
    simp only [owedBy, List.flatMap_append, List.flatMap_cons, List.append_assoc, owedOf]
  · rw [owed, System.goesOn, List.set_eq_take_append_cons_drop, if_pos hi]
    simp [owedBy]
  · intro k other hki hk e he
    obtain ⟨turns', hk⟩ := System.pointOf_eq_some hk
    have hmem : (⟨turns', .waits other⟩ : Call World Writing Answer) ∈
        s.calls.take i ++ s.calls.drop (i + 1) := by
      obtain ⟨hlt, hk⟩ := List.getElem?_eq_some_iff.mp hk
      rw [List.mem_append, List.mem_take_iff_getElem, List.mem_drop_iff_getElem]
      rcases Nat.lt_or_gt_of_ne hki with hlt' | hgt
      · exact .inl ⟨k, by omega, hk⟩
      · exact .inr ⟨k - (i + 1), by omega, by simpa [show i + 1 + (k - (i + 1)) = k by omega] using hk⟩
    rw [List.mem_append] at hmem ⊢
    exact hmem.imp (fun hm => List.mem_flatMap.mpr ⟨⟨turns', .waits other⟩, hm, he⟩)
      fun hm => List.mem_flatMap.mpr ⟨⟨turns', .waits other⟩, hm, he⟩

end Tunlit.Settings.Updates
