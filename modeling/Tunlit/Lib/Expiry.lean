import Mathlib.Data.List.Induction
import Tunlit.Lib.Insertion

/-! # Maps whose entries run out

A map in which every value has a deadline. Entries are put in and dropped on purpose; besides, one
that is past its deadline may be taken away at any time, or never. What the log of the purposeful
changes says of a key is what a reader finds who asks for the deadline. -/
namespace Tunlit.Lib.Expiry
open Tunlit.Lib.Insertion

variable {κ ν : Type*} [DecidableEq κ]

/-- A purposeful change. -/
inductive Change (κ ν : Type*)
  | put (key : κ) (value : ν)
  | drop (goes : κ → ν → Bool)

def Change.apply (k : κ) (held : Option ν) : Change κ ν → Option ν
  | .put key value => if key = k then some value else held
  | .drop goes => held.filter fun value => !goes k value

/-- A change that takes a value under a key away. -/
def Change.Ends (k : κ) (v : ν) : Change κ ν → Prop
  | .put key _ => key = k
  | .drop goes => goes k v = true

/-- What the changes, oldest first, have left under a key. -/
def standing (log : List (Change κ ν)) (k : κ) : Option ν := log.foldl (Change.apply k) none

variable (deadline : ν → ℕ)

def live (now : ℕ) (value : Option ν) : Option ν := value.filter fun v => now ≤ deadline v

/-- The map has nothing but what stands, and all of it that has not run out. -/
structure Holds (now : ℕ) (m : OrderedMap κ ν) (log : List (Change κ ν)) : Prop where
  stands : ∀ k v, m.get k = some v → standing log k = some v
  kept : ∀ k v, standing log k = some v → now ≤ deadline v → m.get k = some v

/-! ## The log -/

variable {now now' : ℕ} {m m' : OrderedMap κ ν} {log : List (Change κ ν)} {k : κ} {v : ν}

@[simp] theorem standing_nil : standing ([] : List (Change κ ν)) k = none := rfl

theorem standing_concat (change : Change κ ν) :
    standing (log ++ [change]) k = change.apply k (standing log k) := by
  rw [standing, List.foldl_append]
  rfl

theorem standing_put (key : κ) (value : ν) : standing (log ++ [.put key value]) k =
    if key = k then some value else standing log k := standing_concat _

theorem standing_drop (goes : κ → ν → Bool) : standing (log ++ [.drop goes]) k =
    (standing log k).filter fun value => !goes k value := standing_concat _

theorem standing_put_of_ne {key : κ} (h : key ≠ k) (value : ν) :
    standing (log ++ [.put key value]) k = standing log k := by
  rw [standing_put, if_neg h]

theorem standing_take_self : standing (log ++ [.drop fun key _ => key = k]) k = none := by
  rw [standing_drop]
  simp

theorem standing_take_of_ne {key : κ} (h : k ≠ key) :
    standing (log ++ [.drop fun k _ => k = key]) k = standing log k := by
  rw [standing_drop]
  cases standing log k with
  | none => rfl
  | some value => simp [h]

/-! ## The map -/

variable {deadline}

theorem live_eq_some {value : Option ν} :
    live deadline now value = some v ↔ value = some v ∧ now ≤ deadline v := by
  simp [live, Option.filter_eq_some_iff]

theorem Holds.empty : Holds deadline now (∅ : OrderedMap κ ν) [] where
  stands _ _ h := by cases h
  kept _ _ h := by cases h

theorem Holds.later (h : Holds deadline now m log) (hle : now ≤ now') :
    Holds deadline now' m log where
  stands := h.stands
  kept k v hs hd := h.kept k v hs (Nat.le_trans hle hd)

theorem Holds.put (h : Holds deadline now m log) (key : κ) (value : ν) :
    Holds deadline now (m.set key value) (log ++ [.put key value]) where
  stands k v hg := by
    rw [OrderedMap.get_set] at hg
    rw [standing_put]
    split at hg
    · next he => rw [if_pos he]; exact hg
    · next hne => rw [if_neg hne]; exact h.stands k v hg
  kept k v hs hd := by
    rw [OrderedMap.get_set]
    rw [standing_put] at hs
    split at hs
    · next he => rw [if_pos he]; exact hs
    · next hne => rw [if_neg hne]; exact h.kept k v hs hd

theorem Holds.drop (h : Holds deadline now m log) (goes : κ → ν → Bool)
    (hm : ∀ k v, m'.get k = some v ↔ m.get k = some v ∧ goes k v = false) :
    Holds deadline now m' (log ++ [.drop goes]) where
  stands k v hg := by
    obtain ⟨hg, hgoes⟩ := (hm k v).mp hg
    rw [standing_drop, h.stands k v hg]
    simp [hgoes]
  kept k v hs hd := by
    rw [standing_drop, Option.filter_eq_some_iff] at hs
    exact (hm k v).mpr ⟨h.kept k v hs.1 hd, by simpa using hs.2⟩

/-- A key of its own is taken out. -/
theorem Holds.take (h : Holds deadline now m log) (key : κ) :
    Holds deadline now (m.delete key) (log ++ [.drop fun k _ => k = key]) := by
  refine h.drop _ fun k v => ?_
  rw [OrderedMap.get_delete]
  split
  · next he => simp [he]
  · next hne => simp [Ne.symm hne]

/-- Whatever has run out may go. -/
theorem Holds.shrink (h : Holds deadline now m log)
    (hsub : ∀ k v, m'.get k = some v → m.get k = some v)
    (hlive : ∀ k v, m.get k = some v → now ≤ deadline v → m'.get k = some v) :
    Holds deadline now m' log where
  stands k v hg := h.stands k v (hsub k v hg)
  kept k v hs hd := hlive k v (h.kept k v hs hd) hd

theorem Holds.get_live (h : Holds deadline now m log) (k : κ) :
    live deadline now (m.get k) = live deadline now (standing log k) := by
  ext v
  rw [live_eq_some, live_eq_some]
  constructor
  · rintro ⟨hg, hd⟩
    exact ⟨h.stands k v hg, hd⟩
  · rintro ⟨hs, hd⟩
    exact ⟨h.kept k v hs hd, hd⟩

end Tunlit.Lib.Expiry
