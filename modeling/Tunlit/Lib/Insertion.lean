import Mathlib.Data.List.Nodup
import Mathlib.Data.List.Perm.Subperm

/-! # Maps that keep the order of insertion

A finite map as the list of its entries, oldest first. Setting a key that is there
keeps its place. No key occurs twice, so an entry of the list is what `get` finds. -/
namespace Tunlit.Lib.Insertion

variable {κ ν : Type*} [DecidableEq κ]

structure OrderedMap (κ ν : Type*) where
  entries : List (κ × ν)
  nodup : (entries.map Prod.fst).Nodup
deriving DecidableEq

def lookup : List (κ × ν) → κ → Option ν
  | [], _ => none
  | (k, v) :: l, q => if k = q then some v else lookup l q

def assign : List (κ × ν) → κ → ν → List (κ × ν)
  | [], q, w => [(q, w)]
  | (k, v) :: l, q, w => if k = q then (k, w) :: l else (k, v) :: assign l q w

theorem lookup_cons (k : κ) (v : ν) (l : List (κ × ν)) (q : κ) :
    lookup ((k, v) :: l) q = if k = q then some v else lookup l q := rfl

theorem assign_cons (k : κ) (v : ν) (l : List (κ × ν)) (q : κ) (w : ν) :
    assign ((k, v) :: l) q w = if k = q then (k, w) :: l else (k, v) :: assign l q w := rfl

theorem mem_of_lookup {l : List (κ × ν)} {q : κ} {v : ν} (h : lookup l q = some v) :
    (q, v) ∈ l := by
  induction l with
  | nil => cases h
  | cons e l ih =>
    obtain ⟨k, w⟩ := e
    rw [lookup_cons] at h
    split at h
    · rename_i hk
      cases h
      exact hk ▸ List.mem_cons_self ..
    · exact List.mem_cons_of_mem _ (ih h)

theorem lookup_eq_none {l : List (κ × ν)} {q : κ} :
    lookup l q = none ↔ q ∉ l.map Prod.fst := by
  induction l with
  | nil => exact iff_of_true rfl List.not_mem_nil
  | cons e l ih =>
    obtain ⟨k, w⟩ := e
    rw [lookup_cons]
    split
    · rename_i hk
      simp [hk]
    · rename_i hk
      simp only [ih, List.map_cons, List.mem_cons, not_or]
      exact ⟨fun h => ⟨fun he => hk he.symm, h⟩, And.right⟩

theorem lookup_of_mem {l : List (κ × ν)} (hn : (l.map Prod.fst).Nodup) {q : κ} {v : ν}
    (h : (q, v) ∈ l) : lookup l q = some v := by
  induction l with
  | nil => cases h
  | cons e l ih =>
    obtain ⟨k, w⟩ := e
    rw [List.map_cons, List.nodup_cons] at hn
    rw [lookup_cons]
    rcases List.mem_cons.mp h with he | hm
    · cases he
      exact if_pos rfl
    · rw [if_neg, ih hn.2 hm]
      rintro rfl
      exact hn.1 (List.mem_map.mpr ⟨(k, v), hm, rfl⟩)

theorem lookup_assign (l : List (κ × ν)) (q r : κ) (w : ν) :
    lookup (assign l q w) r = if q = r then some w else lookup l r := by
  induction l with
  | nil => rfl
  | cons e l ih =>
    obtain ⟨k, v⟩ := e
    rw [assign_cons]
    split
    · rename_i hk
      subst hk
      simp only [lookup_cons]
      split <;> rfl
    · rename_i hk
      simp only [lookup_cons, ih]
      split
      · rename_i hr
        rw [if_neg]
        rintro rfl
        exact hk hr
      · rfl

theorem keys_assign (l : List (κ × ν)) (q : κ) (w : ν) :
    (assign l q w).map Prod.fst =
      if q ∈ l.map Prod.fst then l.map Prod.fst else l.map Prod.fst ++ [q] := by
  induction l with
  | nil => rfl
  | cons e l ih =>
    obtain ⟨k, v⟩ := e
    rw [assign_cons]
    split
    · rename_i hk
      simp [hk]
    · rename_i hk
      simp only [List.map_cons, ih, List.mem_cons]
      have hq : q ≠ k := fun h => hk h.symm
      split
      · rename_i hm
        rw [if_pos (.inr hm)]
      · rename_i hm
        rw [if_neg (not_or.mpr ⟨hq, hm⟩), List.cons_append]

theorem nodup_assign {l : List (κ × ν)} (hn : (l.map Prod.fst).Nodup) (q : κ) (w : ν) :
    ((assign l q w).map Prod.fst).Nodup := by
  rw [keys_assign]
  split
  · exact hn
  · rename_i hm
    refine List.Nodup.append hn (List.nodup_singleton q) ?_
    simpa using hm

namespace OrderedMap

def empty : OrderedMap κ ν := ⟨[], List.nodup_nil⟩

instance : EmptyCollection (OrderedMap κ ν) := ⟨empty⟩
instance : Inhabited (OrderedMap κ ν) := ⟨∅⟩

variable (m : OrderedMap κ ν)

def get (q : κ) : Option ν := lookup m.entries q
def has (q : κ) : Bool := (m.get q).isSome
def values : List ν := m.entries.map Prod.snd
def set (q : κ) (w : ν) : OrderedMap κ ν := ⟨assign m.entries q w, nodup_assign m.nodup q w⟩

/-- The entries that meet a condition. -/
def filter (p : κ → ν → Bool) : OrderedMap κ ν :=
  ⟨m.entries.filter fun e => p e.1 e.2, m.nodup.sublist (List.filter_sublist.map _)⟩

def delete (q : κ) : OrderedMap κ ν := m.filter fun k _ => k ≠ q

variable {m}

@[simp, grind =] theorem get_empty (q : κ) : (∅ : OrderedMap κ ν).get q = none := rfl

@[grind =] theorem get_set (q r : κ) (w : ν) :
    (m.set q w).get r = if q = r then some w else m.get r :=
  lookup_assign ..

@[simp] theorem get_set_self (q : κ) (w : ν) : (m.set q w).get q = some w := by simp [get_set]

theorem mem_entries {q : κ} {v : ν} : (q, v) ∈ m.entries ↔ m.get q = some v :=
  ⟨lookup_of_mem m.nodup, mem_of_lookup⟩

theorem get_filter_eq_some {p : κ → ν → Bool} {q : κ} {v : ν} :
    (m.filter p).get q = some v ↔ m.get q = some v ∧ p q v = true := by
  rw [← mem_entries, ← mem_entries, filter, List.mem_filter]

@[grind =] theorem get_filter (p : κ → ν → Bool) (q : κ) :
    (m.filter p).get q = (m.get q).filter (p q) := by
  ext v
  rw [get_filter_eq_some, Option.filter_eq_some_iff]

@[grind =] theorem get_delete (q r : κ) :
    (m.delete q).get r = if q = r then none else m.get r := by
  rw [delete, get_filter]
  by_cases h : q = r
  · subst h
    cases m.get q <;> simp
  · have hr : r ≠ q := fun he => h he.symm
    cases m.get r <;> simp [h, hr]

@[simp, grind =] theorem has_eq_true {q : κ} : m.has q = true ↔ ∃ v, m.get q = some v :=
  Option.isSome_iff_exists

@[simp] theorem has_eq_false {q : κ} : m.has q = false ↔ m.get q = none := by
  simp [has]

theorem mem_values {v : ν} : v ∈ m.values ↔ ∃ q, m.get q = some v := by
  simp only [values, List.mem_map, Prod.exists, exists_eq_right]
  exact exists_congr fun q => mem_entries

/-! ## Counting -/

variable {p p' : ν → Bool} {m' : OrderedMap κ ν}

/-- The number of values that meet a condition. -/
def tally (m : OrderedMap κ ν) (p : ν → Bool) : Nat := (m.values.filter p).length

/-- The keys of the values that are counted. -/
def tallied (m : OrderedMap κ ν) (p : ν → Bool) : List κ := (m.filter fun _ => p).entries.map Prod.fst

omit [DecidableEq κ] in
theorem length_tallied : (m.tallied p).length = m.tally p := by
  rw [tallied, tally, values, List.length_map, filter, List.filter_map, List.length_map]
  rfl

theorem mem_tallied {q : κ} : q ∈ m.tallied p ↔ ∃ v, m.get q = some v ∧ p v = true := by
  simp only [tallied, List.mem_map, Prod.exists, exists_and_right, exists_eq_right, mem_entries,
    get_filter_eq_some]

theorem tally_le_of_subset {l : List κ} (h : ∀ q ∈ m.tallied p, q ∈ l) :
    m.tally p ≤ l.length := by
  rw [← length_tallied]
  exact ((m.filter fun _ => p).nodup.subperm h).length_le

/-- Fewer keys are counted, so the number is no greater. -/
theorem tally_le (h : ∀ q v, m'.get q = some v → p' v = true → ∃ w, m.get q = some w ∧ p w = true) :
    m'.tally p' ≤ m.tally p := by
  rw [← length_tallied (m := m)]
  refine tally_le_of_subset fun q hq => ?_
  obtain ⟨v, hv, hp⟩ := mem_tallied.mp hq
  exact mem_tallied.mpr (h q v hv hp)

/-- One more key is counted, so the number is greater by one at most. -/
theorem tally_le_succ {k : κ} (h : ∀ q v, q ≠ k → m'.get q = some v → p' v = true →
    ∃ w, m.get q = some w ∧ p w = true) : m'.tally p' ≤ m.tally p + 1 := by
  rw [← length_tallied (m := m)]
  refine tally_le_of_subset (l := k :: m.tallied p) fun q hq => ?_
  obtain ⟨v, hv, hp⟩ := mem_tallied.mp hq
  by_cases hk : q = k
  · exact hk ▸ List.mem_cons_self ..
  · exact List.mem_cons_of_mem _ (mem_tallied.mpr (h q v hk hv hp))

end OrderedMap

end Tunlit.Lib.Insertion
