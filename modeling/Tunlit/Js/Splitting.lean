import Tunlit.Js.Text

/-! # The parts of a text

`split` at one character: what the first part is, and which parts there are. -/
namespace Tunlit.Js.Splitting
open Tunlit.Js.Text

theorem split_cons_self (sep : Char) (l : List Char) : split sep (sep :: l) = [] :: split sep l :=
  if_pos rfl

theorem split_cons_of_ne {sep c : Char} {l part : List Char} {parts : List (List Char)}
    (hc : c ≠ sep) (h : split sep l = part :: parts) :
    split sep (c :: l) = (c :: part) :: parts := by
  rw [split, if_neg hc, h]

theorem split_ne_nil (sep : Char) (l : List Char) : split sep l ≠ [] := by
  induction l with
  | nil => exact List.cons_ne_nil _ _
  | cons c l ih =>
    by_cases hc : c = sep
    · rw [hc, split_cons_self]
      exact List.cons_ne_nil _ _
    · obtain ⟨part, parts, h⟩ := List.exists_cons_of_ne_nil ih
      rw [split_cons_of_ne hc h]
      exact List.cons_ne_nil _ _

theorem split_headD_cons {sep c : Char} (hc : c ≠ sep) (l : List Char) :
    (split sep (c :: l)).headD [] = c :: (split sep l).headD [] := by
  obtain ⟨part, parts, h⟩ := List.exists_cons_of_ne_nil (split_ne_nil sep l)
  rw [split_cons_of_ne hc h, h]
  rfl

/-- What stands behind a separator is not in the first part. -/
theorem split_headD_append (sep : Char) (l m : List Char) :
    (split sep (l ++ sep :: m)).headD [] = (split sep l).headD [] := by
  induction l with
  | nil =>
    rw [List.nil_append, split_cons_self]
    rfl
  | cons c l ih =>
    by_cases hc : c = sep
    · rw [hc, List.cons_append, split_cons_self, split_cons_self, List.headD_cons, List.headD_cons]
    · rw [List.cons_append, split_headD_cons hc, split_headD_cons hc, ih]

theorem split_headD_of_notMem {sep : Char} {l : List Char} (h : ∀ c ∈ l, c ≠ sep) :
    (split sep l).headD [] = l := by
  induction l with
  | nil => rfl
  | cons c l ih =>
    rw [List.forall_mem_cons] at h
    rw [split_headD_cons h.1, ih h.2]

theorem split_headD (c : Char) (l : List Char) :
    (split c l).headD [] = l.takeWhile (· ≠ c) := by
  induction l with
  | nil => rfl
  | cons d l ih =>
    rw [List.takeWhile_cons]
    by_cases hd : d = c
    · rw [hd, split_cons_self]
      simp
    · rw [split_headD_cons hd, ih]
      simp [hd]

/-- A text without the separator is its only part. -/
theorem split_of_notMem {sep : Char} {l : List Char} (h : sep ∉ l) : split sep l = [l] := by
  induction l with
  | nil => rfl
  | cons c l ih =>
    obtain ⟨hc, hl⟩ := List.ne_and_not_mem_of_not_mem_cons h
    exact split_cons_of_ne hc.symm (ih hl)

theorem split_append {sep : Char} {part : List Char} (h : sep ∉ part) (l : List Char) :
    split sep (part ++ sep :: l) = part :: split sep l := by
  induction part with
  | nil => exact split_cons_self sep l
  | cons c part ih =>
    obtain ⟨hc, hpart⟩ := List.ne_and_not_mem_of_not_mem_cons h
    exact split_cons_of_ne hc.symm (ih hpart)

/-- The separator is in no part. -/
theorem notMem_of_mem_split {sep : Char} {l : List Char} : ∀ part ∈ split sep l, sep ∉ part := by
  induction l with
  | nil => exact List.forall_mem_singleton.mpr List.not_mem_nil
  | cons c l ih =>
    by_cases hc : c = sep
    · rw [hc, split_cons_self]
      exact List.forall_mem_cons.mpr ⟨List.not_mem_nil, ih⟩
    · obtain ⟨part, parts, h⟩ := List.exists_cons_of_ne_nil (split_ne_nil sep l)
      rw [h] at ih
      obtain ⟨hpart, hparts⟩ := List.forall_mem_cons.mp ih
      rw [split_cons_of_ne hc h]
      refine List.forall_mem_cons.mpr ⟨fun hm => ?_, hparts⟩
      rcases List.mem_cons.mp hm with he | hm
      · exact hc he.symm
      · exact hpart hm

theorem split_append_cons (sep : Char) (l m : List Char) :
    split sep (l ++ sep :: m) = split sep l ++ split sep m := by
  induction l with
  | nil => exact split_cons_self sep m
  | cons c l ih =>
    by_cases hc : c = sep
    · rw [hc, List.cons_append, split_cons_self, ih, split_cons_self, List.cons_append]
    · obtain ⟨part, rest, hl⟩ := List.exists_cons_of_ne_nil (split_ne_nil sep l)
      rw [hl, List.cons_append] at ih
      rw [List.cons_append, split_cons_of_ne hc ih, split_cons_of_ne hc hl, List.cons_append]

end Tunlit.Js.Splitting
