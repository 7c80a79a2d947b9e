import Mathlib.Data.List.Basic

/-! # Cutting a list into pieces of bounded length -/
namespace Tunlit.Lib.Chunks

variable {α : Type*}

def chunks (n : Nat) (l : List α) : List (List α) :=
  if _h : l = [] ∨ n = 0 then [] else l.take n :: chunks n (l.drop n)
termination_by l.length
decreasing_by
  have := List.length_pos_iff.mpr (not_or.mp _h).1
  simp only [List.length_drop]
  omega

@[simp] theorem chunks_nil (n : Nat) : chunks n ([] : List α) = [] := by
  rw [chunks]; simp

theorem chunks_cons {n : Nat} (hn : 0 < n) {l : List α} (hl : l ≠ []) :
    chunks n l = l.take n :: chunks n (l.drop n) := by
  rw [chunks, dif_neg]
  simp [hl, Nat.ne_of_gt hn]

theorem chunks_of_le {n : Nat} {l : List α} (hl : l ≠ []) (hle : l.length ≤ n) :
    chunks n l = [l] := by
  have hn : 0 < n := Nat.lt_of_lt_of_le (List.length_pos_iff.mpr hl) hle
  rw [chunks_cons hn hl, List.take_of_length_le hle, List.drop_of_length_le hle, chunks_nil]

theorem flatten_chunks {n : Nat} (hn : 0 < n) (l : List α) : (chunks n l).flatten = l := by
  induction l using chunks.induct n with
  | case1 l h =>
    have hl : l = [] := h.resolve_right (Nat.ne_of_gt hn)
    simp [hl]
  | case2 l h ih =>
    rw [chunks_cons hn (not_or.mp h).1, List.flatten_cons, ih, List.take_append_drop]

theorem mem_chunks {n : Nat} (hn : 0 < n) {l c : List α} (hc : c ∈ chunks n l) :
    c ≠ [] ∧ c.length ≤ n := by
  induction l using chunks.induct n with
  | case1 l h =>
    have hl : l = [] := h.resolve_right (Nat.ne_of_gt hn)
    simp [hl] at hc
  | case2 l h ih =>
    have hl := (not_or.mp h).1
    rw [chunks_cons hn hl, List.mem_cons] at hc
    rcases hc with rfl | hc
    · refine ⟨?_, List.length_take_le ..⟩
      simp only [ne_eq, List.take_eq_nil_iff, not_or]
      exact ⟨Nat.ne_of_gt hn, hl⟩
    · exact ih hc

/-- Pieces of full length are cut where they were joined. -/
theorem chunks_flatten {n : Nat} (hn : 0 < n) {pieces : List (List α)}
    (h : ∀ p ∈ pieces, p.length = n) : chunks n pieces.flatten = pieces := by
  induction pieces with
  | nil => simp
  | cons p pieces ih =>
    have hp : p.length = n := h p (List.mem_cons_self ..)
    have hne : p ++ pieces.flatten ≠ [] := by
      intro he
      have := congrArg List.length he
      simp only [List.length_append, List.length_nil] at this
      omega
    rw [List.flatten_cons, chunks_cons hn hne, ← hp, List.take_left, List.drop_left, hp,
      ih fun q hq => h q (List.mem_cons_of_mem _ hq)]

end Tunlit.Lib.Chunks
