import Mathlib.Data.List.Basic
import Mathlib.Order.MinMax

/-! # Rows of which the oldest go

Rows come in at the end, in the order of their ranks, and are cut off at the front by rank. A cut
may come late: it takes the rank it was made for, whatever has come in or gone since. As long as
every cut leaves as many rows as it was made to leave, the newest are never lost. -/
namespace Tunlit.Lib.Retention

variable {α : Type*} (rank : α → ℕ) (n : ℕ)

/-- What is kept of the rows that came in: the newest, and at least `n` of them. -/
structure Window (came kept : List α) : Prop where
  suffix : kept <:+ came
  newest : min n came.length ≤ kept.length

def above (x : ℕ) (rows : List α) : List α := rows.filter fun a => x < rank a

/-- A cut at a rank does no harm. -/
def Safe (x : ℕ) (came kept : List α) : Prop :=
  n ≤ (above rank x kept).length ∨ ∀ a ∈ came, x < rank a

def Ordered (rows : List α) : Prop := rows.Pairwise fun a b => rank a < rank b

variable {rank n} {came kept rows : List α} {x y : ℕ}

theorem Window.nil : Window n ([] : List α) [] := ⟨List.suffix_rfl, by simp⟩

theorem Window.append (h : Window n came kept) (rows : List α) :
    Window n (came ++ rows) (kept ++ rows) := by
  obtain ⟨front, rfl⟩ := h.suffix
  refine ⟨⟨front, (List.append_assoc _ _ _).symm⟩, ?_⟩
  have hnewest := h.newest
  rw [List.length_append] at hnewest ⊢
  rw [List.length_append, List.length_append]
  omega

/-- Where nothing more than `n` rows is kept, it is the last `n`. -/
theorem Window.eq_drop (h : Window n came kept) (hle : kept.length ≤ n) :
    kept = came.drop (came.length - n) := by
  obtain ⟨front, rfl⟩ := h.suffix
  have hnewest := h.newest
  rw [List.length_append] at hnewest ⊢
  rcases Nat.eq_zero_or_pos front.length with hzero | hpos
  · rw [List.eq_nil_of_length_eq_zero hzero, List.nil_append, List.length_nil, Nat.zero_add,
      Nat.sub_eq_zero_of_le hle, List.drop_zero]
  · have hlength : front.length + kept.length - n = front.length := by omega
    rw [hlength, List.drop_left]

/-! ## Cuts -/

theorem above_suffix (h : Ordered rank rows) : above rank x rows <:+ rows := by
  induction rows with
  | nil => exact List.suffix_rfl
  | cons a rows ih =>
    obtain ⟨ha, hrows⟩ := List.pairwise_cons.mp h
    by_cases hx : x < rank a
    · have hall : above rank x (a :: rows) = a :: rows := by
        refine List.filter_eq_self.mpr fun b hb => ?_
        rcases List.mem_cons.mp hb with rfl | hb
        · exact decide_eq_true hx
        · exact decide_eq_true (hx.trans (ha b hb))
      exact ⟨[], hall⟩
    · have hrest : above rank x (a :: rows) = above rank x rows :=
        List.filter_cons_of_neg (by simpa using hx)
      rw [hrest]
      exact (ih hrows).trans (List.suffix_cons a rows)

theorem above_eq_self (h : ∀ a ∈ rows, x < rank a) : above rank x rows = rows :=
  List.filter_eq_self.mpr fun a ha => decide_eq_true (h a ha)

theorem above_above : above rank x (above rank y rows) = above rank (max x y) rows := by
  simp only [above, List.filter_filter]
  refine List.filter_congr fun a _ => ?_
  simp

theorem above_append (tail : List α) :
    above rank x (rows ++ tail) = above rank x rows ++ above rank x tail := List.filter_append _ _

theorem Window.cut (h : Window n came kept) (hordered : Ordered rank kept)
    (hsafe : Safe rank n x came kept) : Window n came (above rank x kept) := by
  refine ⟨(above_suffix hordered).trans h.suffix, ?_⟩
  rcases hsafe with hsafe | hsafe
  · omega
  · rw [above_eq_self fun a ha => hsafe a (h.suffix.subset ha)]
    exact h.newest

theorem Safe.nil : Safe rank n x ([] : List α) [] := .inr (by simp)

theorem Safe.append (h : Safe rank n x came kept) (hrows : ∀ a ∈ rows, x < rank a) :
    Safe rank n x (came ++ rows) (kept ++ rows) := by
  rcases h with h | h
  · refine .inl ?_
    rw [above_append, List.length_append]
    omega
  · refine .inr fun a ha => ?_
    rcases List.mem_append.mp ha with ha | ha
    · exact h a ha
    · exact hrows a ha

theorem Safe.cut (h : Safe rank n x came kept) (hy : Safe rank n y came kept)
    (hsub : kept ⊆ came) : Safe rank n x came (above rank y kept) := by
  rcases h with h | h
  · rcases hy with hy | hy
    · refine .inl ?_
      rw [above_above]
      rcases max_choice x y with hmax | hmax
      · rwa [hmax]
      · rwa [hmax]
    · rw [above_eq_self fun a ha => hy a (hsub ha)]
      exact .inl h
  · exact .inr h

/-- A cut at the row that `n` rows are above leaves these. -/
theorem above_found (hordered : Ordered rank rows) {a : α} (h : rows.reverse[n]? = some a) :
    (above rank (rank a) rows).length = n := by
  obtain ⟨hlt, ha⟩ := List.getElem?_eq_some_iff.mp h
  rw [List.length_reverse] at hlt
  have hsplit : rows = rows.take (rows.length - n - 1) ++ a :: rows.drop (rows.length - n) := by
    have hindex : rows.length - n - 1 < rows.length := by omega
    have hget : rows[rows.length - n - 1] = a := by
      rw [← ha, List.getElem_reverse]
      congr 1
      omega
    conv_lhs => rw [← List.take_append_drop (rows.length - n - 1) rows]
    rw [List.drop_eq_getElem_cons hindex, hget]
    congr 3
    omega
  have hlength : (rows.drop (rows.length - n)).length = n := by
    rw [List.length_drop]
    omega
  generalize rows.take (rows.length - n - 1) = front at hsplit
  generalize rows.drop (rows.length - n) = back at hsplit hlength
  subst hsplit
  obtain ⟨-, hback, hfront⟩ := List.pairwise_append.mp hordered
  obtain ⟨hback, -⟩ := List.pairwise_cons.mp hback
  have hnone : above rank (rank a) (front ++ [a]) = [] := by
    refine List.filter_eq_nil_iff.mpr fun b hb => ?_
    rcases List.mem_append.mp hb with hb | hb
    · have := hfront b hb a List.mem_cons_self
      simp
      omega
    · cases List.mem_singleton.mp hb
      simp
  rw [List.append_cons, above_append, hnone, above_eq_self hback, List.nil_append, hlength]

end Tunlit.Lib.Retention
