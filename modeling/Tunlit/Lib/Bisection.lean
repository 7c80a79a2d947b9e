import Mathlib.Data.List.Basic

/-! # Bisection

A search that looks at the middle of an interval of positions and goes to the left of it, to
the right of it, or stops there. The answers need not be those of a sorted sequence: it is
enough that the positions that send to the left are the last ones. -/
namespace Tunlit.Lib.Bisection

/-- The search between `low` and `stop`, in as many turns as `fuel`. -/
def bisect (turn : Nat → Ordering) : Nat → Nat → Nat → Bool
  | 0, _, _ => false
  | fuel + 1, low, stop =>
    if low < stop then
      let middle := (low + stop - 1) / 2
      match turn middle with
      | .lt => bisect turn fuel low middle
      | .gt => bisect turn fuel (middle + 1) stop
      | .eq => true
    else false

/-- The positions in front of `bound` that a search for it looks at. -/
def probes (bound : Nat) : Nat → Nat → Nat → List Nat
  | 0, _, _ => []
  | fuel + 1, low, stop =>
    if low < stop then
      let middle := (low + stop - 1) / 2
      if bound ≤ middle then probes bound fuel low middle
      else middle :: probes bound fuel (middle + 1) stop
    else []

variable {turn : Nat → Ordering} {bound fuel low stop : Nat}

/-- The search stops where one of these positions says so. -/
theorem bisect_iff (hbelow : ∀ i < bound, turn i ≠ .lt)
    (habove : ∀ i < stop, bound ≤ i → turn i = .lt) :
    bisect turn fuel low stop = true ↔ ∃ i ∈ probes bound fuel low stop, turn i = .eq := by
  induction fuel generalizing low stop with
  | zero => simp [bisect, probes]
  | succ fuel ih =>
    unfold bisect probes
    split
    · next hlt =>
      dsimp only
      generalize hm : (low + stop - 1) / 2 = middle
      have hmiddle : middle < stop := by omega
      by_cases hb : bound ≤ middle
      · rw [habove middle hmiddle hb, if_pos hb]
        exact ih fun i hi => habove i (Nat.lt_trans hi hmiddle)
      · have hnot := hbelow middle (Nat.not_le.mp hb)
        have hrest : bisect turn fuel (middle + 1) stop = true ↔
            ∃ i ∈ probes bound fuel (middle + 1) stop, turn i = .eq := ih habove
        rw [if_neg hb]
        cases ht : turn middle with
        | lt => exact absurd ht hnot
        | gt => simpa [ht] using hrest
        | eq => simp [ht]
    · simp

/-- More turns than there are positions make no difference. -/
theorem bisect_fuel {more : Nat} (h : stop - low < fuel) (hm : fuel ≤ more) :
    bisect turn more low stop = bisect turn fuel low stop := by
  induction fuel generalizing low stop more with
  | zero => omega
  | succ fuel ih =>
    obtain ⟨more, rfl⟩ : ∃ n, more = n + 1 := ⟨more - 1, by omega⟩
    unfold bisect
    split
    · dsimp only
      cases turn ((low + stop - 1) / 2) with
      | lt => exact ih (by omega) (by omega)
      | gt => exact ih (by omega) (by omega)
      | eq => rfl
    · rfl

/-- The last position in front of the bound is looked at. -/
theorem pred_mem_probes (h : stop - low < fuel) (hlow : low < bound) (hstop : bound ≤ stop) :
    bound - 1 ∈ probes bound fuel low stop := by
  induction fuel generalizing low stop with
  | zero => omega
  | succ fuel ih =>
    unfold probes
    rw [if_pos (by omega)]
    dsimp only
    split
    · next hb => exact ih (by omega) hlow hb
    · next hb =>
      by_cases hlast : bound - 1 = (low + stop - 1) / 2
      · rw [hlast]
        exact List.mem_cons_self
      · exact List.mem_cons_of_mem _ (ih (by omega) (by omega) hstop)

theorem lt_of_mem_probes {i : Nat} (h : i ∈ probes bound fuel low stop) : i < bound ∧ i < stop := by
  induction fuel generalizing low stop with
  | zero => cases h
  | succ fuel ih =>
    unfold probes at h
    split at h
    · dsimp only at h
      split at h
      · next hb =>
        have hi := ih h
        omega
      · next hb =>
        rcases List.mem_cons.mp h with rfl | h
        · omega
        · exact ih h
    · cases h

end Tunlit.Lib.Bisection
