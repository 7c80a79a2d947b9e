import Mathlib.Logic.Function.Basic

/-! # Names leased to holders

A table gives each name to at most one lease. A lease is attached to a holder, and a
holder that is lost leaves it in a grace period: a timer is armed and takes the name away
when it fires. Names, leases and holders outlive each other: a lease may still have a
holder or a timer when its name has been taken away and given to another lease. -/
namespace Tunlit.Lib.Leases
open Function

/-- `hears x` are the leases that are told when the holder `x` is lost; `timer` is the
timer that a lease would stop, which may not be armed any more. -/
@[ext]
structure Table (ν ρ χ : Type*) where
  slot : ν → Option ρ
  name : ρ → ν
  known : ρ → Bool
  holder : ρ → Option χ
  timer : ρ → Option Nat
  deadline : ρ → Option Nat
  gone : χ → Bool
  hears : χ → List ρ
  timers : List (Nat × ρ)
  nextTimer : Nat

set_option linter.unusedSectionVars false

variable {ν ρ χ : Type*} [DecidableEq ν] [DecidableEq ρ] [DecidableEq χ]

namespace Table

/-! ## Operations -/

def create (T : Table ν ρ χ) (r : ρ) (n : ν) : Table ν ρ χ :=
  { T with
    known := update T.known r true
    name := update T.name r n
    holder := update T.holder r none
    timer := update T.timer r none
    deadline := update T.deadline r none }

def insert (T : Table ν ρ χ) (r : ρ) : Table ν ρ χ :=
  { T with slot := update T.slot (T.name r) (some r) }

def stop (T : Table ν ρ χ) (timer : Option Nat) : Table ν ρ χ :=
  { T with timers := T.timers.filter fun t => some t.1 ≠ timer }

def attach (T : Table ν ρ χ) (r : ρ) (x : χ) : Table ν ρ χ :=
  { T.stop (T.timer r) with
    timer := update T.timer r none
    deadline := update T.deadline r none
    holder := update T.holder r (some x)
    hears := if T.gone x then T.hears else update T.hears x (T.hears x ++ [r]) }

/-- The name is free, and the timer of the lease that had it is stopped. -/
def release (T : Table ν ρ χ) (n : ν) : Table ν ρ χ :=
  { T.stop ((T.slot n).bind T.timer) with slot := update T.slot n none }

def detach (T : Table ν ρ χ) (r : ρ) : Table ν ρ χ :=
  { T with holder := update T.holder r none }

def arm (T : Table ν ρ χ) (r : ρ) (deadline : Nat) : Table ν ρ χ :=
  { T with
    timer := update T.timer r (some T.nextTimer)
    deadline := update T.deadline r (some deadline)
    timers := T.timers ++ [(T.nextTimer, r)]
    nextTimer := T.nextTimer + 1 }

/-- A lease is told that the holder `x` is lost; without a deadline there is no grace. -/
def notify (T : Table ν ρ χ) (x : χ) (deadline : Option Nat) (r : ρ) : Table ν ρ χ :=
  if T.holder r ≠ some x then T
  else match deadline with
    | none => (T.detach r).release (T.name r)
    | some d => (T.detach r).arm r d

def mark (T : Table ν ρ χ) (x : χ) : Table ν ρ χ :=
  { T with gone := update T.gone x true, hears := update T.hears x [] }

def lose (T : Table ν ρ χ) (x : χ) (deadline : Option Nat) : Table ν ρ χ :=
  (T.hears x).foldl (fun T r => T.notify x deadline r) (T.mark x)

def fire (T : Table ν ρ χ) (t : Nat) (r : ρ) : Table ν ρ χ :=
  { T with timers := T.timers.filter fun u => u.1 ≠ t }.release (T.name r)

def releaseAll (T : Table ν ρ χ) (names : List ν) : Table ν ρ χ := names.foldl release T

@[simp] theorem insert_slot_self (T : Table ν ρ χ) (r : ρ) :
    (T.insert r).slot (T.name r) = some r := update_self ..

theorem insert_slot_ne (T : Table ν ρ χ) (r : ρ) {n : ν} (h : n ≠ T.name r) :
    (T.insert r).slot n = T.slot n := update_of_ne h ..

theorem release_slot_ne {n m : ν} {T : Table ν ρ χ} (h : n ≠ m) :
    (T.release m).slot n = T.slot n := update_of_ne h ..

theorem slot_of_release {n m : ν} {r : ρ} {T : Table ν ρ χ} (h : (T.release m).slot n = some r) :
    T.slot n = some r := by
  by_cases hn : n = m
  · subst hn
    simp [release] at h
  · exact (release_slot_ne hn).symm.trans h

theorem slot_of_notify {n : ν} {r r' : ρ} {x : χ} {d : Option Nat} {T : Table ν ρ χ}
    (h : (T.notify x d r').slot n = some r) : T.slot n = some r := by
  unfold notify at h
  split at h
  · exact h
  cases d with
  | none => exact slot_of_release h
  | some d => exact h

theorem slot_of_notifyAll {n : ν} {r : ρ} {x : χ} {d : Option Nat} (l : List ρ) {T : Table ν ρ χ}
    (h : (l.foldl (fun T r => T.notify x d r) T).slot n = some r) : T.slot n = some r := by
  induction l generalizing T with
  | nil => exact h
  | cons r' l ih => exact slot_of_notify (ih h)

/-- A lost holder gives no names away. -/
theorem slot_of_lose {n : ν} {r : ρ} {x : χ} {d : Option Nat} {T : Table ν ρ χ}
    (h : (T.lose x d).slot n = some r) : T.slot n = some r :=
  slot_of_notifyAll (T.hears x) (T := T.mark x) h

theorem slot_of_releaseAll {n : ν} {r : ρ} {names : List ν} {T : Table ν ρ χ}
    (h : (T.releaseAll names).slot n = some r) : T.slot n = some r := by
  induction names generalizing T with
  | nil => exact h
  | cons m names ih => exact slot_of_release (ih h)

/-! ## Leases that can act -/

def Live (T : Table ν ρ χ) (r : ρ) : Prop := ∃ x, T.holder r = some x ∧ T.gone x = false

def Armed (T : Table ν ρ χ) (r : ρ) : Prop := ∃ t, (t, r) ∈ T.timers

/-- The lease can still have its name taken away by an event of its own. -/
def Acts (T : Table ν ρ χ) (r : ρ) : Prop := T.Live r ∨ T.Armed r

def InGrace (T : Table ν ρ χ) (r : ρ) : Prop :=
  T.holder r = none ∧ (∃ t, T.timer r = some t ∧ (t, r) ∈ T.timers) ∧ (T.deadline r).isSome

variable {T : Table ν ρ χ} {r r' : ρ} {x y : χ} {n m : ν} {t : Nat} {d : Option Nat}

/-! ## What every table keeps -/

structure Sound (T : Table ν ρ χ) : Prop where
  named : ∀ n r, T.slot n = some r → T.name r = n ∧ T.known r = true
  heard : ∀ x r, r ∈ T.hears x → T.known r = true
  attached : ∀ x r, T.holder r = some x → T.known r = true
  deaf : ∀ x, T.gone x = true → T.hears x = []
  hearing : ∀ x r, T.holder r = some x → T.gone x = false → r ∈ T.hears x
  armed : ∀ t r, (t, r) ∈ T.timers →
    T.known r = true ∧ T.timer r = some t ∧ T.holder r = none
  own : ∀ t r r', T.timer r = some t → (t, r') ∈ T.timers → r = r'
  dated : ∀ t r, T.timer r = some t → t < T.nextTimer

theorem Sound.create (h : T.Sound) (hr : T.known r = false) : (T.create r n).Sound := by
  obtain ⟨h1, h2, h3, h4, h5, h6, h7, h8⟩ := h
  constructor <;> simp only [Table.create, update_apply] <;> grind

theorem Sound.insert (h : T.Sound) (hr : T.known r = true) : (T.insert r).Sound := by
  obtain ⟨h1, h2, h3, h4, h5, h6, h7, h8⟩ := h
  constructor <;> simp only [Table.insert, update_apply] <;> grind

theorem Sound.stop (h : T.Sound) (timer : Option Nat) : (T.stop timer).Sound := by
  obtain ⟨h1, h2, h3, h4, h5, h6, h7, h8⟩ := h
  constructor <;> simp only [Table.stop, List.mem_filter] <;> grind

theorem Sound.attach (h : T.Sound) (hr : T.known r = true) : (T.attach r x).Sound := by
  obtain ⟨h1, h2, h3, h4, h5, h6, h7, h8⟩ := h
  constructor <;> simp only [Table.attach, Table.stop, update_apply, List.mem_filter] <;> grind

theorem Sound.release (h : T.Sound) : (T.release n).Sound := by
  obtain ⟨h1, h2, h3, h4, h5, h6, h7, h8⟩ := h
  constructor <;> simp only [Table.release, Table.stop, update_apply, List.mem_filter] <;> grind

theorem Sound.detach (h : T.Sound) : (T.detach r).Sound := by
  obtain ⟨h1, h2, h3, h4, h5, h6, h7, h8⟩ := h
  constructor <;> simp only [Table.detach, update_apply] <;> grind

theorem Sound.arm (h : T.Sound) (hr : T.known r = true) (hn : T.holder r = none)
    (ht : ¬ T.Armed r) (d : Nat) : (T.arm r d).Sound := by
  obtain ⟨h1, h2, h3, h4, h5, h6, h7, h8⟩ := h
  simp only [Armed, not_exists] at ht
  constructor <;> simp only [Table.arm, update_apply, List.mem_append, List.mem_singleton] <;> grind

theorem Sound.not_armed (h : T.Sound) (hx : T.holder r = some x) : ¬ T.Armed r := by
  rintro ⟨t, ht⟩
  rw [(h.armed t r ht).2.2] at hx
  cases hx

theorem Sound.notify (h : T.Sound) (hr : T.known r = true) (x : χ) (d : Option Nat) :
    (T.notify x d r).Sound := by
  unfold Table.notify
  split
  · exact h
  rename_i hx
  have hx : T.holder r = some x := not_not.mp hx
  cases d with
  | none => exact h.detach.release
  | some d => exact h.detach.arm hr (update_self ..) (h.not_armed hx) d

theorem notify_known : (T.notify x d r).known = T.known := by
  unfold notify
  split
  · rfl
  · cases d <;> rfl

theorem notify_name : (T.notify x d r).name = T.name := by
  unfold notify
  split
  · rfl
  · cases d <;> rfl

theorem notifyAll_name (l : List ρ) :
    (l.foldl (fun T r => T.notify x d r) T).name = T.name := by
  induction l generalizing T with
  | nil => rfl
  | cons r l ih => exact (@ih (T.notify x d r)).trans notify_name

theorem lose_name : (T.lose x d).name = T.name := notifyAll_name ..

theorem releaseAll_name (names : List ν) : (T.releaseAll names).name = T.name := by
  induction names generalizing T with
  | nil => rfl
  | cons n names ih => exact @ih (T.release n)

theorem Sound.mark (h : T.Sound) (x : χ) : (T.mark x).Sound := by
  obtain ⟨h1, h2, h3, h4, h5, h6, h7, h8⟩ := h
  constructor <;> simp only [Table.mark, update_apply] <;> grind

theorem Sound.notifyAll (h : T.Sound) {l : List ρ} (hl : ∀ r ∈ l, T.known r = true) (x : χ)
    (d : Option Nat) : (l.foldl (fun T r => T.notify x d r) T).Sound := by
  induction l generalizing T with
  | nil => exact h
  | cons r l ih =>
    refine ih (h.notify (hl r (List.mem_cons_self ..)) x d) fun r' hr' => ?_
    rw [notify_known]
    exact hl r' (List.mem_cons_of_mem _ hr')

theorem Sound.lose (h : T.Sound) (x : χ) (d : Option Nat) : (T.lose x d).Sound :=
  (h.mark x).notifyAll (fun r hr => h.heard x r hr) x d

theorem Sound.unarm (h : T.Sound) (t : Nat) :
    Sound { T with timers := T.timers.filter fun u => u.1 ≠ t } := by
  obtain ⟨h1, h2, h3, h4, h5, h6, h7, h8⟩ := h
  constructor <;> simp only [List.mem_filter] <;> grind

theorem Sound.fire (h : T.Sound) (t : Nat) (r : ρ) : (T.fire t r).Sound := (h.unarm t).release

theorem Sound.releaseAll (h : T.Sound) (names : List ν) : (T.releaseAll names).Sound := by
  induction names generalizing T with
  | nil => exact h
  | cons n names ih => exact ih h.release

/-! ## Whose name is taken away -/

/-- The name of the lease is free or its own. -/
def Owns (T : Table ν ρ χ) (r : ρ) : Prop := T.slot (T.name r) = none ∨ T.slot (T.name r) = some r

/-- No lease that can act has lost its name to another. -/
def Undisputed (T : Table ν ρ χ) : Prop := ∀ r, T.Acts r → T.Owns r

theorem Undisputed.create (h : T.Undisputed) (hs : T.Sound) (hr : T.known r = false) :
    (T.create r n).Undisputed := by
  have ha := hs.armed
  have hn := hs.named
  intro r'
  have := h r'
  simp only [Owns, Acts, Live, Armed, Table.create, update_apply] at this ⊢
  grind

theorem Undisputed.insert (h : T.Undisputed) (hr : ∀ r', T.name r' = T.name r → ¬ T.Acts r') :
    (T.insert r).Undisputed := by
  intro r' ha
  have hne : T.name r' ≠ T.name r := fun he => hr r' he ha
  simp only [Owns, Table.insert, update_apply, if_neg hne]
  exact h r' ha

theorem Undisputed.attach (h : T.Undisputed) (hr : T.Owns r) (x : χ) :
    (T.attach r x).Undisputed := by
  intro r'
  by_cases he : r' = r
  · exact fun _ => he ▸ hr
  have := h r'
  simp only [Owns, Acts, Live, Armed, Table.attach, Table.stop, update_apply, if_neg he,
    List.mem_filter] at this ⊢
  grind

theorem Owns.release (h : T.Owns r) (n : ν) : (T.release n).Owns r := by
  simp only [Owns, Table.release, Table.stop, update_apply] at h ⊢
  split
  · exact .inl rfl
  · exact h

theorem Undisputed.release (h : T.Undisputed) (n : ν) : (T.release n).Undisputed := by
  intro r ha
  refine (h r ?_).release n
  rcases ha with hl | ⟨t, ht⟩
  · exact .inl hl
  · exact .inr ⟨t, (List.mem_filter.mp ht).1⟩

theorem Undisputed.detach (h : T.Undisputed) (r : ρ) : (T.detach r).Undisputed := by
  intro r'
  have := h r'
  simp only [Owns, Acts, Live, Armed, Table.detach, update_apply] at this ⊢
  grind

theorem Undisputed.arm (h : T.Undisputed) (hr : T.Owns r) (d : Nat) : (T.arm r d).Undisputed := by
  intro r'
  by_cases he : r' = r
  · exact fun _ => he ▸ hr
  have := h r'
  simp only [Owns, Acts, Live, Armed, Table.arm, List.mem_append, List.mem_singleton] at this ⊢
  grind

theorem Undisputed.notify (h : T.Undisputed) (hr : T.holder r = some x → T.Owns r)
    (d : Option Nat) : (T.notify x d r).Undisputed := by
  unfold Table.notify
  split
  · exact h
  rename_i hx
  have ho : (T.detach r).Owns r := hr (not_not.mp hx)
  cases d with
  | none => exact (h.detach r).release _
  | some d => exact (h.detach r).arm ho d

theorem Owns.notify (h : T.Owns r) (x : χ) (d : Option Nat) (r' : ρ) :
    (T.notify x d r').Owns r := by
  unfold Table.notify
  split
  · exact h
  cases d with
  | none => exact Owns.release (T := T.detach r') h _
  | some d => exact h

theorem notify_holder (h : (T.notify x d r').holder r = some y) : T.holder r = some y := by
  unfold notify at h
  split at h
  · exact h
  cases d with
  | none =>
    simp only [release, stop, detach, update_apply] at h
    grind
  | some d =>
    simp only [arm, detach, update_apply] at h
    grind

theorem Undisputed.notifyAll (h : T.Undisputed) {l : List ρ}
    (hl : ∀ r ∈ l, T.holder r = some x → T.Owns r) (d : Option Nat) :
    (l.foldl (fun T r => T.notify x d r) T).Undisputed := by
  induction l generalizing T with
  | nil => exact h
  | cons r l ih =>
    refine ih (h.notify (hl r (List.mem_cons_self ..)) d) fun r' hr' hx => ?_
    exact (hl r' (List.mem_cons_of_mem _ hr') (notify_holder hx)).notify x d r

theorem Undisputed.mark (h : T.Undisputed) (x : χ) : (T.mark x).Undisputed := by
  intro r'
  have := h r'
  simp only [Owns, Acts, Live, Armed, Table.mark, update_apply] at this ⊢
  grind

/-- The leases that hear of a holder have their names when they can act. -/
theorem Undisputed.heard (h : T.Undisputed) (hs : T.Sound) (hr : r ∈ T.hears x)
    (hx : T.holder r = some x) : T.Owns r := by
  cases hg : T.gone x with
  | true =>
    rw [hs.deaf x hg] at hr
    cases hr
  | false => exact h r (.inl ⟨x, hx, hg⟩)

theorem Undisputed.lose (h : T.Undisputed) (hs : T.Sound) (x : χ) (d : Option Nat) :
    (T.lose x d).Undisputed :=
  (h.mark x).notifyAll (fun _ hr hx => h.heard hs hr hx) d

theorem Undisputed.fire (h : T.Undisputed) (t : Nat) (r : ρ) : (T.fire t r).Undisputed := by
  refine Undisputed.release ?_ _
  intro r' ha
  refine h r' ?_
  rcases ha with hl | ⟨u, hu⟩
  · exact .inl hl
  · exact .inr ⟨u, (List.mem_filter.mp hu).1⟩

theorem Undisputed.releaseAll (h : T.Undisputed) (names : List ν) :
    (T.releaseAll names).Undisputed := by
  induction names generalizing T with
  | nil => exact h
  | cons n names ih => exact ih (h.release n)

theorem releaseAll_slot {names : List ν} (h : n ∉ names) : (T.releaseAll names).slot n = T.slot n := by
  induction names generalizing T with
  | nil => rfl
  | cons m names ih =>
    rw [List.mem_cons, not_or] at h
    exact (@ih (T.release m) h.2).trans (release_slot_ne h.1)

theorem releaseAll_slot_mem {names : List ν} (h : n ∈ names) :
    (T.releaseAll names).slot n = none := by
  induction names generalizing T with
  | nil => cases h
  | cons m names ih =>
    rcases List.mem_cons.mp h with rfl | h
    · refine Option.eq_none_iff_forall_ne_some.mpr fun r hr => ?_
      have hslot := slot_of_releaseAll (T := T.release n) hr
      simp [release] at hslot
    · exact ih h

/-- A lease that is told of a lost holder can take away only its own name. -/
theorem notify_slot (ho : T.holder r' = some x → T.Owns r')
    (h : T.slot n = some r) : (T.notify x d r').slot n = some r ∨ T.holder r = some x := by
  unfold notify
  split
  · exact .inl h
  rename_i hx
  have hx : T.holder r' = some x := not_not.mp hx
  cases d with
  | some d => exact .inl h
  | none =>
    by_cases hn : n = T.name r'
    · subst hn
      rcases ho hx with ho | ho
      · rw [ho] at h
        cases h
      · rw [ho] at h
        cases h
        exact .inr hx
    · exact .inl ((release_slot_ne hn).trans h)

theorem notifyAll_slot {l : List ρ} (ho : ∀ r ∈ l, T.holder r = some x → T.Owns r) (h : T.slot n = some r) :
    (l.foldl (fun T r => T.notify x d r) T).slot n = some r ∨ T.holder r = some x := by
  induction l generalizing T with
  | nil => exact .inl h
  | cons r' l ih =>
    have ho' := ho r' (List.mem_cons_self ..)
    rcases notify_slot (d := d) ho' h with hn | hx
    · refine (ih ?_ hn).imp_right notify_holder
      exact fun r'' hr hx => (ho r'' (List.mem_cons_of_mem _ hr) (notify_holder hx)).notify x d r'
    · exact .inr hx

/-- When a holder is lost, only names of leases attached to it are taken away. -/
theorem lose_slot (hu : T.Undisputed) (hs : T.Sound) (h : T.slot n = some r) :
    (T.lose x d).slot n = some r ∨ T.holder r = some x :=
  notifyAll_slot (T := T.mark x) (fun _ hr hx => hu.heard hs hr hx) h

/-- When a timer fires, only the name of the lease that armed it is taken away. -/
theorem fire_slot (hu : T.Undisputed) (ht : (t, r') ∈ T.timers) (h : T.slot n = some r) :
    (T.fire t r').slot n = some r ∨ r' = r := by
  by_cases hn : n = T.name r'
  · subst hn
    rcases hu r' (.inr ⟨t, ht⟩) with ho | ho
    · rw [ho] at h
      cases h
    · rw [ho] at h
      exact .inr (Option.some.inj h)
  · exact .inl ((release_slot_ne hn).trans h)

theorem Acts.known (h : T.Acts r) (hs : T.Sound) : T.known r = true := by
  rcases h with ⟨x, hx, -⟩ | ⟨t, ht⟩
  · exact hs.attached x r hx
  · exact (hs.armed t r ht).1

theorem create_acts (hs : T.Sound) (hr : T.known r = false) (h : (T.create r n).Acts r') :
    T.Acts r' ∧ r' ≠ r := by
  have hne : r' ≠ r := by
    rintro rfl
    rcases h with ⟨x, hx, -⟩ | ⟨t, ht⟩
    · simp [Table.create] at hx
    · rw [(hs.armed t r' ht).1] at hr
      cases hr
  refine ⟨?_, hne⟩
  simpa only [Acts, Live, Armed, Table.create, update_apply, if_neg hne] using h

/-! ## Names that nobody holds -/

/-- Every lease with a name is attached to a holder that is there, or in its grace period. -/
def Covered (T : Table ν ρ χ) : Prop := ∀ n r, T.slot n = some r → T.Live r ∨ T.InGrace r

/-- As `Covered`, while the leases of a list are still to hear of a lost holder. -/
def CoveredBut (T : Table ν ρ χ) (x : χ) (l : List ρ) : Prop :=
  ∀ n r, T.slot n = some r → T.Live r ∨ T.InGrace r ∨ T.holder r = some x ∧ r ∈ l

theorem Covered.create (h : T.Covered) (hs : T.Sound) (hr : T.known r = false) :
    (T.create r n).Covered := by
  intro m r' hm
  have hm : T.slot m = some r' := hm
  have := h m r' hm
  have hne : r' ≠ r := by
    rintro rfl
    rw [(hs.named m r' hm).2] at hr
    cases hr
  simpa only [Live, InGrace, Table.create, update_apply, if_neg hne] using this

theorem Covered.attach (h : ∀ n r', r' ≠ r → T.slot n = some r' → T.Live r' ∨ T.InGrace r')
    (hs : T.Sound) (hx : T.gone x = false ∨ ∀ n, T.slot n ≠ some r) : (T.attach r x).Covered := by
  have ho := hs.own
  intro n r' hn
  have hn : T.slot n = some r' := hn
  by_cases he : r' = r
  · subst he
    refine .inl ⟨x, update_self .., hx.resolve_right fun hx => hx n hn⟩
  · have := h n r' he hn
    simp only [Live, InGrace, Table.attach, Table.stop, update_apply, if_neg he, List.mem_filter]
      at this ⊢
    grind

theorem Covered.publish (h : T.Covered) (hs : T.Sound) (hk : T.known r = true)
    (hx : T.gone x = false) : ((T.insert r).attach r x).Covered := by
  refine Covered.attach (fun n r' hr hn => ?_) (hs.insert hk) (.inl hx)
  by_cases he : n = T.name r
  · rw [he, insert_slot_self] at hn
    exact absurd (Option.some.inj hn).symm hr
  · exact h n r' ((insert_slot_ne T r he).symm.trans hn)

theorem InGrace.release (hs : T.Sound) (h : T.InGrace r) (hr : T.slot n ≠ some r) :
    (T.release n).InGrace r := by
  obtain ⟨hh, ⟨t, ht, hm⟩, hd⟩ := h
  refine ⟨hh, ⟨t, ht, List.mem_filter.mpr ⟨hm, ?_⟩⟩, hd⟩
  rw [decide_eq_true_eq]
  intro hb
  obtain ⟨r', hr', ht'⟩ := Option.bind_eq_some_iff.mp hb.symm
  rw [hs.own t r' r ht' hm] at hr'
  exact hr hr'

theorem CoveredBut.release {l : List ρ} (h : T.CoveredBut x l) (hs : T.Sound) (n : ν) :
    (T.release n).CoveredBut x l := by
  intro m r hm
  have hne : m ≠ n := by
    rintro rfl
    simp [Table.release] at hm
  rw [release_slot_ne hne] at hm
  refine (h m r hm).imp_right (Or.imp_left fun hg => hg.release hs ?_)
  intro hr
  exact hne ((hs.named m r hm).1.symm.trans (hs.named n r hr).1)

theorem CoveredBut.notify {l : List ρ} (h : T.CoveredBut x (r :: l)) (hs : T.Sound) (d : Option Nat) :
    (T.notify x d r).CoveredBut x l := by
  have hrest : ∀ n r', r' ≠ r → T.slot n = some r' →
      (T.detach r).Live r' ∨ (T.detach r).InGrace r' ∨ T.holder r' = some x ∧ r' ∈ l := by
    intro n r' hne hn
    have := h n r' hn
    simpa only [Live, InGrace, Table.detach, update_apply, List.mem_cons, hne, if_false,
      false_or] using this
  unfold Table.notify
  split
  · rename_i hx
    intro n r' hn
    refine (h n r' hn).imp_right (Or.imp_right ?_)
    rintro ⟨hx', hm⟩
    refine ⟨hx', (List.mem_cons.mp hm).resolve_left ?_⟩
    rintro rfl
    exact hx hx'
  cases d with
  | none =>
    intro n r' hn
    have hne : n ≠ T.name r := by
      rintro rfl
      simp [Table.release] at hn
    rw [release_slot_ne hne] at hn
    have hr : r' ≠ r := by
      rintro rfl
      exact hne (hs.named n r' hn).1.symm
    rcases hrest n r' hr hn with hl | hg | ⟨hx, hm⟩
    · exact .inl hl
    · refine .inr (.inl (hg.release hs.detach fun hr' => hne ?_))
      exact (hs.named n r' hn).1.symm.trans (hs.named _ r' hr').1
    · refine .inr (.inr ⟨?_, hm⟩)
      simpa only [Table.release, Table.stop, Table.detach, update_apply, if_neg hr] using hx
  | some d =>
    intro n r' hn
    have hn : T.slot n = some r' := hn
    by_cases he : r' = r
    · subst he
      refine .inr (.inl ⟨update_self .., ⟨T.nextTimer, update_self .., ?_⟩, ?_⟩)
      · exact List.mem_append_right _ (List.mem_singleton_self _)
      · simp [Table.arm]
    · have := hrest n r' he hn
      simp only [Live, InGrace, Table.arm, Table.detach, update_apply, if_neg he, List.mem_append]
        at this ⊢
      grind

theorem CoveredBut.notifyAll {l : List ρ} (h : T.CoveredBut x l) (hs : T.Sound)
    (hk : ∀ r ∈ l, T.known r = true) (d : Option Nat) :
    (l.foldl (fun T r => T.notify x d r) T).CoveredBut x [] := by
  induction l generalizing T with
  | nil => exact h
  | cons r l ih =>
    refine ih (h.notify hs d) (hs.notify (hk r (List.mem_cons_self ..)) x d) fun r' hr' => ?_
    rw [notify_known]
    exact hk r' (List.mem_cons_of_mem _ hr')

theorem Covered.mark (h : T.Covered) (hs : T.Sound) (x : χ) :
    (T.mark x).CoveredBut x (T.hears x) := by
  intro n r hn
  rcases h n r hn with ⟨y, hy, hg⟩ | hg
  · by_cases he : y = x
    · subst he
      exact .inr (.inr ⟨hy, hs.hearing y r hy hg⟩)
    · refine .inl ⟨y, hy, ?_⟩
      simpa only [Table.mark, update_apply, if_neg he] using hg
  · exact .inr (.inl hg)

theorem CoveredBut.covered (h : T.CoveredBut x []) : T.Covered := by
  intro n r hn
  have := h n r hn
  simpa only [List.not_mem_nil, and_false, or_false] using this

theorem Covered.lose (h : T.Covered) (hs : T.Sound) (x : χ) (d : Option Nat) :
    (T.lose x d).Covered :=
  ((h.mark hs x).notifyAll (hs.mark x) (fun r hr => hs.heard x r hr) d).covered

theorem Covered.release (h : T.Covered) (hs : T.Sound) (n : ν) : (T.release n).Covered := by
  intro m r hm
  have hne : m ≠ n := by
    rintro rfl
    simp [Table.release] at hm
  rw [release_slot_ne hne] at hm
  refine (h m r hm).imp_right fun hg => hg.release hs fun hr => hne ?_
  exact (hs.named m r hm).1.symm.trans (hs.named n r hr).1

theorem Covered.releaseAll (h : T.Covered) (hs : T.Sound) (names : List ν) :
    (T.releaseAll names).Covered := by
  induction names generalizing T with
  | nil => exact h
  | cons n names ih => exact ih (h.release hs n) hs.release

theorem Covered.fire (h : T.Covered) (hs : T.Sound) (ht : (t, r) ∈ T.timers) :
    (T.fire t r).Covered := by
  intro m r' hm
  have hne : m ≠ T.name r := by
    rintro rfl
    simp [Table.fire, Table.release] at hm
  have hm' : T.slot m = some r' := (release_slot_ne hne).symm.trans hm
  have hr : r' ≠ r := by
    rintro rfl
    exact hne (hs.named m r' hm').1.symm
  refine (h m r' hm').imp_right fun hg => ?_
  refine InGrace.release (hs.unarm t) ?_ fun hr' => hne ?_
  · obtain ⟨hh, ⟨u, hu, hmem⟩, hd⟩ := hg
    refine ⟨hh, ⟨u, hu, List.mem_filter.mpr ⟨hmem, ?_⟩⟩, hd⟩
    rw [decide_eq_true_eq]
    rintro rfl
    exact hr (hs.own u r' r hu ht)
  · exact (hs.named m r' hm').1.symm.trans (hs.named _ r' hr').1

/-- A lease with a name that is attached to a holder that is gone stays as it is. -/
theorem attach_gone (hn : T.slot n = some r) (hx : T.gone x = true) : ¬ (T.attach r x).Covered := by
  intro h
  rcases h n r hn with ⟨y, hy, hg⟩ | ⟨hh, -⟩
  · rw [show (T.attach r x).holder r = some x from update_self ..] at hy
    cases hy
    exact Bool.noConfusion (hx.symm.trans hg)
  · rw [show (T.attach r x).holder r = some x from update_self ..] at hh
    cases hh

end Table

end Tunlit.Lib.Leases
