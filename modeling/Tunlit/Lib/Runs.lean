import Mathlib.Logic.Relation

/-! # Machines driven by events, and their runs

A machine steps on an event or refuses it. Every choice of the environment is
part of the event, so a step is a function and a run can be executed. `Reaches`
restricts a run by a condition on each state and the event taken from it;
`Reachable` is the unrestricted case. -/
namespace Tunlit.Lib.Runs

structure Machine (σ ε : Type*) where
  init : σ → Prop
  step : σ → ε → Option σ

variable {σ ε τ : Type*}

/-- The end states of the runs whose steps all meet `ok`. -/
inductive Machine.Reaches (M : Machine σ ε) (ok : σ → ε → Prop) : σ → Prop
  | init {s : σ} : M.init s → M.Reaches ok s
  | step {s t : σ} {e : ε} : M.Reaches ok s → ok s e → M.step s e = some t → M.Reaches ok t

def Machine.Reachable (M : Machine σ ε) : σ → Prop := M.Reaches fun _ _ => True

variable {M : Machine σ ε} {ok ok' : σ → ε → Prop} {s t : σ}

/-- The induction rule: what holds initially and is kept by every allowed step
holds at the end of every allowed run. -/
theorem Machine.Reaches.invariant {I : σ → Prop} (h : M.Reaches ok s)
    (h0 : ∀ s, M.init s → I s)
    (hs : ∀ s t e, I s → ok s e → M.step s e = some t → I t) : I s := by
  induction h with
  | init hi => exact h0 _ hi
  | step _ hok hst ih => exact hs _ _ _ ih hok hst

/-- An invariant proved for the allowed runs may be used when the next one is. -/
theorem Machine.Reaches.invariant_of {I J : σ → Prop} (h : M.Reaches ok s)
    (hJ : ∀ s, M.Reaches ok s → J s) (h0 : ∀ s, M.init s → I s)
    (hs : ∀ s t e, J s → I s → ok s e → M.step s e = some t → I t) : I s := by
  induction h with
  | init hi => exact h0 _ hi
  | step hr hok hst ih => exact hs _ _ _ (hJ _ hr) ih hok hst

theorem Machine.Reaches.mono (h : M.Reaches ok s) (hok : ∀ s e, ok s e → ok' s e) :
    M.Reaches ok' s := by
  induction h with
  | init hi => exact .init hi
  | step _ ho hst ih => exact .step ih (hok _ _ ho) hst

/-- The condition may name an invariant of the allowed runs. -/
theorem Machine.Reaches.and_of {J : σ → Prop} (h : M.Reaches ok s)
    (hJ : ∀ s, M.Reaches ok s → J s) : M.Reaches (fun s e => ok s e ∧ J s) s := by
  induction h with
  | init hi => exact .init hi
  | step hr ho hst ih => exact .step ih ⟨ho, hJ _ hr⟩ hst

theorem Machine.Reaches.reachable (h : M.Reaches ok s) : M.Reachable s :=
  h.mono fun _ _ _ => trivial

theorem Machine.Reachable.init (h : M.init s) : M.Reachable s := Reaches.init h

theorem Machine.Reachable.step {e : ε} (h : M.Reachable s) (hst : M.step s e = some t) :
    M.Reachable t := Reaches.step h trivial hst

/-- A list of events, taken one after the other. -/
def Machine.exec (M : Machine σ ε) : σ → List ε → Option σ
  | s, [] => some s
  | s, e :: es => (M.step s e).bind fun t => M.exec t es

theorem Machine.exec_eq_bind (s : σ) (e : ε) (es : List ε) :
    M.exec s (e :: es) = (M.step s e).bind fun t => M.exec t es := rfl

theorem Machine.exec_cons {e : ε} {es : List ε} (h : M.step s e = some t) :
    M.exec s (e :: es) = M.exec t es := by
  rw [Machine.exec_eq_bind, h, Option.bind_some]

theorem Machine.exec_append (s : σ) (es fs : List ε) :
    M.exec s (es ++ fs) = (M.exec s es).bind fun t => M.exec t fs := by
  induction es generalizing s with
  | nil => rfl
  | cons e es ih =>
    simp only [List.cons_append, Machine.exec_eq_bind]
    cases M.step s e with
    | none => rfl
    | some u => simpa using ih u

theorem Machine.Reachable.exec (h : M.Reachable s) (es : List ε) (he : M.exec s es = some t) :
    M.Reachable t := by
  induction es generalizing s with
  | nil => cases he; exact h
  | cons e es ih =>
    simp only [Machine.exec_eq_bind, Option.bind_eq_some_iff] at he
    obtain ⟨u, hu, hes⟩ := he
    exact ih (h.step hu) hes

/-- The same machine, started in a given state. -/
def Machine.startingIn (M : Machine σ ε) (s : σ) : Machine σ ε := { M with init := (· = s) }

/-- A run that goes on from the end of another one. -/
theorem Machine.Reaches.append (h : M.Reaches ok s) (ht : (M.startingIn s).Reaches ok' t)
    (hok : ∀ s e, ok' s e → ok s e) : M.Reaches ok t := by
  induction ht with
  | init hi => exact hi ▸ h
  | step _ ho hst ih => exact .step ih (hok _ _ ho) hst

/-- A list of events each of which is allowed where it is taken. -/
def Machine.Allowed (M : Machine σ ε) (ok : σ → ε → Prop) : σ → List ε → Prop
  | _, [] => True
  | s, e :: es => ok s e ∧ ∀ t ∈ M.step s e, M.Allowed ok t es

instance Machine.decidableAllowed [∀ s e, Decidable (ok s e)] :
    ∀ s es, Decidable (M.Allowed ok s es)
  | _, [] => isTrue trivial
  | s, e :: es =>
    have := fun t => Machine.decidableAllowed t es
    inferInstanceAs (Decidable (ok s e ∧ ∀ t ∈ M.step s e, M.Allowed ok t es))

theorem Machine.allowed_of_forall {es : List ε} (h : ∀ e ∈ es, ∀ s, ok s e) (s : σ) :
    M.Allowed ok s es := by
  induction es generalizing s with
  | nil => trivial
  | cons e es ih =>
    rw [List.forall_mem_cons] at h
    exact ⟨h.1 s, fun t _ => ih h.2 t⟩

theorem Machine.Reaches.exec (h : M.Reaches ok s) (es : List ε) (ha : M.Allowed ok s es)
    (he : M.exec s es = some t) : M.Reaches ok t := by
  induction es generalizing s with
  | nil => cases he; exact h
  | cons e es ih =>
    simp only [Machine.exec_eq_bind, Option.bind_eq_some_iff] at he
    obtain ⟨u, hu, hes⟩ := he
    exact ih (.step h ha.1 hu) (ha.2 u hu) hes

/-- The condition may be checked in another form, which is enough in the states of a run. -/
theorem Machine.Reaches.exec_of (h : M.Reaches ok s) (es : List ε)
    (hok : ∀ s e, M.Reachable s → ok' s e → ok s e) (ha : M.Allowed ok' s es)
    (he : M.exec s es = some t) : M.Reaches ok t := by
  induction es generalizing s with
  | nil => cases he; exact h
  | cons e es ih =>
    simp only [Machine.exec_eq_bind, Option.bind_eq_some_iff] at he
    obtain ⟨u, hu, hes⟩ := he
    exact ih (.step h (hok s e h.reachable ha.1) hu) (ha.2 u hu) hes

/-- Simulation: every allowed step of the machine is matched by steps of the
relation `A` between states related by `R`, given an invariant `I` of `A`. -/
theorem Machine.Reaches.simulates {R : σ → τ → Prop} {A : τ → τ → Prop} {I : τ → Prop}
    (h : M.Reaches ok s)
    (hI : ∀ p q, I p → A p q → I q)
    (h0 : ∀ s, M.init s → ∃ p, I p ∧ R s p)
    (hs : ∀ s t e p, I p → R s p → ok s e → M.step s e = some t →
      ∃ q, Relation.ReflTransGen A p q ∧ R t q) : ∃ p, I p ∧ R s p := by
  refine h.invariant h0 ?_
  rintro s t e ⟨p, hp, hr⟩ hok hst
  obtain ⟨q, hpq, hq⟩ := hs s t e p hp hr hok hst
  refine ⟨q, ?_, hq⟩
  clear hq hr
  induction hpq with
  | refl => exact hp
  | tail _ hab ih => exact hI _ _ ih hab

/-! ## Logs -/

/-- Every entry of a log is accounted for by the entries before it. -/
def Explained {α : Type*} (J : List α → α → Prop) (log : List α) : Prop :=
  ∀ before entry after, log = before ++ entry :: after → J before entry

theorem Explained.nil {α : Type*} {J : List α → α → Prop} : Explained J [] := by
  intro before entry after h
  cases before <;> cases h

theorem Explained.concat {α : Type*} {J : List α → α → Prop} {log : List α} {entry : α}
    (h : Explained J log) (hj : J log entry) : Explained J (log ++ [entry]) := by
  intro before other after he
  obtain ⟨rest, hb, ha⟩ | ⟨rest, hl, ha⟩ := List.append_eq_append_iff.mp he
  · cases rest with
    | nil => simp only [List.nil_append, List.cons.injEq] at ha; rw [hb, ← ha.1]; simpa using hj
    | cons _ _ => simp at ha
  · cases rest with
    | nil => simp only [List.nil_append, List.cons.injEq] at ha; rw [ha.1]; simpa [hl] using hj
    | cons first rest =>
      simp only [List.cons_append, List.cons.injEq] at ha
      exact h before other rest (by rw [hl, ha.1])

end Tunlit.Lib.Runs
