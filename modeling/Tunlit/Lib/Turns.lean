import Mathlib.Data.List.Basic
import Tunlit.Lib.Runs

/-! # Calls that are cut at every await

A program that runs one thing at a time answers calls. A call that waits is resumed at any
later time, so the turns of several calls come in any order. What a call waits for is given
to it when it is resumed. Every call keeps the worlds before and after its own turns. -/
namespace Tunlit.Lib.Turns
open Tunlit.Lib.Runs

/-- A call waits at a point, or it has ended with an answer. -/
inductive Stage (κ β : Type*) where
  | waits (point : κ)
  | ended (answer : β)
deriving DecidableEq

/-- The turns of a call: its beginning, and what it does with what it waited for. -/
structure Handlers (ω α ι κ β : Type*) where
  start : ω → α → ω × Stage κ β
  resume : ω → κ → ι → ω × Stage κ β

structure Call (ω κ β : Type*) where
  turns : List (ω × ω)
  stage : Stage κ β

structure System (ω κ β : Type*) where
  world : ω
  calls : List (Call ω κ β) := []

inductive Event (α ι : Type*) where
  | call (request : α)
  | resume (call : Nat) (input : ι)

variable {ω α ι κ β : Type*}

def Stage.point : Stage κ β → Option κ
  | .waits point => some point
  | .ended _ => none

def Stage.isEnded (stage : Stage κ β) : Bool := stage.point.isNone

namespace System

variable (s : System ω κ β)

/-- A call begins with a turn that leads here. -/
def begins (turn : ω × Stage κ β) : System ω κ β :=
  ⟨turn.1, s.calls ++ [⟨[(s.world, turn.1)], turn.2⟩]⟩

/-- A call goes on with a turn that leads here. -/
def goesOn (i : Nat) (turns : List (ω × ω)) (turn : ω × Stage κ β) : System ω κ β :=
  ⟨turn.1, s.calls.set i ⟨turns ++ [(s.world, turn.1)], turn.2⟩⟩

/-- Where a call waits. -/
def pointOf (i : Nat) : Option κ := s.calls[i]?.bind fun call => call.stage.point

/-- No call waits. -/
def Idle : Prop := ∀ call ∈ s.calls, call.stage.isEnded = true

instance : Decidable s.Idle := inferInstanceAs (Decidable (∀ call ∈ s.calls, _))

end System

namespace Handlers

variable (H : Handlers ω α ι κ β)

def step (s : System ω κ β) : Event α ι → Option (System ω κ β)
  | .call request => some (s.begins (H.start s.world request))
  | .resume i input =>
    match s.calls[i]? with
    | some ⟨turns, .waits point⟩ => some (s.goesOn i turns (H.resume s.world point input))
    | _ => none

def machine (init : System ω κ β → Prop) : Machine (System ω κ β) (Event α ι) := ⟨init, H.step⟩

variable {H} {s t : System ω κ β} {e : Event α ι}

/-- A step is a turn of one call. -/
theorem step_cases (h : H.step s e = some t) :
    (∃ request, e = .call request ∧ t = s.begins (H.start s.world request)) ∨
    ∃ i input turns point, e = .resume i input ∧ s.calls[i]? = some ⟨turns, .waits point⟩ ∧
      t = s.goesOn i turns (H.resume s.world point input) := by
  cases e with
  | call request => exact .inl ⟨request, rfl, (Option.some.inj h).symm⟩
  | resume i input =>
    rw [step] at h
    split at h
    · next turns point hc => exact .inr ⟨i, input, turns, point, rfl, hc, (Option.some.inj h).symm⟩
    · cases h

end Handlers

/-! ## Invariants -/

/-- A property of the world, and one of every call in it. -/
structure Each (I : ω → Prop) (J : ω → Call ω κ β → Prop) (s : System ω κ β) : Prop where
  world : I s.world
  calls : ∀ (i : Nat) (call : Call ω κ β), s.calls[i]? = some call → J s.world call

variable {H : Handlers ω α ι κ β} {init : System ω κ β → Prop} {s t : System ω κ β}
  {I : ω → Prop} {J : ω → Call ω κ β → Prop} {turn : ω × Stage κ β}

theorem Each.begins (hI : I turn.1) (hJ : J turn.1 ⟨[(s.world, turn.1)], turn.2⟩)
    (hrest : ∀ (i : Nat) (call : Call ω κ β), s.calls[i]? = some call → J turn.1 call) :
    Each I J (s.begins turn) := by
  refine ⟨hI, fun i call hi => ?_⟩
  rw [System.begins, List.getElem?_append] at hi
  split at hi
  · exact hrest i call hi
  · rw [List.getElem?_singleton] at hi
    split at hi
    · cases hi
      exact hJ
    · cases hi

theorem Each.goesOn {i : Nat} {turns : List (ω × ω)} (hI : I turn.1)
    (hJ : J turn.1 ⟨turns ++ [(s.world, turn.1)], turn.2⟩)
    (hrest : ∀ (k : Nat) (call : Call ω κ β), k ≠ i → s.calls[k]? = some call → J turn.1 call) :
    Each I J (s.goesOn i turns turn) := by
  refine ⟨hI, fun k call hk => ?_⟩
  rw [System.goesOn, List.getElem?_set] at hk
  split at hk
  · split at hk
    · cases hk
      exact hJ
    · cases hk
  · next hne => exact hrest k call (fun h => hne h.symm) hk

/-- The call that began last goes on. -/
theorem Handlers.step_last {world : ω} {calls : List (Call ω κ β)} {turns : List (ω × ω)} {point : κ}
    {input : ι} (ht : H.resume world point input = turn) :
    H.step ⟨world, calls ++ [⟨turns, .waits point⟩]⟩ (.resume calls.length input) =
      some ⟨turn.1, calls ++ [⟨turns ++ [(world, turn.1)], turn.2⟩]⟩ := by
  have hc : (calls ++ [⟨turns, .waits point⟩])[calls.length]? =
      some (⟨turns, .waits point⟩ : Call ω κ β) := List.getElem?_concat_length
  rw [Handlers.step]
  simp only [hc, System.goesOn, ht]
  rw [List.set_append_right _ _ (Nat.le_refl _)]
  simp

theorem System.pointOf_eq_some {i : Nat} {point : κ} (h : s.pointOf i = some point) :
    ∃ turns, s.calls[i]? = some ⟨turns, .waits point⟩ := by
  obtain ⟨⟨turns, stage⟩, hc, hp⟩ := Option.bind_eq_some_iff.mp h
  cases stage with
  | waits _ =>
    cases hp
    exact ⟨turns, hc⟩
  | ended _ => cases hp

theorem System.pointOf_of_call {i : Nat} {t : List (ω × ω)} {point : κ}
    (h : s.calls[i]? = some ⟨t, .waits point⟩) : s.pointOf i = some point := by
  rw [System.pointOf, h]
  rfl

theorem System.pointOf_begins_cases {i : Nat} {point : κ}
    (h : (s.begins turn).pointOf i = some point) :
    s.pointOf i = some point ∨ i = s.calls.length ∧ turn.2 = .waits point := by
  obtain ⟨turns, hc⟩ := pointOf_eq_some h
  rw [System.begins, List.getElem?_append] at hc
  split at hc
  · exact .inl (pointOf_of_call hc)
  · next hle =>
    rw [List.getElem?_singleton] at hc
    split at hc
    · exact .inr ⟨by omega, congrArg Call.stage (Option.some.inj hc)⟩
    · cases hc

theorem System.pointOf_begins {i : Nat} {point : κ} (h : (s.begins turn).pointOf i = some point) :
    s.pointOf i = some point ∨ turn.2 = .waits point :=
  (pointOf_begins_cases h).imp_right And.right

theorem System.pointOf_begins_of {i : Nat} {point : κ} (h : s.pointOf i = some point) :
    (s.begins turn).pointOf i = some point := by
  obtain ⟨turns, hc⟩ := pointOf_eq_some h
  have hi : i < s.calls.length := (List.getElem?_eq_some_iff.mp hc).1
  refine pointOf_of_call (t := turns) ?_
  rw [System.begins, List.getElem?_append_left hi, hc]

theorem System.pointOf_goesOn {i k : Nat} {turns : List (ω × ω)} {point : κ}
    (h : (s.goesOn i turns turn).pointOf k = some point) :
    k ≠ i ∧ s.pointOf k = some point ∨ k = i ∧ turn.2 = .waits point := by
  obtain ⟨_, hc⟩ := pointOf_eq_some h
  rw [System.goesOn, List.getElem?_set] at hc
  split at hc
  · next hik =>
    split at hc
    · exact .inr ⟨hik.symm, congrArg Call.stage (Option.some.inj hc)⟩
    · cases hc
  · next hik => exact .inl ⟨fun h => hik h.symm, pointOf_of_call hc⟩

theorem System.pointOf_goesOn_of {i k : Nat} {turns : List (ω × ω)} {point : κ} (hne : k ≠ i)
    (h : s.pointOf k = some point) : (s.goesOn i turns turn).pointOf k = some point := by
  obtain ⟨before, hc⟩ := pointOf_eq_some h
  refine pointOf_of_call (t := before) ?_
  rw [System.goesOn, List.getElem?_set_ne fun h => hne h.symm, hc]

theorem System.pointOf_begins_last {point : κ} (hp : turn.2.point = some point) :
    (s.begins turn).pointOf s.calls.length = some point := by
  rw [System.pointOf, System.begins, List.getElem?_concat_length]
  exact hp

theorem System.pointOf_goesOn_self {i : Nat} {turns : List (ω × ω)} {call : Call ω κ β} {point : κ}
    (h : s.calls[i]? = some call) (hp : turn.2.point = some point) :
    (s.goesOn i turns turn).pointOf i = some point := by
  have hi : i < s.calls.length := (List.getElem?_eq_some_iff.mp h).1
  rw [System.pointOf, System.goesOn, List.getElem?_set_self hi]
  exact hp

/-- What every turn keeps of the world, of its own call and of the others holds in every
state of a run. -/
theorem Each.of_reaches {ok : System ω κ β → Event α ι → Prop}
    (h : (H.machine init).Reaches ok s) (h0 : ∀ s, init s → Each I J s)
    (hstart : ∀ s request, Each I J s → ok s (.call request) →
      Each I J (s.begins (H.start s.world request)))
    (hresume : ∀ s i input turns point, Each I J s → ok s (.resume i input) →
      s.calls[i]? = some ⟨turns, .waits point⟩ →
      Each I J (s.goesOn i turns (H.resume s.world point input))) : Each I J s := by
  refine h.invariant h0 fun s t e hs hok hst => ?_
  rcases Handlers.step_cases hst with ⟨request, rfl, rfl⟩ | ⟨i, input, turns, point, rfl, hc, rfl⟩
  · exact hstart s request hs hok
  · exact hresume s i input turns point hs hok hc

/-! ## What is still to be done -/

/-- What the world has open is a matter of a call that waits. -/
def Covered {δ : Type*} (Open : ω → δ → Prop) (Minds : κ → δ → Prop) (s : System ω κ β) : Prop :=
  ∀ d, Open s.world d → ∃ i point, s.pointOf i = some point ∧ Minds point d

section
variable {δ : Type*} {Open : ω → δ → Prop} {Minds : κ → δ → Prop} {d : δ}

/-- Once no call waits, nothing is open. -/
theorem Covered.idle (h : Covered Open Minds s) (hidle : s.Idle) : ¬ Open s.world d := by
  intro hd
  obtain ⟨i, point, hi, -⟩ := h d hd
  obtain ⟨turns, hc⟩ := System.pointOf_eq_some hi
  exact absurd (hidle _ (List.mem_of_getElem? hc)) nofun

/-- A turn that opens nothing, and leads to where its call minds as much as before. -/
theorem Covered.keeps {world world' : ω} {point : κ} {stage : Stage κ β}
    (hopen : Open world' d → Open world d)
    (hminds : Minds point d → ∃ next ∈ stage.point, Minds next d) (hd : Open world' d) :
    Open world d ∧ ¬ Minds point d ∨ ∃ next ∈ stage.point, Minds next d := by
  by_cases hm : Minds point d
  · exact .inr (hminds hm)
  · exact .inl ⟨hopen hd, hm⟩

/-- A call that begins minds what it opens. A call that goes on minds what it opens, and what
it has minded and leaves open. -/
theorem Covered.of_reaches {ok : System ω κ β → Event α ι → Prop}
    (h : (H.machine init).Reaches ok s) (h0 : ∀ s, init s → ∀ d, ¬ Open s.world d)
    (hstart : ∀ s request d, ok s (.call request) → Open (H.start s.world request).1 d →
      Open s.world d ∨ ∃ next ∈ (H.start s.world request).2.point, Minds next d)
    (hresume : ∀ s i input point d, ok s (.resume i input) → s.pointOf i = some point →
      Open (H.resume s.world point input).1 d →
      Open s.world d ∧ ¬ Minds point d ∨
        ∃ next ∈ (H.resume s.world point input).2.point, Minds next d) :
    Covered Open Minds s := by
  refine h.invariant (fun s hs d hd => absurd hd (h0 s hs d)) fun s t e hs hok hst d hd => ?_
  rcases Handlers.step_cases hst with ⟨request, rfl, rfl⟩ | ⟨i, input, turns, point, rfl, hc, rfl⟩
  · rcases hstart s request d hok hd with hd | ⟨next, hn, hm⟩
    · obtain ⟨k, point, hk, hm⟩ := hs d hd
      exact ⟨k, point, System.pointOf_begins_of hk, hm⟩
    · exact ⟨s.calls.length, next, System.pointOf_begins_last hn, hm⟩
  · rcases hresume s i input point d hok (System.pointOf_of_call hc) hd with
      ⟨hd, hno⟩ | ⟨next, hn, hm⟩
    · obtain ⟨k, other, hk, hm⟩ := hs d hd
      have hne : k ≠ i := by
        rintro rfl
        rw [System.pointOf_of_call hc] at hk
        cases hk
        exact hno hm
      exact ⟨k, other, System.pointOf_goesOn_of hne hk, hm⟩
    · exact ⟨i, next, System.pointOf_goesOn_self hc hn, hm⟩

end

end Tunlit.Lib.Turns
