import Mathlib.Algebra.Order.Ring.Nat
import Mathlib.Data.List.Basic

/-! # What a session that reconnects tells of itself

A session comes up, and is told news of; it is lost, and waits before each attempt to come back,
twice as long after each that fails; and it is over once. The log of such a session is one that
this automaton reads. -/
namespace Tunlit.Client.Outages

/-- What is told; `ι` names what the session is one of. -/
inductive Note (ι : Type*)
  | connecting
  | up (id : ι)
  | news
  | waiting (seconds : ℕ) (reason : Option String)
  | back (id : ι) (same : Bool)
  | stopped
  | ended

inductive Stage (ι : Type*)
  | idle
  | connecting
  | up (id : ι)
  /-- lost, with the errors of the attempts to come back since -/
  | down (id : ι) (errors : List String)
  | over

/-- How long is waited behind so many failures. -/
def pause (failures : ℕ) : ℕ := min (2 ^ failures) 30

variable {ι : Type*} [DecidableEq ι]

def Stage.next : Stage ι → Note ι → Option (Stage ι)
  | .idle, .connecting => some .connecting
  | .connecting, .up id => some (.up id)
  | .up id, .news => some (.up id)
  | .up id, .waiting seconds none => if seconds = pause 0 then some (.down id []) else none
  | .down id errors, .waiting seconds (some error) =>
    if seconds = pause (errors.length + 1) then some (.down id (errors ++ [error])) else none
  | .down id _, .back id' same => if same = decide (id' = id) then some (.up id') else none
  | .up _, .stopped | .down _ _, .stopped | .up _, .ended => some .over
  | _, _ => none

def stageOf (notes : List (Note ι)) : Option (Stage ι) := notes.foldlM Stage.next .idle

theorem stageOf_concat (notes : List (Note ι)) (note : Note ι) :
    stageOf (notes ++ [note]) = (stageOf notes).bind fun stage => stage.next note := by
  rw [stageOf, List.foldlM_append]
  change (stageOf notes).bind _ = _
  congr 1
  funext stage
  rw [List.foldlM_cons]
  cases stage.next note <;> rfl

/-- The doubling of the two loops. -/
theorem pause_succ (failures : ℕ) : pause (failures + 1) = min (pause failures * 2) 30 := by
  rw [pause, pause, Nat.pow_succ]
  omega

end Tunlit.Client.Outages
