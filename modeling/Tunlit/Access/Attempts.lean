import Tunlit.Lib.Insertion

/-! # Counting failed attempts

`AttemptLimiter` of `utils/attempts.js`, with the time of `Date.now()` as an argument. -/
namespace Tunlit.Access.Attempts
open Tunlit.Lib.Insertion

def WINDOW : Nat := 15 * 60 * 1000
def MAX_FAILURES : Nat := 20
def MAX_KEYS : Nat := 10000

structure Entry where
  count : Nat
  since : Nat
deriving DecidableEq, Repr

structure AttemptLimiter (κ : Type) where
  window : Nat := WINDOW
  max : Nat := MAX_FAILURES
  failures : OrderedMap κ Entry := OrderedMap.empty

variable {κ : Type} [DecidableEq κ]

namespace AttemptLimiter

def expired (limiter : AttemptLimiter κ) (entry : Entry) (now : Nat) : Bool :=
  limiter.window < now - entry.since

/-- The map without the oldest key. -/
def evict (failures : OrderedMap κ Entry) : OrderedMap κ Entry :=
  match failures.entries with
  | [] => failures
  | (key, _) :: _ => failures.delete key

def sweep (limiter : AttemptLimiter κ) (now : Nat) : AttemptLimiter κ :=
  { limiter with failures := limiter.failures.filter fun _ entry => !limiter.expired entry now }

def blocked (limiter : AttemptLimiter κ) (key : κ) (now : Nat) : AttemptLimiter κ × Bool :=
  match limiter.failures.get key with
  | none => (limiter, false)
  | some entry =>
    if limiter.expired entry now then
      ({ limiter with failures := limiter.failures.delete key }, false)
    else (limiter, limiter.max ≤ entry.count)

/-- The room for one more key. -/
def withRoom (limiter : AttemptLimiter κ) (now : Nat) : AttemptLimiter κ :=
  let limiter := if MAX_KEYS ≤ limiter.failures.entries.length then limiter.sweep now else limiter
  if MAX_KEYS ≤ limiter.failures.entries.length then
    { limiter with failures := evict limiter.failures }
  else limiter

def start (limiter : AttemptLimiter κ) (key : κ) (now : Nat) : AttemptLimiter κ :=
  let limiter := limiter.withRoom now
  { limiter with failures := limiter.failures.set key { count := 1, since := now } }

def record (limiter : AttemptLimiter κ) (key : κ) (now : Nat) : AttemptLimiter κ :=
  match limiter.failures.get key with
  | some entry =>
    if limiter.expired entry now then limiter.start key now
    else { limiter with failures := limiter.failures.set key { entry with count := entry.count + 1 } }
  | none => limiter.start key now

def forget (limiter : AttemptLimiter κ) (key : κ) : AttemptLimiter κ :=
  { limiter with failures := limiter.failures.delete key }

/-! ## What is counted -/

/-- The failures that are counted for a key. -/
def counted (limiter : AttemptLimiter κ) (key : κ) : Nat :=
  match limiter.failures.get key with
  | some entry => entry.count
  | none => 0

/-- Whether the entry that a key had was deleted, or has been started anew. -/
def lost (before after : AttemptLimiter κ) (key : κ) : Bool :=
  match before.failures.get key, after.failures.get key with
  | none, _ => false
  | some _, none => true
  | some entry, some entry' => entry'.since ≠ entry.since || entry'.count < entry.count

variable {limiter after : AttemptLimiter κ} {key : κ} {now : Nat}

/-- An entry that is not lost counts at least as much as before. -/
theorem counted_le (h : lost limiter after key = false) :
    limiter.counted key ≤ after.counted key := by
  unfold lost at h
  unfold counted
  split at h
  · next hb => simp [hb]
  · cases h
  · next entry entry' hb ha =>
    simp only [Bool.or_eq_false_iff, decide_eq_false_iff_not] at h
    simp only [hb, ha]
    omega

@[simp] theorem blocked_max : (limiter.blocked key now).1.max = limiter.max := by
  unfold blocked
  split
  · rfl
  · split <;> rfl

@[simp] theorem withRoom_max : (limiter.withRoom now).max = limiter.max := by
  simp only [withRoom]
  split_ifs <;> rfl

@[simp] theorem record_max : (limiter.record key now).max = limiter.max := by
  unfold record
  split
  · split
    · exact withRoom_max
    · rfl
  · exact withRoom_max

theorem blocked_of_live (h : ∀ entry, limiter.failures.get key = some entry →
    limiter.expired entry now = false) : (limiter.blocked key now).1 = limiter := by
  unfold blocked
  split
  · rfl
  · next entry hg => simp [h entry hg]

/-- An expired entry is deleted, so nothing is counted any more. -/
theorem blocked_of_expired {entry : Entry} (hg : limiter.failures.get key = some entry)
    (he : limiter.expired entry now = true) :
    (limiter.blocked key now).1.counted key = 0 ∧
      lost limiter (limiter.blocked key now).1 key = true := by
  simp [blocked, hg, he, counted, lost, OrderedMap.get_delete]

/-- A key that is not blocked has failures left. -/
theorem counted_of_not_blocked (h : (limiter.blocked key now).2 = false) (hmax : 0 < limiter.max) :
    (limiter.blocked key now).1.counted key < limiter.max := by
  unfold blocked at h ⊢
  split at h
  · next hg => simpa [counted, hg] using hmax
  · next entry hg =>
    split at h
    · next he => simpa [counted, he, OrderedMap.get_delete] using hmax
    · next he => simpa [counted, hg, he] using h

/-- A failure is counted, unless it is the first one of a new window. -/
theorem counted_record (h : lost limiter (limiter.record key now) key = false) :
    limiter.counted key + 1 ≤ (limiter.record key now).counted key := by
  unfold record at h ⊢
  split
  · next entry hg =>
    simp only [hg] at h
    split
    · next he =>
      have hw : entry.since ≠ now := by
        intro hn
        simp [expired, hn] at he
      simp [he, lost, hg, start, Ne.symm hw] at h
    · simp [counted, hg]
  · next hg => simp [counted, hg, start]

end AttemptLimiter

end Tunlit.Access.Attempts
